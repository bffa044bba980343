/-! # Numbers in text

An unsigned number is a nonempty run of decimal or hexadecimal digits, a signed one may have a single
`+` or `-` in front. There are no blanks, no separators and no fractions; a number outside the range
that the reader asks for is no number. `hexDigits` writes a number with a fixed number of digits. -/

namespace Installer.Text

/-- The value of a decimal or hexadecimal digit, either letter case. -/
def digit? (c : Char) : Option Nat :=
  if c.isDigit then some (c.toNat - '0'.toNat)
  else if 'a' ≤ c && c ≤ 'f' then some (c.toNat - 'a'.toNat + 10)
  else if 'A' ≤ c && c ≤ 'F' then some (c.toNat - 'A'.toNat + 10)
  else none

/-- The value of a digit in the given base. -/
def digitIn? (base : Nat) (c : Char) : Option Nat := (digit? c).filter (· < base)

/-- The value of a run of digits after the digits that were read with value `n`. -/
def digitsFrom? (base : Nat) : Nat → List Char → Option Nat
  | n, [] => some n
  | n, c :: cs => (digitIn? base c).bind fun d => digitsFrom? base (n * base + d) cs

/-- The value of a nonempty run of digits. -/
def natural? (base : Nat) (cs : List Char) : Option Nat :=
  if cs.isEmpty then none else digitsFrom? base 0 cs

/-- A number with at most one sign in front. -/
def signed? : List Char → Option Int
  | '+' :: cs => (natural? 10 cs).map Int.ofNat
  | '-' :: cs => (natural? 10 cs).map fun n => -Int.ofNat n
  | cs => (natural? 10 cs).map Int.ofNat

/-- The number that a text denotes, if it lies between `lo` and `hi`. -/
def integer? (lo hi : Int) (s : String) : Option Int :=
  (signed? s.toList).filter fun n => lo ≤ n && n ≤ hi

/-- Signed numbers of 64 bits. -/
def int64? (s : String) : Option Int := integer? (-9223372036854775808) 9223372036854775807 s

/-- Signed numbers of 32 bits. -/
def int32? (s : String) : Option Int := integer? (-2147483648) 2147483647 s

/-- The digits of numbers to the base 16. -/
def hexDigit (n : Nat) : Char := "0123456789abcdef".toList.getD n '0'

/-- The last `k` digits of a number to the base 16. -/
def hexDigits : Nat → Nat → List Char
  | 0, _ => []
  | k + 1, n => hexDigits k (n / 16) ++ [hexDigit (n % 16)]

@[simp] theorem length_hexDigits (k n : Nat) : (hexDigits k n).length = k := by
  induction k generalizing n with
  | zero => rfl
  | succ k ih => simp [hexDigits, ih]

end Installer.Text
