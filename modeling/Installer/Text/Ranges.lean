/-! # Sets of characters given by ranges

A property of characters is stored as the list of the ranges of code points that have it. -/

namespace Installer.Text

/-- Ranges of code points, both ends included. -/
abbrev Ranges := List (Nat × Nat)

/-- Whether one of the ranges has the code point of `c`. -/
def Ranges.contains (ranges : Ranges) (c : Char) : Bool :=
  ranges.any fun r => r.1 ≤ c.toNat && c.toNat ≤ r.2

end Installer.Text
