/-! # The hash XXH3 with 128 bits

The hash of a byte string for the seed zero and the standard secret. The input is read in
little-endian words of 32 and 64 bits; strings of at most 16, of at most 240 and of more bytes are
hashed in three different ways, and `digest` chooses between them. -/

namespace Installer.Hash.Xxh3

/-- The two halves of the hash. -/
structure Digest where
  high : UInt64
  low : UInt64
  deriving DecidableEq, Repr

/-- The digest as one number of 128 bits. -/
def Digest.toNat (d : Digest) : Nat := d.high.toNat * 0x10000000000000000 + d.low.toNat

/-! ### Constants -/

def prime32A : UInt64 := 0x9E3779B1
def prime32B : UInt64 := 0x85EBCA77
def prime32C : UInt64 := 0xC2B2AE3D
def prime64A : UInt64 := 0x9E3779B185EBCA87
def prime64B : UInt64 := 0xC2B2AE3D27D4EB4F
def prime64C : UInt64 := 0x165667B19E3779F9
def prime64D : UInt64 := 0x85EBCA77C2B2AE63
def prime64E : UInt64 := 0x27D4EB2F165667C5
def mixPrimeA : UInt64 := 0x165667919E3779F9
def mixPrimeB : UInt64 := 0x9FB21C651E98DF25

/-- The standard secret, 192 bytes. -/
def secret : ByteArray := ⟨#[
  0xb8, 0xfe, 0x6c, 0x39, 0x23, 0xa4, 0x4b, 0xbe, 0x7c, 0x01, 0x81, 0x2c, 0xf7, 0x21, 0xad, 0x1c,
  0xde, 0xd4, 0x6d, 0xe9, 0x83, 0x90, 0x97, 0xdb, 0x72, 0x40, 0xa4, 0xa4, 0xb7, 0xb3, 0x67, 0x1f,
  0xcb, 0x79, 0xe6, 0x4e, 0xcc, 0xc0, 0xe5, 0x78, 0x82, 0x5a, 0xd0, 0x7d, 0xcc, 0xff, 0x72, 0x21,
  0xb8, 0x08, 0x46, 0x74, 0xf7, 0x43, 0x24, 0x8e, 0xe0, 0x35, 0x90, 0xe6, 0x81, 0x3a, 0x26, 0x4c,
  0x3c, 0x28, 0x52, 0xbb, 0x91, 0xc3, 0x00, 0xcb, 0x88, 0xd0, 0x65, 0x8b, 0x1b, 0x53, 0x2e, 0xa3,
  0x71, 0x64, 0x48, 0x97, 0xa2, 0x0d, 0xf9, 0x4e, 0x38, 0x19, 0xef, 0x46, 0xa9, 0xde, 0xac, 0xd8,
  0xa8, 0xfa, 0x76, 0x3f, 0xe3, 0x9c, 0x34, 0x3f, 0xf9, 0xdc, 0xbb, 0xc7, 0xc7, 0x0b, 0x4f, 0x1d,
  0x8a, 0x51, 0xe0, 0x4b, 0xcd, 0xb4, 0x59, 0x31, 0xc8, 0x9f, 0x7e, 0xc9, 0xd9, 0x78, 0x73, 0x64,
  0xea, 0xc5, 0xac, 0x83, 0x34, 0xd3, 0xeb, 0xc3, 0xc5, 0x81, 0xa0, 0xff, 0xfa, 0x13, 0x63, 0xeb,
  0x17, 0x0d, 0xdd, 0x51, 0xb7, 0xf0, 0xda, 0x49, 0xd3, 0x16, 0x55, 0x26, 0x29, 0xd4, 0x68, 0x9e,
  0x2b, 0x16, 0xbe, 0x58, 0x7d, 0x47, 0xa1, 0xfc, 0x8f, 0xf8, 0xb8, 0xd1, 0x7a, 0xd0, 0x31, 0xce,
  0x45, 0xcb, 0x3a, 0x8f, 0x95, 0x16, 0x04, 0x28, 0xaf, 0xd7, 0xfb, 0xca, 0xbb, 0x4b, 0x40, 0x7e]⟩

/-! ### Words -/

/-- The byte at a position, zero outside of the string. -/
def byteAt (b : ByteArray) (i : Nat) : UInt64 := (b[i]?.getD 0).toUInt64

/-- The little-endian word of 32 bits at a position. -/
def word32 (b : ByteArray) (i : Nat) : UInt64 :=
  byteAt b i ||| (byteAt b (i + 1) <<< 8) ||| (byteAt b (i + 2) <<< 16) ||| (byteAt b (i + 3) <<< 24)

/-- The little-endian word of 64 bits at a position. -/
def word64 (b : ByteArray) (i : Nat) : UInt64 := word32 b i ||| (word32 b (i + 4) <<< 32)

/-- The low half of a word. -/
def lowHalf (x : UInt64) : UInt64 := x &&& 0xFFFFFFFF

/-- The four bytes of a word of 32 bits in the opposite order. -/
def swap32 (x : UInt64) : UInt64 :=
  let byte (r : UInt64) : UInt64 := (x >>> r : UInt64) &&& (0xFF : UInt64)
  (byte 0 <<< 24) ||| (byte 8 <<< 16) ||| (byte 16 <<< 8) ||| byte 24

/-- The eight bytes of a word in the opposite order. -/
def swap64 (x : UInt64) : UInt64 := (swap32 (lowHalf x) <<< 32) ||| swap32 (x >>> 32)

/-- Rotation of a word of 32 bits to the left. -/
def rotate32 (x r : UInt64) : UInt64 := lowHalf ((x <<< r) ||| (x >>> (32 - r)))

def xorShift (x r : UInt64) : UInt64 := x ^^^ (x >>> r)

/-- The product of two words as a number of 128 bits. -/
def wideMul (x y : UInt64) : Digest :=
  let p := x.toNat * y.toNat
  ⟨UInt64.ofNat (p / 0x10000000000000000), UInt64.ofNat p⟩

/-- The two halves of the product, combined. -/
def foldMul (x y : UInt64) : UInt64 :=
  let p := wideMul x y
  p.high ^^^ p.low

/-- The final mixing of a word. -/
def avalanche (x : UInt64) : UInt64 := xorShift (xorShift x 37 * mixPrimeA) 32

/-- The final mixing of a word for the shortest strings. -/
def avalancheShort (x : UInt64) : UInt64 :=
  xorShift (xorShift (xorShift x 33 * prime64B) 29 * prime64C) 32

/-! ### At most 16 bytes -/

def hashEmpty : Digest :=
  ⟨avalancheShort (word64 secret 80 ^^^ word64 secret 88),
   avalancheShort (word64 secret 64 ^^^ word64 secret 72)⟩

/-- Strings of one to three bytes. -/
def hashTo3 (b : ByteArray) : Digest :=
  let n := b.size
  let lo := (byteAt b 0 <<< 16) ||| (byteAt b (n / 2) <<< 24) ||| byteAt b (n - 1) |||
    (UInt64.ofNat n <<< 8)
  let hi := rotate32 (swap32 lo) 13
  ⟨avalancheShort (hi ^^^ (word32 secret 8 ^^^ word32 secret 12)),
   avalancheShort (lo ^^^ (word32 secret 0 ^^^ word32 secret 4))⟩

/-- Strings of four to eight bytes. -/
def hashTo8 (b : ByteArray) : Digest :=
  let n := b.size
  let keyed := (word32 b 0 + (word32 b (n - 4) <<< 32)) ^^^ (word64 secret 16 ^^^ word64 secret 24)
  let m := wideMul keyed (prime64A + (UInt64.ofNat n <<< 2))
  let high := m.high + (m.low <<< 1)
  let low := m.low ^^^ (high >>> 3)
  ⟨avalanche high, xorShift (xorShift low 35 * mixPrimeB) 28⟩

/-- Strings of 9 to 16 bytes. -/
def hashTo16 (b : ByteArray) : Digest :=
  let n := b.size
  let first := word64 b 0
  let last := word64 b (n - 8)
  let m := wideMul (first ^^^ last ^^^ (word64 secret 32 ^^^ word64 secret 40)) prime64A
  let low := m.low + (UInt64.ofNat (n - 1) <<< 54)
  let last := last ^^^ (word64 secret 48 ^^^ word64 secret 56)
  let high := m.high + last + lowHalf last * (prime32B - 1)
  let h := wideMul (low ^^^ swap64 high) prime64B
  ⟨avalanche (h.high + high * prime64B), avalanche h.low⟩

/-! ### At most 240 bytes -/

def mix16 (b : ByteArray) (i key : Nat) : UInt64 :=
  foldMul (word64 b i ^^^ word64 secret key) (word64 b (i + 8) ^^^ word64 secret (key + 8))

/-- Mix the 16 bytes at `i` and the 16 bytes at `j` into the accumulator. -/
def mix32 (b : ByteArray) (acc : Digest) (i j key : Nat) : Digest :=
  ⟨(acc.high + mix16 b j (key + 16)) ^^^ (word64 b i + word64 b (i + 8)),
   (acc.low + mix16 b i key) ^^^ (word64 b j + word64 b (j + 8))⟩

def finishMedium (n : Nat) (acc : Digest) : Digest :=
  ⟨0 - avalanche (acc.low * prime64A + acc.high * prime64D + UInt64.ofNat n * prime64B),
   avalanche (acc.low + acc.high)⟩

/-- Strings of 17 to 128 bytes: pairs of blocks from the two ends, the innermost first. -/
def hashTo128 (b : ByteArray) : Digest :=
  let n := b.size
  let pairs := (n - 1) / 32 + 1
  finishMedium n <| (List.range pairs).reverse.foldl
    (fun acc k => mix32 b acc (16 * k) (n - 16 * k - 16) (32 * k)) ⟨0, UInt64.ofNat n * prime64A⟩

/-- Strings of 129 to 240 bytes: blocks of 32 bytes in order, and the last 32 bytes once more. -/
def hashTo240 (b : ByteArray) : Digest :=
  let n := b.size
  let start : Digest := ⟨0, UInt64.ofNat n * prime64A⟩
  let acc := (List.range 4).foldl (fun acc k => mix32 b acc (32 * k) (32 * k + 16) (32 * k)) start
  let acc : Digest := ⟨avalanche acc.high, avalanche acc.low⟩
  let acc := (List.range (n / 32 - 4)).foldl
    (fun acc k => mix32 b acc (32 * k + 128) (32 * k + 144) (32 * k + 3)) acc
  finishMedium n (mix32 b acc (n - 16) (n - 32) 103)

/-! ### More than 240 bytes -/

/-- The eight lanes of the accumulator of a long string. -/
abbrev Lanes := Vector UInt64 8

def startLanes : Lanes :=
  #v[prime32C, prime64A, prime64B, prime64C, prime64D, prime32B, prime64E, prime32A]

/-- Add the 64 bytes at `i`, keyed by the secret at `key`. -/
def accumulate (b : ByteArray) (acc : Lanes) (i key : Nat) : Lanes :=
  Vector.ofFn fun lane =>
    let k := lane.val
    let other := if k % 2 = 0 then k + 1 else k - 1
    let keyed := word64 b (i + 8 * k) ^^^ word64 secret (key + 8 * k)
    acc.get lane + word64 b (i + 8 * other) + lowHalf keyed * (keyed >>> 32)

/-- Stir the lanes at the end of a block of 1024 bytes. -/
def scramble (acc : Lanes) : Lanes :=
  Vector.ofFn fun lane =>
    (xorShift (acc.get lane) 47 ^^^ word64 secret (128 + 8 * lane.val)) * prime32A

/-- Add `count` stripes of 64 bytes from position `i` on. -/
def accumulateStripes (b : ByteArray) (acc : Lanes) (i count : Nat) : Lanes :=
  (List.range count).foldl (fun acc k => accumulate b acc (i + 64 * k) (8 * k)) acc

def mergeLanes (acc : Lanes) (key : Nat) (start : UInt64) : UInt64 :=
  let pair (i j : Fin 8) : UInt64 :=
    foldMul (acc.get i ^^^ word64 secret (key + 8 * i.val)) (acc.get j ^^^ word64 secret (key + 8 * j.val))
  avalanche (start + pair 0 1 + pair 2 3 + pair 4 5 + pair 6 7)

def hashLong (b : ByteArray) : Digest :=
  let n := b.size
  let blocks := (n - 1) / 1024
  let acc := (List.range blocks).foldl
    (fun acc k => scramble (accumulateStripes b acc (1024 * k) 16)) startLanes
  let acc := accumulateStripes b acc (1024 * blocks) ((n - 1 - 1024 * blocks) / 64)
  let acc := accumulate b acc (n - 64) 121
  let size := UInt64.ofNat n
  ⟨mergeLanes acc 117 (~~~(size * prime64B)), mergeLanes acc 11 (size * prime64A)⟩

/-- The hash of a byte string. -/
def digest (b : ByteArray) : Digest :=
  if b.size = 0 then hashEmpty
  else if b.size ≤ 3 then hashTo3 b
  else if b.size ≤ 8 then hashTo8 b
  else if b.size ≤ 16 then hashTo16 b
  else if b.size ≤ 128 then hashTo128 b
  else if b.size ≤ 240 then hashTo240 b
  else hashLong b

end Installer.Hash.Xxh3
