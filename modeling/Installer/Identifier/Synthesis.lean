import Installer.Hash.Xxh3
import Installer.Text.Number

/-! # Synthesized names

Things without an authored identifier get a name that is computed from the values that tell them
apart: a short stem and the hash of these values. Each value is hashed behind its length, so that
different lists of values are different byte strings (`discriminatorBytes`). -/

namespace Installer.Identifier

/-- The `k` low bytes of a number, the lowest first. -/
def littleEndian : Nat → Nat → List UInt8
  | 0, _ => []
  | k + 1, n => UInt8.ofNat n :: littleEndian k (n / 256)

/-- A value behind its length in bytes. -/
def measuredBytes (s : String) : List UInt8 :=
  littleEndian 8 s.utf8ByteSize ++ s.toUTF8.data.toList

/-- The bytes that are hashed for a list of values. -/
def discriminatorBytes (values : List String) : List UInt8 := values.flatMap measuredBytes

/-- The hash of a list of values. -/
def fingerprint (values : List String) : Nat :=
  (Hash.Xxh3.digest ⟨(discriminatorBytes values).toArray⟩).toNat

/-- The name with the given stem for a list of values. -/
def synthesize (stem : String) (values : List String) : String :=
  stem ++ String.ofList (Text.hexDigits 32 (fingerprint values))

end Installer.Identifier
