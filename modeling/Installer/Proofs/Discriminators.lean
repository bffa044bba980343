import Installer.Identifier.Synthesis
import Mathlib.Data.Nat.Digits.Defs
import Mathlib.Tactic.Common

/-! # Bytes that are hashed

Synthesized names are hashes of lists of values. The bytes that are hashed tell the lists apart
(`Identifier.discriminatorBytes_inj`), since each value stands behind its length: the length is read back
from eight bytes (`Identifier.ofDigits_littleEndian`) and says where the value ends, so that it is no
matter what the values themselves are. Lengths of more than eight bytes cannot be written. -/

namespace Installer.Identifier

/-! ### Lengths -/

@[simp] theorem length_littleEndian (k n : Nat) : (littleEndian k n).length = k := by
  induction k generalizing n with
  | zero => rfl
  | succ k ih => rw [littleEndian, List.length_cons, ih]

/-- A number is read back from its bytes. -/
theorem ofDigits_littleEndian {k n : Nat} (h : n < 256 ^ k) :
    Nat.ofDigits 256 ((littleEndian k n).map UInt8.toNat) = n := by
  induction k generalizing n with
  | zero =>
    have hzero : n = 0 := by simpa using h
    rw [hzero]
    rfl
  | succ k ih =>
    have hrest : n / 256 < 256 ^ k := by
      rw [Nat.pow_succ] at h
      exact Nat.div_lt_of_lt_mul (by omega)
    rw [littleEndian, List.map_cons, Nat.ofDigits_cons, ih hrest, UInt8.toNat_ofNat']
    omega

theorem littleEndian_inj {k n m : Nat} (hn : n < 256 ^ k) (hm : m < 256 ^ k)
    (h : littleEndian k n = littleEndian k m) : n = m := by
  rw [← ofDigits_littleEndian hn, h, ofDigits_littleEndian hm]

/-! ### Values -/

/-- The value can be written behind its length. -/
def IsMeasured (s : String) : Prop := s.utf8ByteSize < 2 ^ 64

theorem length_bytes (s : String) : s.toUTF8.data.toList.length = s.utf8ByteSize := by
  rw [Array.length_toList]
  rfl

theorem bytes_inj {s t : String} (h : s.toUTF8.data.toList = t.toUTF8.data.toList) : s = t :=
  String.toByteArray_inj.mp (ByteArray.ext (Array.toList_inj.mp h))

/-- Where a value ends is known from its length. -/
theorem measuredBytes_append_inj {s t : String} {l l' : List UInt8} (hs : IsMeasured s)
    (ht : IsMeasured t) (h : measuredBytes s ++ l = measuredBytes t ++ l') : s = t ∧ l = l' := by
  unfold measuredBytes at h
  rw [List.append_assoc, List.append_assoc] at h
  obtain ⟨hlengths, hbytes⟩ := List.append_inj h (by simp)
  have hsize : s.utf8ByteSize = t.utf8ByteSize := littleEndian_inj hs ht hlengths
  obtain ⟨hvalue, hrest⟩ := List.append_inj hbytes (by rw [length_bytes, length_bytes, hsize])
  exact ⟨bytes_inj hvalue, hrest⟩

theorem measuredBytes_ne_nil (s : String) : measuredBytes s ≠ [] := by
  intro h
  have hlength := congrArg List.length h
  simp [measuredBytes] at hlength

/-- **Different lists of values are different bytes.** -/
theorem discriminatorBytes_inj {vs ws : List String} (hvs : ∀ v ∈ vs, IsMeasured v)
    (hws : ∀ w ∈ ws, IsMeasured w) (h : discriminatorBytes vs = discriminatorBytes ws) : vs = ws := by
  induction vs generalizing ws with
  | nil =>
    cases ws with
    | nil => rfl
    | cons w ws =>
      have hnil : measuredBytes w = [] := (List.append_eq_nil_iff.mp h.symm).1
      exact absurd hnil (measuredBytes_ne_nil w)
  | cons v vs ih =>
    obtain ⟨hv, hvs⟩ := List.forall_mem_cons.mp hvs
    cases ws with
    | nil =>
      have hnil : measuredBytes v = [] := (List.append_eq_nil_iff.mp h).1
      exact absurd hnil (measuredBytes_ne_nil v)
    | cons w ws =>
      obtain ⟨hw, hws⟩ := List.forall_mem_cons.mp hws
      obtain ⟨heq, hrest⟩ := measuredBytes_append_inj hv hw h
      rw [heq, ih hvs hws hrest]

end Installer.Identifier
