import Installer.Text.LowerCase
import Mathlib.Tactic.Common

/-! # Letter case

The lower-case form of a text does not depend on the case of its ASCII letters, whatever other characters
it has (`Text.SameLetters.lowerCase_eq`). This is not a matter of single characters only: whether a capital
sigma is at the end of a word depends on what stands around it. But a letter is cased and matters for case
in its small form as it does in its capital one (`Text.isCased_toLower`, `Text.isCaseIgnorable_toLower`). -/

namespace Installer.Text

/-- Texts that are the same but for the case of their ASCII letters. -/
def SameLetters (s t : String) : Prop := s.toList.map Char.toLower = t.toList.map Char.toLower

instance (s t : String) : Decidable (SameLetters s t) :=
  inferInstanceAs (Decidable (s.toList.map Char.toLower = t.toList.map Char.toLower))

/-! ### Single letters -/

/-- The capital letters of ASCII. -/
def capitals : List Char := (List.range 26).map fun n => Char.ofNat (65 + n)

/-- All characters that are not capital letters of ASCII stay as they are. -/
theorem toLower_eq_self_or_mem (c : Char) : c.toLower = c ∨ c ∈ capitals := by
  by_cases hupper : c.val ≥ 'A'.val ∧ c.val ≤ 'Z'.val
  · right
    have hlo : 65 ≤ c.toNat := hupper.1
    have hhi : c.toNat ≤ 90 := hupper.2
    refine List.mem_map.mpr ⟨c.toNat - 65, List.mem_range.mpr (by omega), ?_⟩
    rw [show 65 + (c.toNat - 65) = c.toNat by omega]
    exact Char.ofNat_toNat c
  · left
    exact dif_neg hupper

/-- What does not tell capital letters from small ones is the same for a character and its small form. -/
theorem toLower_congr {α : Type} [DecidableEq α] {f : Char → α}
    (h : (capitals.all fun c => f c.toLower = f c) = true) (c : Char) : f c.toLower = f c := by
  rcases toLower_eq_self_or_mem c with hself | hmem
  · rw [hself]
  · exact decide_eq_true_eq.mp (List.all_eq_true.mp h c hmem)

theorem isCased_toLower (c : Char) : isCased c.toLower = isCased c :=
  toLower_congr (by decide +kernel) c

theorem isCaseIgnorable_toLower (c : Char) : isCaseIgnorable c.toLower = isCaseIgnorable c :=
  toLower_congr (by decide +kernel) c

theorem lowerChar_toLower (c : Char) : lowerChar c.toLower = lowerChar c :=
  toLower_congr (by decide +kernel) c

/-- No letter of ASCII is one of the two particular characters. -/
theorem toLower_eq_iff {d : Char} (hd : d = 'Σ' ∨ d = 'İ') (c : Char) : c.toLower = d ↔ c = d := by
  have hcapital : (capitals.all fun c => decide (c.toLower = d) = decide (c = d)) = true := by
    rcases hd with rfl | rfl <;> decide +kernel
  have h := toLower_congr (f := fun c => decide (c = d)) hcapital c
  simpa using h

/-! ### Texts -/

theorem startsCased_map_toLower (cs : List Char) :
    startsCased (cs.map Char.toLower) = startsCased cs := by
  have hfind : (cs.map Char.toLower).find? (!isCaseIgnorable ·) =
      (cs.find? (!isCaseIgnorable ·)).map Char.toLower := by
    rw [List.find?_map]
    congr 2
    funext c
    simp only [Function.comp_apply, isCaseIgnorable_toLower]
  unfold startsCased
  rw [hfind]
  cases cs.find? (!isCaseIgnorable ·) with
  | none => rfl
  | some c => exact isCased_toLower c

theorem lowerWithin_toLower (before : List Char) (c : Char) (after : List Char) :
    lowerWithin (before.map Char.toLower) c.toLower (after.map Char.toLower) =
      lowerWithin before c after := by
  simp only [lowerWithin, startsCased_map_toLower, lowerChar_toLower, toLower_eq_iff (.inl rfl),
    toLower_eq_iff (.inr rfl)]

theorem lowerFrom_map_toLower (before cs : List Char) :
    lowerFrom (before.map Char.toLower) (cs.map Char.toLower) = lowerFrom before cs := by
  induction cs generalizing before with
  | nil => rfl
  | cons c cs ih =>
    have hrest := ih (c :: before)
    rw [List.map_cons] at hrest
    rw [List.map_cons, lowerFrom, lowerFrom, lowerWithin_toLower, hrest]

/-- **The case of ASCII letters does not matter for the lower-case form.** -/
theorem SameLetters.lowerCase_eq {s t : String} (h : SameLetters s t) : lowerCase s = lowerCase t := by
  have hs := lowerFrom_map_toLower [] s.toList
  have ht := lowerFrom_map_toLower [] t.toList
  unfold lowerCase
  rw [← hs, ← ht, h]

end Installer.Text
