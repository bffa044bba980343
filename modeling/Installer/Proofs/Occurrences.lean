import Installer.Document.Reading
import Mathlib

/-! # Pieces of texts

Where a piece stands in a text is told by the byte at which it starts (`Text.HasAt`); since each
character has bytes of its own, that byte tells what is before the piece. A range covers a piece
(`TextRange.Covers`) if it starts and ends with it; a range that is made from the bytes of a piece does,
as long as they fit into 32 bits (`TextRange.covers_ofBytes`). The search for a key finds the first place
from a given byte on (`Text.IsFirst`), and it finds one if there is any (`locateKey_of_mem`). -/

namespace Installer

namespace Text

variable {cs before after piece inner : List Char} {n m k start stop : Nat}

@[simp] theorem byteLength_nil : byteLength [] = 0 := rfl

@[simp] theorem byteLength_cons (c : Char) (cs : List Char) :
    byteLength (c :: cs) = c.utf8Size + byteLength cs := rfl

@[simp] theorem byteLength_append (cs ds : List Char) :
    byteLength (cs ++ ds) = byteLength cs + byteLength ds := by
  induction cs with
  | nil => simp
  | cons c cs ih => simp [ih, Nat.add_assoc]

theorem byteLength_eq_zero_iff : byteLength cs = 0 ↔ cs = [] := by
  cases cs with
  | nil => simp
  | cons c cs => simp [c.utf8Size_pos.ne']

/-- The bytes of a string are those of its characters. -/
theorem utf8ByteSize_eq (s : String) : s.utf8ByteSize = byteLength s.toList := by
  have hlen : ∀ cs : List Char, String.utf8Len cs = byteLength cs := by
    intro cs
    induction cs with
    | nil => rfl
    | cons c cs ih => rw [String.utf8Len_cons, byteLength_cons, ih, Nat.add_comm]
  rw [← hlen, ← String.utf8ByteSize_ofList, String.ofList_toList]

/-- Of two beginnings of a text the one with fewer bytes is a beginning of the other. -/
theorem prefix_of_byteLength_le {l l' : List Char} (h : l <+: cs) (h' : l' <+: cs)
    (hle : byteLength l ≤ byteLength l') : l <+: l' := by
  rcases List.prefix_or_prefix_of_prefix h h' with hl | ⟨t, rfl⟩
  · exact hl
  · rw [byteLength_append] at hle
    obtain rfl : t = [] := byteLength_eq_zero_iff.mp (by omega)
    simp

/-! ### Places -/

/-- The piece stands in the text at the given byte. -/
def HasAt (cs : List Char) (n : Nat) (piece : List Char) : Prop :=
  ∃ before after, cs = before ++ piece ++ after ∧ byteLength before = n

/-- A piece of a piece. -/
theorem HasAt.trans (h : HasAt cs n piece) (h' : HasAt piece m inner) : HasAt cs (n + m) inner := by
  obtain ⟨before, after, rfl, rfl⟩ := h
  obtain ⟨before', after', rfl, rfl⟩ := h'
  exact ⟨before ++ before', after' ++ after, by simp, by simp⟩

theorem HasAt.le (h : HasAt cs n piece) : n + byteLength piece ≤ byteLength cs := by
  obtain ⟨before, after, rfl, rfl⟩ := h
  simp

/-- The text up to a piece that stands at a byte is known from the byte. -/
theorem HasAt.prefix_of_le (h : HasAt cs n piece) (hbefore : before <+: cs)
    (hle : byteLength before ≤ n) : ∃ l after, cs = before ++ l ++ piece ++ after ∧
      n = byteLength before + byteLength l := by
  obtain ⟨before', after, rfl, rfl⟩ := h
  obtain ⟨l, rfl⟩ := prefix_of_byteLength_le hbefore
    (by rw [List.append_assoc]; exact List.prefix_append _ _) hle
  exact ⟨l, after, rfl, byteLength_append _ _⟩

/-- The first place of a piece from the byte `k` on is the byte `n`. -/
structure IsFirst (cs : List Char) (k n : Nat) (piece : List Char) : Prop where
  hasAt : HasAt cs n piece
  le : k ≤ n
  first : ∀ m, k ≤ m → HasAt cs m piece → n ≤ m

/-- The first place is a given one if there is none between. -/
theorem IsFirst.eq_iff (h : IsFirst cs k n piece) (hm : HasAt cs m piece) (hk : k ≤ m) :
    n = m ↔ ∀ i, k ≤ i → i < m → ¬ HasAt cs i piece := by
  constructor
  · rintro rfl i hi hin hpiece
    exact absurd (h.first i hi hpiece) (by omega)
  · intro hnone
    have hle := h.first m hk hm
    by_contra hne
    exact hnone n h.le (by omega) h.hasAt

/-- The piece takes the bytes of the text from `start` up to `stop`. -/
structure Spans (cs : List Char) (start stop : Nat) (piece : List Char) : Prop where
  hasAt : HasAt cs start piece
  stop_eq : stop = start + byteLength piece

theorem Spans.stop_le (h : Spans cs start stop piece) : stop ≤ byteLength cs := by
  rw [h.stop_eq]
  exact h.hasAt.le

end Text

namespace TextRange

variable {start stop : Nat} {cs piece : List Char}

/-- A range starts and ends where the piece does. -/
def Covers (r : TextRange) (cs piece : List Char) : Prop :=
  Text.Spans cs r.start.toNat r.stop.toNat piece

theorem toNat_start_ofBytes (h : start < 2 ^ 32) : (ofBytes start stop).start.toNat = start :=
  UInt32.toNat_ofNat_of_lt' h

theorem toNat_stop_ofBytes (hle : start ≤ stop) (h : stop < 2 ^ 32) :
    (ofBytes start stop).stop.toNat = stop := by
  have hstart : (UInt32.ofNat start).toNat = start := UInt32.toNat_ofNat_of_lt' (hle.trans_lt h)
  have hstop : (UInt32.ofNat stop).toNat = stop := UInt32.toNat_ofNat_of_lt' h
  have hmax : (ofBytes start stop).stop = if UInt32.ofNat stop ≤ UInt32.ofNat start then
      UInt32.ofNat start else UInt32.ofNat stop := rfl
  rw [hmax]
  split_ifs with hword
  · rw [UInt32.le_iff_toNat_le, hstart, hstop] at hword
    rw [hstart]
    omega
  · exact hstop

/-- **The range of a piece** covers it, unless the text is too long for 32 bits. -/
theorem covers_ofBytes (h : Text.Spans cs start stop piece) (hsize : Text.byteLength cs < 2 ^ 32) :
    (ofBytes start stop).Covers cs piece := by
  have hstop := h.stop_le
  have hle : start ≤ stop := by
    rw [h.stop_eq]
    exact Nat.le_add_right _ _
  rw [Covers, toNat_start_ofBytes (by omega), toNat_stop_ofBytes hle (by omega)]
  exact h

end TextRange

/-! ### The search for a key -/

open Text

/-- What the search for a key finds: the key stands there, and every other place is behind it. -/
theorem locateKey_eq_some {key rest rest' : List Char} {position found : Nat}
    (h : locateKey key position rest = some (found, rest')) : ∃ l, rest = l ++ key ++ rest' ∧
      found = position + byteLength l ∧ ∀ l' after, rest = l' ++ key ++ after → l <+: l' := by
  induction rest generalizing position with
  | nil => cases h
  | cons c cs ih =>
    rw [locateKey] at h
    split_ifs at h with hkey
    · obtain ⟨after, hafter⟩ := List.isPrefixOf_iff_prefix.mp hkey
      cases h
      refine ⟨[], ?_, rfl, fun _ _ _ => List.nil_prefix⟩
      rw [← hafter]
      simp
    · obtain ⟨l, rfl, rfl, hfirst⟩ := ih h
      refine ⟨c :: l, rfl, by simp [Nat.add_assoc], fun l' after hl' => ?_⟩
      cases l' with
      | nil =>
        rw [List.nil_append] at hl'
        exact absurd (List.isPrefixOf_iff_prefix.mpr ⟨after, hl'.symm⟩) hkey
      | cons d l' =>
        obtain ⟨rfl, htail⟩ := List.cons.inj hl'
        exact (List.prefix_cons_inj c).mpr (hfirst l' after htail)

/-- A key that is there is found. -/
theorem locateKey_of_mem {key l after : List Char} (hkey : key ≠ []) (position : Nat) :
    ∃ found, locateKey key position (l ++ key ++ after) = some found := by
  induction l generalizing position with
  | nil =>
    obtain ⟨c, key, rfl⟩ := List.exists_cons_of_ne_nil hkey
    have hstarts : (c :: key).isPrefixOf (c :: (key ++ after)) :=
      List.isPrefixOf_iff_prefix.mpr ⟨after, rfl⟩
    rw [List.nil_append, List.cons_append, locateKey, if_pos hstarts]
    exact ⟨_, rfl⟩
  | cons c l ih =>
    rw [List.cons_append, List.cons_append, locateKey]
    split_ifs
    · exact ⟨_, rfl⟩
    · exact ih _

/-- **The search finds the first place.** If the key stands somewhere at or behind the byte where the
search starts, then it is found, and what is left starts behind it. -/
theorem exists_locateKey {cs before rest key : List Char} (hcs : cs = before ++ rest)
    (hkey : key ≠ []) {m : Nat} (hm : HasAt cs m key) (hle : byteLength before ≤ m) :
    ∃ found before' rest', locateKey key (byteLength before) rest = some (found, rest') ∧
      IsFirst cs (byteLength before) found key ∧
      cs = before' ++ rest' ∧ byteLength before' = found + byteLength key := by
  have hbefore : before <+: cs := ⟨rest, hcs.symm⟩
  have hrest : ∀ {l after}, cs = before ++ l ++ key ++ after → rest = l ++ key ++ after := by
    intro l after hl
    refine (List.append_right_inj before).mp ?_
    rw [← hcs, hl]
    simp
  obtain ⟨l, after, hl, -⟩ := hm.prefix_of_le hbefore hle
  obtain rfl := hrest hl
  obtain ⟨⟨found, rest'⟩, hfound⟩ : ∃ found, locateKey key (byteLength before) (l ++ key ++ after) =
    some found := locateKey_of_mem hkey (byteLength before)
  obtain ⟨l', hl', rfl, hfirst⟩ := locateKey_eq_some hfound
  have hcs' : cs = before ++ l' ++ key ++ rest' := by rw [hcs, hl']; simp
  refine ⟨_, before ++ l' ++ key, rest', hfound, ⟨?_, Nat.le_add_right _ _, fun m hm hat => ?_⟩,
    hcs', by simp [Nat.add_assoc]⟩
  · exact ⟨before ++ l', rest', hcs', by simp⟩
  · obtain ⟨l'', after'', hl'', rfl⟩ := hat.prefix_of_le hbefore hm
    obtain ⟨t, rfl⟩ := hfirst l'' after'' (hrest hl'')
    simp

end Installer
