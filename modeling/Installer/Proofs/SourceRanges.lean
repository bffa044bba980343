import Installer.Proofs.TagPlaces

/-! # Ranges in the source

In a source with less than `2 ^ 32` bytes the range of an element covers its tag, and the ranges of
elements follow one another (`Element.exists_startTag`, `Element.pairwise_sites`). The range of an
attribute is inside of the tag and covers its key (`Element.rangesIn_of_parse`), but not always at the
attribute itself: it is the first place of the key behind the one before (`Element.attribute_ranges`),
which may be in the value of another attribute (`Element.attribute_range_in_value`). -/

namespace Installer

open Markup Text
open Compile (exists_of_forall₂ map_eq_of_forall₂)

/-! ### Elements -/

/-- The text without a byte order mark is not longer than the source. -/
theorem small_unmarked {source : String} (h : source.utf8ByteSize < 2 ^ 32) :
    byteLength (unmarked source.toList) < 2 ^ 32 := by
  rw [utf8ByteSize_eq] at h
  rw [unmarked]
  split_ifs
  · cases hcs : source.toList with
    | nil => decide
    | cons c cs =>
      rw [hcs, byteLength_cons] at h
      rw [List.tail_cons]
      omega
  · exact h

/-- The range of a tag starts and ends with it. -/
theorem Markup.StartTag.StandsIn.toNat_ofBytes {t : StartTag} {text : List Char} (h : t.StandsIn text)
    (hsize : byteLength text < 2 ^ 32) : (TextRange.ofBytes t.start t.stop).start.toNat = t.start ∧
      (TextRange.ofBytes t.start t.stop).stop.toNat = t.stop := by
  obtain ⟨_, -, hspans⟩ := h
  have hle := hspans.stop_le
  have hstop := hspans.stop_eq
  exact ⟨TextRange.toNat_start_ofBytes (by omega),
    TextRange.toNat_stop_ofBytes (by omega) (by omega)⟩

section Parsed

variable {source : String} {root : Element} (h : Element.parse source = .ok root)

include h

/-- **The start tag of an element** stands in the source. -/
theorem Element.exists_startTag {s : Site} (hs : s ∈ root.sites) :
    ∃ t : StartTag, t.StandsIn (unmarked source.toList) ∧ t.Gives s.element.tag := by
  have hgives := (sites_of_ofEvents (isSome_depthAfter?_events _) h).2
  obtain ⟨t, ht, hgives⟩ := exists_of_forall₂ hgives hs
  exact ⟨t, (startTags_events source.toList).1 t ht, hgives⟩

/-- **The ranges of elements** follow one another. -/
theorem Element.pairwise_sites (hsize : source.utf8ByteSize < 2 ^ 32) :
    root.sites.Pairwise fun s s' => s.element.range.stop ≤ s'.element.range.start := by
  have hgives := (sites_of_ofEvents (isSome_depthAfter?_events _) h).2
  obtain ⟨hstands, hpairwise⟩ := startTags_events source.toList
  have hmap : (startTags (events source.toList).items).map (fun t => TextRange.ofBytes t.start t.stop) =
      root.sites.map fun s => s.element.range :=
    map_eq_of_forall₂ hgives fun hg => hg.range.symm
  rw [← List.pairwise_map (f := fun s : Site => s.element.range)
    (R := fun a b => a.stop ≤ b.start), ← hmap, List.pairwise_map]
  refine hpairwise.imp_of_mem fun {t t'} ht ht' hle => ?_
  rw [UInt32.le_iff_toNat_le, ((hstands t ht).toNat_ofBytes (small_unmarked hsize)).2,
    ((hstands t' ht').toNat_ofBytes (small_unmarked hsize)).1]
  exact hle

end Parsed

/-! ### Attributes -/

section Keys

variable {t : StartTag} {text : List Char} {k n : Nat} {a : RawAttribute} {x : Attribute}

/-- The content of a tag stands behind its bracket. -/
theorem Markup.StartTag.StandsIn.hasAt_content (h : t.StandsIn text) :
    HasAt text (t.start + 1) t.content ∧ t.start + 1 + byteLength t.content < t.stop := by
  obtain ⟨_, ⟨rfl, -⟩, hspans⟩ := h
  have hstop := hspans.stop_eq
  refine ⟨hspans.hasAt.trans ⟨['<'], if t.isEmpty then ['/', '>'] else ['>'], rfl, rfl⟩, ?_⟩
  rw [byteLength_tagPiece] at hstop
  split_ifs at hstop <;> omega

theorem Markup.StartTag.StandsIn.small (h : t.StandsIn text) (hsize : byteLength text < 2 ^ 32) :
    t.start + 1 + byteLength t.content < 2 ^ 32 := by
  have hlt := h.hasAt_content.2
  obtain ⟨_, -, hspans⟩ := h
  have hle := hspans.stop_le
  omega

/-- **The range of an attribute** is inside of the tag and covers its key. -/
theorem KeyPlaced.covers (h : KeyPlaced t k n a x) (ht : t.StandsIn text)
    (hsize : byteLength text < 2 ^ 32) : x.range.Covers text a.key ∧
      t.start < x.range.start.toNat ∧ x.range.stop.toNat < t.stop := by
  obtain ⟨hcontent, hlt⟩ := ht.hasAt_content
  have hle := h.first.hasAt.le
  obtain ⟨hstart, hstop⟩ := h.toNat_range (ht.small hsize)
  refine ⟨⟨?_, by omega⟩, by omega, by omega⟩
  rw [hstart]
  exact hcontent.trans h.first.hasAt

end Keys

/-- The ranges of the element and of its attributes are those of its tag in the text, and of their keys
inside of the tag, one behind the other. -/
structure Element.RangesIn (e : Element) (text : List Char) : Prop where
  covers : ∃ (t : StartTag) (piece : List Char), t.Gives e.tag ∧
    IsTag t.content t.isEmpty piece ∧ e.range.Covers text piece ∧
    ∀ x ∈ e.attributes, ∃ k n a, KeyPlaced t k n a x ∧ x.range.Covers text a.key
  inside : ∀ x ∈ e.attributes, e.range.start < x.range.start ∧ x.range.stop < e.range.stop
  pairwise : e.attributes.Pairwise fun x y => x.range.stop ≤ y.range.start

/-- **The ranges of an element** are those of its tag and of the keys in it. -/
theorem Element.rangesIn_of_parse {source : String} {root : Element} (h : parse source = .ok root)
    (hsize : source.utf8ByteSize < 2 ^ 32) {s : Site} (hs : s ∈ root.sites) :
    s.element.RangesIn (unmarked source.toList) := by
  have hsmall := small_unmarked hsize
  obtain ⟨t, ht, hgives⟩ := exists_startTag h hs
  have ⟨piece, htag, hspans⟩ := ht
  obtain ⟨raw, -, hkeys⟩ := hgives.attributes
  have hrange : s.element.range = .ofBytes t.start t.stop := hgives.range
  refine ⟨⟨t, piece, hgives, htag, ?_, fun x hx => ?_⟩, fun x hx => ?_, hkeys.pairwise (ht.small hsmall)⟩
  · rw [hrange]
    exact TextRange.covers_ofBytes hspans hsmall
  · obtain ⟨k, n, a, hplaced⟩ := hkeys.exists_of_mem x hx
    exact ⟨k, n, a, hplaced, (hplaced.covers ht hsmall).1⟩
  · obtain ⟨k, n, a, hplaced⟩ := hkeys.exists_of_mem x hx
    obtain ⟨hstart, hstop⟩ := ht.toNat_ofBytes hsmall
    rw [UInt32.lt_iff_toNat_lt, UInt32.lt_iff_toNat_lt, hrange, hstart, hstop]
    exact (hplaced.covers ht hsmall).2

/-- The place of the key of an attribute, which is looked for from the byte `k` of the tag on. It is that
of the attribute itself just if the key has no place between; if `small` holds, the range tells which. -/
structure KeyPlaced.Told (small : Prop) (t : StartTag) (k n : Nat) (a : RawAttribute) (x : Attribute) :
    Prop where
  placed : KeyPlaced t k n a x
  own_iff : n = a.position ↔ ∀ i, k ≤ i → i < a.position → ¬ HasAt t.content i a.key
  range_iff : small → (x.range = t.rangeAt a.position (byteLength a.key) ↔
    ∀ i, k ≤ i → i < a.position → ¬ HasAt t.content i a.key)

/-- **The ranges of attributes.** The attributes of an element stand in its start tag in the order in
which they are authored. The key of the first is looked for from the end of the name of the tag on, and
that of each other one from the end of the place of the key before it; the range of the attribute is the
first place that is found. It is the place of the attribute itself just if the key has no other place
between. -/
theorem Element.attribute_ranges {source : String} {root : Element} (h : parse source = .ok root) :
    ∀ s ∈ root.sites, ∃ (t : StartTag) (raw : List RawAttribute),
      t.StandsIn (unmarked source.toList) ∧ t.Gives s.element.tag ∧
      HoldsAttributes (byteLength (tagName t.content)) (t.content.drop (tagName t.content).length) raw ∧
      KeysInTurn (KeyPlaced.Told (source.utf8ByteSize < 2 ^ 32) t) (byteLength (tagName t.content))
        (raw.filter fun a => !bindsWord a.key) s.element.attributes := by
  intro s hs
  obtain ⟨t, ht, hgives⟩ := exists_startTag h hs
  obtain ⟨raw, hraw, hkeys⟩ := hgives.attributes
  refine ⟨t, raw, ht, hgives, hraw, hkeys.imp fun k n a x hplaced => ?_⟩
  refine ⟨hplaced, hplaced.eq_position_iff, fun hsize => ?_⟩
  rw [hplaced.range_eq_iff (ht.small (small_unmarked hsize)), hplaced.eq_position_iff]

/-- The key of the second attribute is the value of the first one. -/
theorem Element.attribute_ranges_shadowed :
    ∃ root, parse "<a b=\"c\" c=\"d\"/>" = .ok root ∧ ∃ s ∈ root.sites,
      s.element.attributes.map (·.range) = [⟨3, 4⟩, ⟨6, 7⟩] ∧
      ∃ (t : StartTag) (raw : List RawAttribute),
        t.StandsIn (unmarked "<a b=\"c\" c=\"d\"/>".toList) ∧
        KeysInTurn (KeyPlaced.Told ("<a b=\"c\" c=\"d\"/>".utf8ByteSize < 2 ^ 32) t)
          (byteLength (tagName t.content)) (raw.filter fun a => !bindsWord a.key)
          s.element.attributes := by
  have hread : ((parse "<a b=\"c\" c=\"d\"/>").toOption.map fun root => root.sites.any fun s =>
      s.element.attributes.map (·.range) = [⟨3, 4⟩, ⟨6, 7⟩]) = some true := by
    decide +kernel
  obtain ⟨root, hroot, hany⟩ := Option.map_eq_some_iff.mp hread
  have hparse := toOption_eq_some_iff.mp hroot
  obtain ⟨s, hs, hranges⟩ := List.any_eq_true.mp hany
  obtain ⟨t, raw, ht, -, -, hkeys⟩ := attribute_ranges hparse s hs
  exact ⟨root, hparse, s, hs, of_decide_eq_true hranges, t, raw, ht, hkeys⟩

/-- The range of the second attribute is the value of the first one, not its own key at byte 9. -/
theorem Element.attribute_range_in_value :
    ((parse "<a b=\"c\" c=\"d\"/>").toOption.map fun root =>
        root.attributes.map fun x => (x.name, x.range)) = some [("b", ⟨3, 4⟩), ("c", ⟨6, 7⟩)] ∧
      HasAt "<a b=\"c\" c=\"d\"/>".toList 9 "c=\"d\"".toList :=
  ⟨by decide +kernel, "<a b=\"c\" ".toList, "/>".toList, rfl, rfl⟩

end Installer
