import Installer.Proofs.Occurrences

/-! # Keys of attributes

An attribute is written as its key, an equals sign and its value in quotes, with blanks around the
sign (`RawAttribute.Written`), and the attributes of a tag stand one behind the other
(`HoldsAttributes`). The range of an attribute is found by looking for its key behind the place of the
one before (`KeyPlaced`, `KeysInTurn`): there is always such a place, since the key itself is at or
behind the start of the search, but the search may find another one in front of it. -/

namespace Installer

open Markup Text

namespace Markup

/-! ### Attributes as they are written -/

/-- The text of an attribute: its key, an equals sign and its value in quotes. -/
structure RawAttribute.Written (a : RawAttribute) (piece : List Char) : Prop where
  key_ne_nil : a.key ≠ []
  eq : ∃ s₁ s₂ q, (∀ c ∈ s₁, isSpace c) ∧ (∀ c ∈ s₂, isSpace c) ∧ isQuote q ∧ q ∉ a.value ∧
    piece = a.key ++ (s₁ ++ '=' :: (s₂ ++ q :: (a.value ++ [q])))

theorem RawAttribute.Written.exists_append {a : RawAttribute} {piece : List Char}
    (h : a.Written piece) : ∃ c after, piece = a.key ++ c :: after := by
  obtain ⟨s₁, s₂, q, -, -, -, -, rfl⟩ := h.eq
  cases s₁ with
  | nil => exact ⟨_, _, rfl⟩
  | cons c s₁ => exact ⟨_, _, rfl⟩

/-- What is read behind an equals sign. -/
theorem takeValue_eq_found {start position p : Nat} {key cs rest : List Char} {a : RawAttribute}
    (h : takeValue start key position cs = .found a p rest) :
    ∃ s q, (∀ c ∈ s, isSpace c) ∧ isQuote q ∧ q ∉ a.value ∧ a.position = start ∧ a.key = key ∧
      cs = s ++ q :: (a.value ++ q :: rest) ∧
      p = position + byteLength (s ++ q :: (a.value ++ [q])) := by
  have hsplit := List.takeWhile_append_dropWhile (p := isSpace) (l := cs)
  simp only [takeValue] at h
  split at h
  · cases h
  · next q ds hd =>
    split_ifs at h with hq
    · have hvalue := List.takeWhile_append_dropWhile (p := (· != q)) (l := ds)
      split at h
      · cases h
      · next q' rest' he =>
        cases h
        obtain rfl : q' = q := by
          have := List.head?_dropWhile_not (· != q) ds
          rw [he] at this
          simpa using this
        have hsize : q'.utf8Size = 1 := by
          rcases Bool.or_eq_true_iff.mp hq with hq | hq <;> rw [beq_iff_eq.mp hq] <;> rfl
        rw [he] at hvalue
        rw [hd, ← hvalue] at hsplit
        refine ⟨cs.takeWhile isSpace, q', fun _ => List.mem_takeWhile_imp, hq, fun hmem => ?_, rfl, rfl,
          hsplit.symm, ?_⟩
        · simpa using List.mem_takeWhile_imp hmem
        · simp only [byteLength_append, byteLength_cons, byteLength_nil, hsize]
          omega

/-- **What is read as an attribute** is written as one, behind some blanks. -/
theorem nextAttribute_eq_found {earlier : List RawAttribute} {position p : Nat}
    {cs rest : List Char} {a : RawAttribute}
    (h : nextAttribute earlier position cs = .found a p rest) :
    ∃ blanks piece, (∀ c ∈ blanks, isSpace c) ∧ a.Written piece ∧ cs = blanks ++ piece ++ rest ∧
      a.position = position + byteLength blanks ∧ p = a.position + byteLength piece := by
  have hblanks := List.takeWhile_append_dropWhile (p := isSpace) (l := cs)
  simp only [nextAttribute] at h
  split at h
  · cases h
  · next c ds hd =>
    have hkey := List.takeWhile_append_dropWhile (p := (!isKeyEnd ·)) (l := ds)
    have hspaces := List.takeWhile_append_dropWhile (p := isSpace)
      (l := ds.dropWhile (!isKeyEnd ·))
    split at h
    · next es he =>
      split at h
      · cases h
      · obtain ⟨s, q, hs, hq, hmem, hstart, hk, hes, hp⟩ := takeValue_eq_found h
        refine ⟨cs.takeWhile isSpace, a.key ++ ((ds.dropWhile (!isKeyEnd ·)).takeWhile isSpace ++
          '=' :: (s ++ q :: (a.value ++ [q]))), fun _ => List.mem_takeWhile_imp, ⟨by simp [hk], ?_⟩, ?_,
          hstart, ?_⟩
        · exact ⟨_, _, q, fun _ => List.mem_takeWhile_imp, hs, hq, hmem, rfl⟩
        · rw [he, hes] at hspaces
          rw [← hspaces] at hkey
          rw [hd, ← hkey] at hblanks
          refine hblanks.symm.trans ?_
          simp [hk]
        · have hsign : '='.utf8Size = 1 := rfl
          rw [hp, hstart]
          simp only [hk, byteLength_append, byteLength_cons, byteLength_nil, hsign]
          omega
    · cases h

/-- No attribute is left if there are only blanks. -/
theorem nextAttribute_eq_none {earlier : List RawAttribute} {position : Nat} {cs : List Char}
    (h : nextAttribute earlier position cs = .none) : ∀ c ∈ cs, isSpace c := by
  simp only [nextAttribute] at h
  split at h
  · next hd => exact List.dropWhile_eq_nil_iff.mp hd
  · split at h
    · split at h
      · cases h
      · simp only [takeValue] at h
        split at h
        · cases h
        · split_ifs at h
          split at h <;> cases h
    · cases h

/-! ### The attributes of a tag -/

/-- A tag holds from the byte `p` on, where it reads `cs`, just the given attributes, with blanks in
front of each of them and at the end. -/
inductive HoldsAttributes : Nat → List Char → List RawAttribute → Prop
  | nil {p : Nat} {cs : List Char} (blank : ∀ c ∈ cs, isSpace c) : HoldsAttributes p cs []
  | cons {p : Nat} {blanks piece rest : List Char} {a : RawAttribute} {as : List RawAttribute}
      (blank : ∀ c ∈ blanks, isSpace c) (written : a.Written piece)
      (position : a.position = p + byteLength blanks)
      (others : HoldsAttributes (a.position + byteLength piece) rest as) :
      HoldsAttributes p (blanks ++ piece ++ rest) (a :: as)

theorem holdsAttributes_rawAttributesFrom {earlier as : List RawAttribute} {position : Nat}
    {cs : List Char} (h : rawAttributesFrom earlier position cs = (as, none)) :
    HoldsAttributes position cs as := by
  fun_induction rawAttributesFrom earlier position cs generalizing as with
  | case1 earlier position cs hnext =>
    cases h
    exact .nil (nextAttribute_eq_none hnext)
  | case2 => cases h
  | case3 earlier position cs a p rest hnext =>
    rename_i ih
    obtain ⟨rfl, hrest⟩ := Prod.mk.inj h
    obtain ⟨blanks, piece, hblank, hwritten, rfl, ha, rfl⟩ := nextAttribute_eq_found hnext
    exact .cons hblank hwritten ha (ih (Prod.ext rfl hrest))

theorem tagName_append_drop (content : List Char) :
    content = tagName content ++ content.drop (tagName content).length :=
  List.prefix_append_drop (List.takeWhile_prefix _)

end Markup

/-! ### The ranges of attributes -/

/-- The range of a piece with `size` bytes that stands at the byte `n` of the content of a tag. -/
def Markup.StartTag.rangeAt (t : StartTag) (n size : Nat) : TextRange :=
  .ofBytes (t.start + 1 + n) (t.start + 1 + n + size)

/-- The attribute `x` of an element with the start tag `t` is read from `a`, and it has the range of the
first place of its key from the byte `k` of the tag on, which is the byte `n`. -/
structure KeyPlaced (t : StartTag) (k n : Nat) (a : RawAttribute) (x : Attribute) : Prop where
  stands : ∃ piece, a.Written piece ∧ HasAt t.content a.position piece
  qname : x.qname = t.bindings.attributeName a.key
  value : unescape a.value = .ok x.value.toList
  first : IsFirst t.content k n a.key
  le : n ≤ a.position
  range : x.range = t.rangeAt n (byteLength a.key)

/-- Attributes read one after the other: the relation `R k n a x` says that the key of `x`, which is
read from `a`, is looked for from the byte `k` on and found at the byte `n`. The search for each key
starts behind the place of the one before. -/
inductive KeysInTurn (R : Nat → Nat → RawAttribute → Attribute → Prop) :
    Nat → List RawAttribute → List Attribute → Prop
  | nil {k : Nat} : KeysInTurn R k [] []
  | cons {k n : Nat} {a : RawAttribute} {x : Attribute} {as : List RawAttribute}
      {xs : List Attribute} (placed : R k n a x)
      (others : KeysInTurn R (n + byteLength a.key) as xs) : KeysInTurn R k (a :: as) (x :: xs)

section Placed

variable {R S : Nat → Nat → RawAttribute → Attribute → Prop} {t : StartTag} {k n : Nat}
  {a : RawAttribute} {x : Attribute} {as : List RawAttribute} {xs : List Attribute}

theorem KeysInTurn.imp (h : KeysInTurn R k as xs) (himp : ∀ k n a x, R k n a x → S k n a x) :
    KeysInTurn S k as xs := by
  induction h with
  | nil => exact .nil
  | cons placed _ ih => exact .cons (himp _ _ _ _ placed) ih

theorem KeysInTurn.exists_of_mem (h : KeysInTurn R k as xs) : ∀ x ∈ xs, ∃ k n a, R k n a x := by
  induction h with
  | nil => simp
  | cons placed _ ih => exact List.forall_mem_cons.mpr ⟨⟨_, _, _, placed⟩, ih⟩

theorem KeyPlaced.hasAt_position (h : KeyPlaced t k n a x) : HasAt t.content a.position a.key := by
  obtain ⟨piece, hwritten, hpiece⟩ := h.stands
  obtain ⟨c, after, rfl⟩ := hwritten.exists_append
  exact hpiece.trans ⟨[], c :: after, rfl, rfl⟩

/-- **The key of an attribute is found at the attribute** just if it has no place between the byte where
the search for it starts and the attribute. -/
theorem KeyPlaced.eq_position_iff (h : KeyPlaced t k n a x) :
    n = a.position ↔ ∀ i, k ≤ i → i < a.position → ¬ HasAt t.content i a.key :=
  h.first.eq_iff h.hasAt_position (h.first.le.trans h.le)

section Small

variable (hsize : t.start + 1 + byteLength t.content < 2 ^ 32)

include hsize

/-- A piece of a tag whose places have 32 bits has its range in the tag. -/
theorem Markup.StartTag.toNat_rangeAt {piece : List Char} (h : HasAt t.content n piece) :
    (t.rangeAt n (byteLength piece)).start.toNat = t.start + 1 + n ∧
      (t.rangeAt n (byteLength piece)).stop.toNat = t.start + 1 + n + byteLength piece := by
  have hle := h.le
  exact ⟨TextRange.toNat_start_ofBytes (by omega),
    TextRange.toNat_stop_ofBytes (Nat.le_add_right _ _) (by omega)⟩

theorem KeyPlaced.toNat_range (h : KeyPlaced t k n a x) : x.range.start.toNat = t.start + 1 + n ∧
    x.range.stop.toNat = t.start + 1 + n + byteLength a.key := by
  rw [h.range]
  exact t.toNat_rangeAt hsize h.first.hasAt

/-- The range tells the place of the key. -/
theorem KeyPlaced.range_eq_iff (h : KeyPlaced t k n a x) :
    x.range = t.rangeAt a.position (byteLength a.key) ↔ n = a.position := by
  constructor
  · intro hrange
    have hfound := (h.toNat_range hsize).1
    rw [hrange, (t.toNat_rangeAt hsize h.hasAt_position).1] at hfound
    omega
  · rintro rfl
    exact h.range

theorem KeysInTurn.start_le (h : KeysInTurn (KeyPlaced t) k as xs) :
    ∀ x ∈ xs, t.start + 1 + k ≤ x.range.start.toNat := by
  induction h with
  | nil => simp
  | @cons k n a x as xs placed _ ih =>
    have hle := placed.first.le
    have hrange := (placed.toNat_range hsize).1
    intro y hy
    rcases List.mem_cons.mp hy with rfl | hy
    · omega
    · have := ih y hy
      omega

/-- **The ranges of the attributes of a tag** follow one another. -/
theorem KeysInTurn.pairwise (h : KeysInTurn (KeyPlaced t) k as xs) :
    xs.Pairwise fun x y => x.range.stop ≤ y.range.start := by
  induction h with
  | nil => exact .nil
  | @cons k n a x as xs placed others ih =>
    refine .cons (fun y hy => ?_) ih
    have hnext := others.start_le hsize y hy
    have hrange := (placed.toNat_range hsize).2
    rw [UInt32.le_iff_toNat_le]
    omega

end Small

end Placed

/-- **The search for keys.** Each key is found, since it stands at or behind the byte where the search
for it starts. -/
theorem keysPlaced_readAttributes {t : StartTag} {p : Nat} {cs before before' rest : List Char}
    {as : List RawAttribute} {xs : List Attribute} (h : HoldsAttributes p cs as)
    (hcs : t.content = before ++ cs) (hp : byteLength before = p)
    (hrest : t.content = before' ++ rest) (hle : byteLength before' ≤ p)
    (hread : readAttributes t.start t.bindings (byteLength before') rest as = .ok xs) :
    KeysInTurn (KeyPlaced t) (byteLength before') (as.filter fun a => !bindsWord a.key) xs := by
  -- Behind `before` the attributes are read, behind `before'` their keys are looked for: the search may
  -- lag behind, but it is never ahead of the attribute whose key it looks for.
  induction h generalizing before before' rest xs with
  | nil =>
    cases hread
    exact .nil
  | @cons p blanks piece cs' a as _ written position _ ih =>
    subst hp
    have hcs' : t.content = (before ++ blanks ++ piece) ++ cs' := by simp [hcs]
    have hnext : byteLength (before ++ blanks ++ piece) = a.position + byteLength piece := by
      simp [position, Nat.add_assoc]
    have hpiece : HasAt t.content a.position piece :=
      ⟨before ++ blanks, cs', by simp [hcs], by simp [position]⟩
    rw [readAttributes] at hread
    split_ifs at hread with hbinds
    · rw [List.filter_cons_of_neg (by simp [hbinds])]
      exact ih hcs' hnext hrest (by omega) hread
    · rw [List.filter_cons_of_pos (by simp [hbinds])]
      obtain ⟨c, after, hafter⟩ := written.exists_append
      have hkey : HasAt t.content a.position a.key :=
        hpiece.trans ⟨[], c :: after, by simp [hafter], rfl⟩
      have hlen : byteLength a.key ≤ byteLength piece := by simp [hafter]
      obtain ⟨n, before'', rest', hfound, hfirst, hrest', hbefore''⟩ :=
        exists_locateKey hrest written.key_ne_nil hkey (by omega)
      have hn := hfirst.first _ (by omega) hkey
      simp only [hfound, Option.getD_some] at hread
      split at hread
      · cases hread
      · next value hvalue =>
        split at hread
        · cases hread
        · next others hothers =>
          cases hread
          rw [← hbefore''] at hothers
          refine .cons ⟨⟨piece, written, hpiece⟩, rfl, by simpa using hvalue, hfirst, hn, ?_⟩ ?_
          · rw [StartTag.rangeAt, Nat.add_assoc _ n]
          · rw [← hbefore'']
            exact ih hcs' hnext hrest' (by omega) hothers

/-! ### Tags -/

/-- What a start tag gives: the name and the attributes of an element. The bindings of namespaces are
no attributes, and each key is looked for from the name of the tag on. -/
structure Markup.StartTag.Gives (t : StartTag) (tag : Tag) : Prop where
  qname : tag.qname = t.bindings.elementName (tagName t.content)
  range : tag.range = .ofBytes t.start t.stop
  attributes : ∃ raw,
    HoldsAttributes (byteLength (tagName t.content)) (t.content.drop (tagName t.content).length) raw ∧
    KeysInTurn (KeyPlaced t) (byteLength (tagName t.content)) (raw.filter fun a => !bindsWord a.key)
      tag.attributes

theorem Tag.ofStart_eq_ok_iff {number : Nat} {t : StartTag} {tag : Tag} :
    Tag.ofStart number t = .ok tag ↔ (rawAttributes t.content).2 = none ∧
      ∃ xs, readAttributes t.start t.bindings (byteLength (tagName t.content))
          (t.content.drop (tagName t.content).length) (rawAttributes t.content).1 = .ok xs ∧
        tag = ⟨number, t.bindings.elementName (tagName t.content), .ofBytes t.start t.stop, xs, ""⟩ := by
  simp only [Tag.ofStart]
  split
  · next hread => simp [hread]
  · next xs hread =>
    split
    · next hfault => simp [hfault]
    · next hfault => simp [hread, hfault, eq_comm]

/-- **Reading a start tag.** -/
theorem Tag.gives_of_ofStart {number : Nat} {t : StartTag} {tag : Tag}
    (h : Tag.ofStart number t = .ok tag) : t.Gives tag ∧ tag.number = number ∧ tag.text = "" := by
  obtain ⟨hfault, xs, hread, rfl⟩ := Tag.ofStart_eq_ok_iff.mp h
  have hcontent := tagName_append_drop t.content
  have hholds := holdsAttributes_rawAttributesFrom (Prod.ext rfl hfault)
  refine ⟨⟨rfl, rfl, _, hholds, ?_⟩, rfl, rfl⟩
  exact keysPlaced_readAttributes hholds hcontent rfl hcontent le_rfl hread

end Installer
