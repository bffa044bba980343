import Installer.Proofs.DocumentTree
import Installer.Proofs.Packages

/-! # The places of tags

A token takes a piece off the text and counts the bytes of that piece (`Markup.nextToken?_eq_ok`); the
piece of a start tag is its content between angle brackets, with a slash at the end if the tag is
empty, and it ends with the first closing bracket outside of quotes (`Markup.IsTag`). So tokens stand in
the text one behind the other (`Markup.tokensFrom_placed`). The start of a tag is counted back from its
end by the length of such a piece, so it is that of the token (`Markup.PlacedToken.Starts.start_eq`), and
the start tags of events stand one behind the other as well (`Markup.startTags_events`). -/

namespace Installer

open Compile (exists_of_forall₂ map_eq_of_forall₂)
open Text

namespace Markup

/-! ### Pieces of tokens -/

theorem splitTag_eq_ok {quote : Option Char} {cs : List Char} {r : List Char × List Char}
    (h : splitTag quote cs = .ok r) : cs = r.1 ++ '>' :: r.2 := by
  induction cs generalizing quote r with
  | nil => cases quote <;> cases h
  | cons c cs ih =>
    cases quote with
    | none =>
      rw [splitTag] at h
      split_ifs at h with hc
      · cases h
        rw [hc, List.nil_append]
      all_goals
        obtain ⟨s, hs, rfl⟩ := map_eq_ok_iff.mp h
        rw [List.cons_append, ← ih hs]
    | some q =>
      rw [splitTag] at h
      obtain ⟨s, hs, rfl⟩ := map_eq_ok_iff.mp h
      rw [List.cons_append, ← ih hs]

/-- The end of a tag is found without what is behind it. -/
theorem splitTag_concat {quote : Option Char} {cs : List Char} {r : List Char × List Char}
    (h : splitTag quote cs = .ok r) : splitTag quote (r.1 ++ ['>']) = .ok (r.1, []) := by
  induction cs generalizing quote r with
  | nil => cases quote <;> cases h
  | cons c cs ih =>
    cases quote with
    | none =>
      rw [splitTag] at h
      by_cases hc : c = '>'
      · rw [if_pos hc] at h
        cases h
        rfl
      · rw [if_neg hc] at h
        obtain ⟨s, hs, rfl⟩ := map_eq_ok_iff.mp h
        rw [List.cons_append, splitTag, if_neg hc, ih hs, Except.map]
    | some q =>
      rw [splitTag] at h
      obtain ⟨s, hs, rfl⟩ := map_eq_ok_iff.mp h
      rw [List.cons_append, splitTag, ih hs, Except.map]

theorem splitClosed_eq_some {closes : List Char → Bool} {before cs : List Char}
    {r : List Char × List Char} (h : splitClosed closes before cs = some r) :
    cs = r.1 ++ '>' :: r.2 := by
  induction cs generalizing before r with
  | nil => cases h
  | cons c cs ih =>
    rw [splitClosed] at h
    split_ifs at h with hc
    · cases h
      obtain ⟨rfl, -⟩ : c = '>' ∧ closes before := by simpa using hc
      rfl
    · obtain ⟨s, hs, rfl⟩ := Option.map_eq_some_iff.mp h
      rw [List.cons_append, ← ih hs]

theorem splitDoctype_eq_some {mode : DoctypeMode} {before cs : List Char}
    {r : List Char × List Char} (h : splitDoctype mode before cs = some r) :
    cs = r.1 ++ '>' :: r.2 := by
  induction cs generalizing mode before r with
  | nil => cases h
  | cons c cs ih =>
    rw [splitDoctype] at h
    split_ifs at h with hc
    · cases h
      obtain ⟨rfl, -⟩ : c = '>' ∧ (mode = .outer ∨ mode = .after) := by simpa using hc
      rfl
    · obtain ⟨s, hs, rfl⟩ := Option.map_eq_some_iff.mp h
      rw [List.cons_append, ← ih hs]

/-- The piece of a start tag. -/
def tagPiece (content : List Char) (empty : Bool) : List Char :=
  '<' :: (content ++ if empty then ['/', '>'] else ['>'])

theorem byteLength_tagPiece (content : List Char) (empty : Bool) :
    byteLength (tagPiece content empty) = byteLength content + if empty then 3 else 2 := by
  have hopening : '<'.utf8Size = 1 := rfl
  have hclosing : byteLength (if empty then ['/', '>'] else ['>']) + 1 = if empty then 3 else 2 := by
    cases empty <;> rfl
  rw [tagPiece, byteLength_cons, byteLength_append, hopening]
  omega

/-- The piece is a whole start tag: the bracket at its end is the first one outside of quotes. -/
structure IsTag (content : List Char) (empty : Bool) (piece : List Char) : Prop where
  eq : piece = tagPiece content empty
  whole : splitTag none piece.tail = .ok (piece.tail.dropLast, [])

/-- The token is what the text starts with, and its bytes are those of the piece. -/
structure Taken.Takes (t : Taken) (cs piece : List Char) : Prop where
  eq : cs = piece ++ t.rest
  size : t.size = byteLength piece
  tag : ∀ content empty, t.token = .startTag content empty → IsTag content empty piece

/-- A token between two brackets. -/
theorem takes_bracketed {token : Token} {cs content rest : List Char} {o c : Char}
    (ho : o.utf8Size = 1) (hc : c.utf8Size = 1) (h : cs = content ++ c :: rest)
    (htag : ∀ cs empty, token = .startTag cs empty → IsTag cs empty (o :: (content ++ [c]))) :
    (Taken.bracketed token content rest).Takes (o :: cs) (o :: (content ++ [c])) where
  eq := by simp [Taken.bracketed, h]
  size := by
    simp only [Taken.bracketed, byteLength_cons, byteLength_append, byteLength_nil, ho, hc]
    omega
  tag := htag

theorem takeDeclaration_eq_ok {cs : List Char} {t : Taken} (h : takeDeclaration cs = .ok t) :
    ∃ piece, t.Takes ('<' :: cs) piece := by
  unfold takeDeclaration at h
  split at h
  · split at h
    · next hs =>
      split_ifs at h
      cases h
      exact ⟨_, takes_bracketed rfl rfl (splitClosed_eq_some hs) nofun⟩
    · cases h
  · split at h
    · next hs =>
      split_ifs at h
      cases h
      exact ⟨_, takes_bracketed rfl rfl (splitClosed_eq_some hs) nofun⟩
    · cases h
  · split_ifs at h
    split at h
    · next hs =>
      split_ifs at h
      cases h
      exact ⟨_, takes_bracketed rfl rfl (splitDoctype_eq_some hs) nofun⟩
    · cases h
  · cases h

theorem takeInstruction_eq_ok {cs : List Char} {t : Taken} (h : takeInstruction cs = .ok t) :
    ∃ piece, t.Takes ('<' :: cs) piece := by
  unfold takeInstruction at h
  split at h
  · next hs =>
    split_ifs at h
    cases h
    exact ⟨_, takes_bracketed rfl rfl (splitClosed_eq_some hs) nofun⟩
  · cases h

theorem takeEndTag_eq_ok {cs : List Char} {t : Taken} (h : takeEndTag cs = .ok t) :
    ∃ piece, t.Takes ('<' :: cs) piece := by
  obtain ⟨r, hr, rfl⟩ := map_eq_ok_iff.mp h
  exact ⟨_, takes_bracketed rfl rfl (splitTag_eq_ok hr) nofun⟩

theorem takeStartTag_eq_ok {cs : List Char} {t : Taken} (h : takeStartTag cs = .ok t) :
    ∃ piece, t.Takes ('<' :: cs) piece := by
  obtain ⟨r, hr, rfl⟩ := map_eq_ok_iff.mp h
  have hcs := splitTag_eq_ok hr
  have hwhole : splitTag none (r.1 ++ ['>']) = .ok ((r.1 ++ ['>']).dropLast, []) := by
    rw [List.dropLast_concat, splitTag_concat hr]
  split_ifs with hslash
  · refine ⟨_, takes_bracketed rfl rfl hcs ?_⟩
    rintro _ _ ⟨⟩
    refine ⟨?_, hwhole⟩
    have hlast := List.dropLast_append_getLast? _ hslash
    simp only [tagPiece, ↓reduceIte, List.cons.injEq, true_and]
    rw [← hlast, List.dropLast_concat, List.append_assoc]
    rfl
  · refine ⟨_, takes_bracketed rfl rfl hcs ?_⟩
    rintro _ _ ⟨⟩
    exact ⟨by simp [tagPiece], hwhole⟩

theorem takeReference_eq_ok {cs : List Char} {t : Taken} (h : takeReference cs = .ok t) :
    ∃ piece, t.Takes ('&' :: cs) piece := by
  have hsplit := List.takeWhile_append_dropWhile (p := (!isNameEnd ·)) (l := cs)
  simp only [takeReference] at h
  split at h
  · next hrest =>
    cases h
    rw [hrest] at hsplit
    exact ⟨_, takes_bracketed rfl rfl hsplit.symm (by rintro _ _ ⟨⟩)⟩
  · cases h

/-- **Taking a token** takes a piece off the text. -/
theorem nextToken?_eq_ok {cs : List Char} {t : Taken} (h : nextToken? cs = some (.ok t)) :
    ∃ piece, t.Takes cs piece := by
  unfold nextToken? at h
  split at h
  · cases h
  · have h := Option.some.inj h
    unfold takeMarkup at h
    split at h
    · exact takeDeclaration_eq_ok h
    · exact takeInstruction_eq_ok h
    · exact takeEndTag_eq_ok h
    · exact takeStartTag_eq_ok h
  · exact takeReference_eq_ok (Option.some.inj h)
  · next c cs _ _ =>
    cases h
    refine ⟨c :: cs.takeWhile isData, ⟨?_, rfl, nofun⟩⟩
    rw [List.cons_append, List.takeWhile_append_dropWhile]

/-! ### All tokens -/

/-- The token covers a piece of the text, which is a tag for a start tag. -/
def PlacedToken.StandsIn (p : PlacedToken) (text : List Char) : Prop :=
  ∃ piece, Spans text p.start p.stop piece ∧
    ∀ content empty, p.token = .startTag content empty → IsTag content empty piece

/-- The tokens of the rest of a text stand in it one behind the other. -/
theorem tokensFrom_placed {text before cs : List Char} {offset : Nat} (h : text = before ++ cs)
    (hoffset : byteLength before = offset) :
    (∀ p ∈ (tokensFrom offset cs).items, offset ≤ p.start ∧ p.StandsIn text) ∧
      (tokensFrom offset cs).items.Pairwise fun p p' => p.stop ≤ p'.start := by
  fun_induction tokensFrom offset cs generalizing before with
  | case1 => simp [Reading.done]
  | case2 => simp [Reading.fail]
  | case3 offset cs t hnext _ ih =>
    obtain ⟨piece, htakes⟩ := nextToken?_eq_ok hnext
    subst hoffset
    have hsize := htakes.size
    have hrest : text = (before ++ piece) ++ t.rest := by rw [h, htakes.eq, List.append_assoc]
    obtain ⟨hall, hpairwise⟩ := ih hrest (by rw [byteLength_append, hsize])
    simp only [Reading.cons, List.forall_mem_cons, List.pairwise_cons]
    refine ⟨⟨⟨le_rfl, piece, ⟨⟨before, t.rest, hrest, rfl⟩, by rw [hsize]⟩, htakes.tag⟩, ?_⟩, ?_,
      hpairwise⟩
    · intro p hp
      have := hall p hp
      exact ⟨by omega, this.2⟩
    · exact fun p hp => (hall p hp).1

/-- The text without a byte order mark in front. -/
def unmarked (cs : List Char) : List Char := if cs.head? = some byteOrderMark then cs.tail else cs

/-! ### Start tags -/

/-- The start tag takes the bytes of a whole tag in the text. -/
def StartTag.StandsIn (t : StartTag) (text : List Char) : Prop :=
  ∃ piece, IsTag t.content t.isEmpty piece ∧ Spans text t.start t.stop piece

/-- The token of a start tag. -/
def PlacedToken.Starts (p : PlacedToken) (t : StartTag) : Prop :=
  p.token = .startTag t.content t.isEmpty ∧ p.stop = t.stop

/-- **The start of a tag**, which is counted back from its end, is that of its token. -/
theorem PlacedToken.Starts.start_eq {p : PlacedToken} {t : StartTag} {text : List Char}
    (h : p.Starts t) (hp : p.StandsIn text) : p.start = t.start := by
  obtain ⟨piece, hspans, htag⟩ := hp
  have hstop := hspans.stop_eq
  rw [(htag _ _ h.1).eq, byteLength_tagPiece, h.2] at hstop
  rw [StartTag.start]
  omega

theorem starts_of_eventOf {stack stack' : List OpenTag} {p : PlacedToken} {event : Event}
    (h : eventOf stack p = .ok (event, stack')) : ∀ t ∈ event.startTag?, p.Starts t := by
  rw [eventOf] at h
  split at h
  · cases h
    rintro _ ⟨⟩
  · cases h
    rintro _ ⟨⟩
  · cases h
    rintro _ ⟨⟩
  · cases h
    rintro _ ⟨⟩
  · next content empty htoken =>
    split at h
    · cases h
    · dsimp only at h
      split_ifs at h
      all_goals
        cases h
        rintro _ ⟨⟩
        exact ⟨htoken, rfl⟩
  · split at h
    · cases h
    · split_ifs at h
      cases h
      rintro _ ⟨⟩

/-- The start tags of events come from some of the tokens, in order. -/
theorem startTags_eventsFrom (ts : List PlacedToken) : ∀ (stack : List OpenTag)
    (error : Option ReadError), ∃ ps, ps.Sublist ts ∧
      List.Forall₂ PlacedToken.Starts ps (startTags (eventsFrom stack error ts).items) := by
  induction ts with
  | nil => exact fun _ _ => ⟨[], .slnil, .nil⟩
  | cons p ts ih =>
    intro stack error
    rw [eventsFrom]
    split
    · exact ⟨[], List.nil_sublist _, .nil⟩
    · next event stack' hevent =>
      obtain ⟨ps, hps, hstarts⟩ := ih stack' error
      have htag := starts_of_eventOf hevent
      simp only [Reading.cons, startTags, List.filterMap_cons]
      cases ht : event.startTag? with
      | none => exact ⟨ps, hps.cons p, hstarts⟩
      | some t => exact ⟨p :: ps, hps.cons_cons p, .cons (htag t ht) hstarts⟩

/-- **The start tags of a text** stand in it one behind the other. -/
theorem startTags_events (cs : List Char) :
    (∀ t ∈ startTags (events cs).items, t.StandsIn (unmarked cs)) ∧
      (startTags (events cs).items).Pairwise fun t t' => t.stop ≤ t'.start := by
  obtain ⟨hall, hpairwise⟩ := tokensFrom_placed (List.nil_append (unmarked cs)).symm rfl
  obtain ⟨ps, hps, hstarts⟩ := startTags_eventsFrom (tokens cs).items [] (tokens cs).error
  have hstands : ∀ p ∈ ps, p.StandsIn (unmarked cs) := fun p hp => (hall p (hps.subset hp)).2
  have hplaced := (List.forall₂_and_left _ _).mpr ⟨hstands, hstarts⟩
  constructor
  · intro t ht
    obtain ⟨p, -, hp, hstart⟩ := exists_of_forall₂ hplaced ht
    have hstart_eq := hstart.start_eq hp
    obtain ⟨piece, hspans, htag⟩ := hp
    rw [hstart_eq, hstart.2] at hspans
    exact ⟨piece, htag _ _ hstart.1, hspans⟩
  · have hmap : ps.map (fun p => (p.start, p.stop)) =
        (startTags (events cs).items).map fun t => (t.start, t.stop) :=
      map_eq_of_forall₂ hplaced fun h => Prod.ext (h.2.start_eq h.1) h.2.2
    have hsub := hpairwise.sublist hps
    rw [← List.pairwise_map (f := fun p : PlacedToken => (p.start, p.stop))
      (R := fun a b => a.2 ≤ b.1), hmap, List.pairwise_map] at hsub
    exact hsub

end Markup

end Installer
