import Installer.Proofs.Assembly
import Mathlib.Data.List.Induction

/-! # The plain form of an intermediate

`Intermediate.dump` goes through the sections and looks for the symbols of each one. If all symbols have a
section, this lists every symbol exactly once, whatever the order in which the symbols of different
sections were added (`Intermediate.listed_blocks`). A line is made of words (`Intermediate.line`): that of a
symbol has its kind, its identifier and all of its fields. The plain form has three parts, for the sections with
their symbols and for the two kinds of references; each part of an append is that of the one and that of the
other one after it, although the append moves the indices of sections (`Intermediate.dump_listed`). -/

namespace Installer

namespace Intermediate

/-- A section and the symbols that are listed below it. -/
structure Block where
  header : Section
  symbols : List Symbol

/-- The lines of a block: that of the section, and one for each symbol. -/
def Block.text (b : Block) : String := sectionLine b.header ++ String.join (b.symbols.map symbolLine)

/-- The blocks list the sections and symbols of an intermediate: there is one for each section, in order,
with exactly the symbols of the section, in the order in which they were added, and each symbol is in the
blocks as often as it is in the intermediate. -/
structure Listed (x : Intermediate) (blocks : List Block) : Prop where
  headers : blocks.map Block.header = x.sections
  own : ∀ i b, blocks[i]? = some b → ∀ s, s ∈ b.symbols ↔ s ∈ x.symbols ∧ s.sectionIndex = i
  ordered : ∀ b ∈ blocks, b.symbols.Sublist x.symbols
  once : (blocks.flatMap Block.symbols).Perm x.symbols

/-! ### One block for each section -/

/-- The symbols of the section with the given index. -/
def symbolsAt (symbols : List Symbol) (index : Nat) : List Symbol :=
  symbols.filter (·.sectionIndex == index)

theorem dumpSection_eq (symbols : List Symbol) (index : Nat) (s : Section) :
    dumpSection symbols index s =
      sectionLine s ++ String.join ((symbolsAt symbols index).map symbolLine) := rfl

theorem mem_symbolsAt {symbols : List Symbol} {index : Nat} {s : Symbol} :
    s ∈ symbolsAt symbols index ↔ s ∈ symbols ∧ s.sectionIndex = index := by
  simp [symbolsAt]

def blocks (x : Intermediate) : List Block :=
  x.sections.mapIdx fun i s => ⟨s, symbolsAt x.symbols i⟩

theorem getElem?_blocks (x : Intermediate) (i : Nat) :
    x.blocks[i]? = x.sections[i]?.map fun s => ⟨s, symbolsAt x.symbols i⟩ :=
  List.getElem?_mapIdx

/-- The symbols of the first `n + 1` sections are those of the first `n` ones and those of the next. -/
theorem perm_symbolsAt_succ (symbols : List Symbol) (n : Nat) :
    (symbols.filter (·.sectionIndex < n) ++ symbolsAt symbols n).Perm
      (symbols.filter (·.sectionIndex < n + 1)) := by
  have hsplit := List.filter_append_perm (fun s : Symbol => decide (s.sectionIndex < n))
    (symbols.filter (·.sectionIndex < n + 1))
  have hbefore : (symbols.filter (·.sectionIndex < n + 1)).filter (·.sectionIndex < n) =
      symbols.filter (·.sectionIndex < n) := by
    rw [List.filter_filter]
    refine List.filter_congr fun s _ => ?_
    simp only [← Bool.decide_and, decide_eq_decide]
    omega
  have hnext : (symbols.filter (·.sectionIndex < n + 1)).filter (fun s => !decide (s.sectionIndex < n)) =
      symbolsAt symbols n := by
    rw [List.filter_filter]
    refine List.filter_congr fun s _ => ?_
    rw [Bool.eq_iff_iff]
    simp only [Bool.and_eq_true, Bool.not_eq_true', decide_eq_false_iff_not, decide_eq_true_eq,
      beq_iff_eq]
    omega
  rwa [hbefore, hnext] at hsplit

/-- Going through the sections one after another finds the symbols of all of them. -/
theorem perm_flatMap_mapIdx (sections : List Section) (symbols : List Symbol) :
    ((sections.mapIdx fun i s => (⟨s, symbolsAt symbols i⟩ : Block)).flatMap Block.symbols).Perm
      (symbols.filter (·.sectionIndex < sections.length)) := by
  induction sections using List.reverseRecOn with
  | nil => simp
  | append_singleton sections s ih =>
    rw [List.mapIdx_concat, List.flatMap_append, List.length_append, List.length_singleton]
    refine List.Perm.trans (ih.append ?_) (perm_symbolsAt_succ symbols sections.length)
    simp

/-- **Every symbol is listed once if all symbols have sections.** -/
theorem listed_blocks {x : Intermediate} (hx : x.Grounded) : x.Listed x.blocks where
  headers := by
    refine List.ext_getElem? fun i => ?_
    rw [List.getElem?_map, getElem?_blocks, Option.map_map]
    exact Option.map_id'
  own i b hb s := by
    rw [getElem?_blocks] at hb
    obtain ⟨header, -, rfl⟩ := Option.map_eq_some_iff.mp hb
    exact mem_symbolsAt
  ordered b hb := by
    obtain ⟨i, hi⟩ := List.mem_iff_getElem?.mp hb
    rw [getElem?_blocks] at hi
    obtain ⟨header, -, rfl⟩ := Option.map_eq_some_iff.mp hi
    exact List.filter_sublist
  once := by
    have hall : x.symbols.filter (·.sectionIndex < x.sections.length) = x.symbols :=
      List.filter_eq_self.mpr fun s hs => decide_eq_true (hx s hs)
    have hperm := perm_flatMap_mapIdx x.sections x.symbols
    rwa [hall] at hperm

/-! ### No other blocks -/

theorem symbolsAt_eq_self {symbols : List Symbol} {index : Nat}
    (h : ∀ s ∈ symbols, s.sectionIndex = index) : symbolsAt symbols index = symbols :=
  List.filter_eq_self.mpr fun s hs => beq_iff_eq.mpr (h s hs)

theorem symbolsAt_eq_nil {symbols : List Symbol} {index : Nat}
    (h : ∀ s ∈ symbols, s.sectionIndex ≠ index) : symbolsAt symbols index = [] :=
  List.filter_eq_nil_iff.mpr fun s hs hindex => h s hs (beq_iff_eq.mp hindex)

/-- The symbols of a section are found in its own block only. Blocks are counted from `k`. -/
theorem symbolsAt_flatMap {blocks : List Block} {k i : Nat} {b : Block}
    (h : ∀ j c, blocks[j]? = some c → ∀ s ∈ c.symbols, s.sectionIndex = k + j)
    (hb : blocks[i]? = some b) : symbolsAt (blocks.flatMap Block.symbols) (k + i) = b.symbols := by
  induction blocks generalizing k i with
  | nil => cases hb
  | cons c blocks ih =>
    have hfirst : ∀ s ∈ c.symbols, s.sectionIndex = k := h 0 c rfl
    have hrest : ∀ j d, blocks[j]? = some d → ∀ s ∈ d.symbols, s.sectionIndex = k + 1 + j := by
      intro j d hd s hs
      have hindex := h (j + 1) d hd s hs
      omega
    rw [List.flatMap_cons, symbolsAt, List.filter_append]
    cases i with
    | zero =>
      cases hb
      have hnone : symbolsAt (blocks.flatMap Block.symbols) (k + 0) = [] := by
        refine symbolsAt_eq_nil fun s hs => ?_
        obtain ⟨d, hd, hsd⟩ := List.mem_flatMap.mp hs
        obtain ⟨j, hj⟩ := List.mem_iff_getElem?.mp hd
        have hindex := hrest j d hj s hsd
        omega
      exact (congrArg₂ _ (symbolsAt_eq_self hfirst) hnone).trans (List.append_nil _)
    | succ i =>
      have hnone : symbolsAt c.symbols (k + (i + 1)) = [] := by
        refine symbolsAt_eq_nil fun s hs => ?_
        have hindex := hfirst s hs
        omega
      have hlater := ih hrest hb
      rw [Nat.add_assoc, Nat.add_comm 1 i] at hlater
      exact (congrArg₂ _ hnone hlater).trans (List.nil_append _)

/-- There is only one way to list an intermediate. -/
theorem Listed.eq_blocks {x : Intermediate} {blocks : List Block} (h : x.Listed blocks) :
    blocks = x.blocks := by
  refine List.ext_getElem? fun i => ?_
  have hheader : (blocks[i]?).map Block.header = x.sections[i]? := by
    rw [← List.getElem?_map, h.headers]
  rw [getElem?_blocks, ← hheader, Option.map_map]
  cases hb : blocks[i]? with
  | none => rfl
  | some b =>
    have hown : ∀ s ∈ b.symbols, s.sectionIndex = i := fun s hs => ((h.own i b hb s).mp hs).2
    have hsublist : b.symbols.Sublist (symbolsAt x.symbols i) := by
      have hfilter := (h.ordered b (List.mem_of_getElem? hb)).filter (·.sectionIndex == i)
      rwa [← symbolsAt, symbolsAt_eq_self hown] at hfilter
    have hperm : b.symbols.Perm (symbolsAt x.symbols i) := by
      have hfilter := h.once.filter (·.sectionIndex == i)
      have hfound := symbolsAt_flatMap (k := 0)
        (fun j c hc s hs => ((h.own j c hc s).mp hs).2.trans (Nat.zero_add j).symm) hb
      rw [Nat.zero_add] at hfound
      rwa [← symbolsAt, hfound] at hfilter
    have hsymbols : b.symbols = symbolsAt x.symbols i := hsublist.eq_of_length hperm.length_eq
    exact congrArg some (congrArg (Block.mk b.header) hsymbols)

/-! ### Words of lines -/

/-- A line of words with blanks between them. -/
def line (indent : String) (words : List String) : String :=
  indent ++ " ".intercalate words ++ "\n"

/-- Each word but the first one stands behind a blank. -/
theorem toList_line (indent word : String) (words : List String) :
    (line indent (word :: words)).toList =
      indent.toList ++ word.toList ++ (words.flatMap fun w => ' ' :: w.toList) ++ ['\n'] := by
  have hwords : (" ".intercalate (word :: words)).toList =
      word.toList ++ words.flatMap fun w => ' ' :: w.toList := by
    induction words generalizing word with
    | nil => simp
    | cons next words ih => simp [ih next]
  simp only [line, String.toList_append, hwords, List.append_assoc]
  rfl

theorem sectionLine_eq_line (s : Section) :
    sectionLine s = line "" (["section", s.kind.name] ++ s.id.toList) := by
  rw [← String.toList_inj, List.cons_append, toList_line, sectionLine]
  cases s.id <;> simp

theorem symbolLine_eq_line (s : Symbol) :
    symbolLine s = line "  " ([s.kind.name, s.id.text] ++ s.data.fields.map fun f =>
      f.1 ++ "=" ++ f.2) := by
  rw [← String.toList_inj, List.cons_append, toList_line, symbolLine]
  simp [List.flatMap_map]

theorem referenceLine_eq_line (r : SymbolReference) :
    referenceLine r = line "" ["ref", r.kind.name ++ ":" ++ r.id] := by
  rw [← String.toList_inj, toList_line, referenceLine]
  simp

theorem groupLine_eq_line (r : GroupReference) : groupLine r = line "" ["group", r.text] := by
  rw [← String.toList_inj, toList_line, groupLine]
  simp

/-! ### Parts of the plain form -/

theorem dumpSections_eq_blocks (x : Intermediate) :
    x.dumpSections = String.join (x.blocks.map Block.text) := by
  have hblocks : x.sections.mapIdx (dumpSection x.symbols) = x.blocks.map Block.text := by
    refine List.ext_getElem? fun i => ?_
    rw [List.getElem?_mapIdx, List.getElem?_map, getElem?_blocks, Option.map_map]
    rfl
  rw [dumpSections, hblocks]

variable {x y : Intermediate}

theorem symbolsAt_append (x y : Intermediate) (i : Nat) :
    symbolsAt (x.append y).symbols i =
      symbolsAt x.symbols i ++ symbolsAt (y.symbols.map (moveUp x.sections.length)) i :=
  List.filter_append _ _

/-- The sections of the first intermediate keep their symbols. -/
theorem symbolsAt_append_left (y : Intermediate) {i : Nat} (hi : i < x.sections.length) :
    symbolsAt (x.append y).symbols i = symbolsAt x.symbols i := by
  have hmoved : symbolsAt (y.symbols.map (moveUp x.sections.length)) i = [] := by
    refine symbolsAt_eq_nil (List.forall_mem_map.mpr fun s _ => ?_)
    simp only [moveUp]
    omega
  rw [symbolsAt_append, hmoved, List.append_nil]

/-- The sections of the second one have its symbols, with their indices moved. -/
theorem symbolsAt_append_right (hx : x.Grounded) (y : Intermediate) (i : Nat) :
    symbolsAt (x.append y).symbols (i + x.sections.length) =
      (symbolsAt y.symbols i).map (moveUp x.sections.length) := by
  have hnone : symbolsAt x.symbols (i + x.sections.length) = [] := by
    refine symbolsAt_eq_nil fun s hs => ?_
    have hlt := hx s hs
    omega
  have hmoved : symbolsAt (y.symbols.map (moveUp x.sections.length)) (i + x.sections.length) =
      (symbolsAt y.symbols i).map (moveUp x.sections.length) := by
    rw [symbolsAt, List.filter_map]
    refine congrArg _ (List.filter_congr fun s _ => ?_)
    simp [moveUp]
  rw [symbolsAt_append, hnone, hmoved, List.nil_append]

/-- **Sections and symbols are listed as they are in the two intermediates.** -/
theorem dumpSections_append (hx : x.Grounded) (y : Intermediate) :
    (x.append y).dumpSections = x.dumpSections ++ y.dumpSections := by
  have hleft : x.sections.mapIdx (dumpSection (x.append y).symbols) =
      x.sections.mapIdx (dumpSection x.symbols) := by
    refine List.mapIdx_eq_mapIdx_iff.mpr fun i hi => ?_
    rw [dumpSection_eq, symbolsAt_append_left y hi, dumpSection_eq]
  have hright : y.sections.mapIdx (fun i => dumpSection (x.append y).symbols (i + x.sections.length)) =
      y.sections.mapIdx (dumpSection y.symbols) := by
    refine List.mapIdx_eq_mapIdx_iff.mpr fun i _ => ?_
    -- The line of a symbol does not depend on the index of its section.
    rw [dumpSection_eq, symbolsAt_append_right hx y, List.map_map, dumpSection_eq]
    rfl
  have hsections : (x.append y).sections = x.sections ++ y.sections := rfl
  rw [dumpSections, hsections, List.mapIdx_append, hleft, hright, String.join_append]
  rfl

theorem dumpReferences_append (x y : Intermediate) :
    (x.append y).dumpReferences = x.dumpReferences ++ y.dumpReferences := by
  simp [dumpReferences, append, String.join_append]

theorem dumpGroups_append (x y : Intermediate) :
    (x.append y).dumpGroups = x.dumpGroups ++ y.dumpGroups := by
  simp [dumpGroups, append, String.join_append]

/-- **The plain form lists everything once, and the parts of an append are appended.** For an
intermediate whose symbols all have sections, the plain form has three parts. The first one has the lines of
each section with its symbols, each symbol once, and there is no other way to do so; the second one has a
line for each reference and the third one a line for each group reference, in order. The line of a section
has its kind and its name, that of a symbol has its kind, its identifier and all its fields, and that of a
reference has its kind and name. Each part of an append with another intermediate is the part of the one
followed by that of the other. -/
theorem dump_listed (hx : x.Grounded) (y : Intermediate) :
    (∃ blocks, x.Listed blocks ∧ (∀ other, x.Listed other → other = blocks) ∧
      x.dumpSections = String.join (blocks.map Block.text)) ∧
    x.dumpReferences = String.join (x.references.map referenceLine) ∧
    x.dumpGroups = String.join (x.groups.map groupLine) ∧
    x.dump = x.dumpSections ++ x.dumpReferences ++ x.dumpGroups ∧
    ((∀ s, sectionLine s = line "" (["section", s.kind.name] ++ s.id.toList)) ∧
      (∀ s, symbolLine s = line "  " ([s.kind.name, s.id.text] ++ s.data.fields.map fun f =>
        f.1 ++ "=" ++ f.2)) ∧
      (∀ r, referenceLine r = line "" ["ref", r.kind.name ++ ":" ++ r.id]) ∧
      ∀ r, groupLine r = line "" ["group", r.text]) ∧
    (x.append y).dumpSections = x.dumpSections ++ y.dumpSections ∧
    (x.append y).dumpReferences = x.dumpReferences ++ y.dumpReferences ∧
    (x.append y).dumpGroups = x.dumpGroups ++ y.dumpGroups :=
  ⟨⟨x.blocks, listed_blocks hx, fun _ => Listed.eq_blocks, dumpSections_eq_blocks x⟩,
    rfl, rfl, rfl,
    ⟨sectionLine_eq_line, symbolLine_eq_line, referenceLine_eq_line, groupLine_eq_line⟩,
    dumpSections_append hx y, dumpReferences_append x y, dumpGroups_append x y⟩

end Intermediate

namespace Sample

/-- Two sections whose symbols were added by turns. -/
def interleaved : Intermediate where
  sections := [⟨none, .fragment, 0⟩, ⟨some "M", .module, 0⟩]
  symbols := [propertyAt 1 "P", propertyAt 0 "Q", propertyAt 1 "R", propertyAt 0 "P"]
  references := [⟨.directory, "D"⟩]

/-- One section with one symbol. -/
def single : Intermediate where
  sections := [⟨some "F", .fragment, 1⟩]
  symbols := [propertyAt 0 "S"]

end Sample

/-- The text for two sections whose symbols were added by turns, with another section put behind them. -/
theorem dump_listed_interleaved :
    Sample.interleaved.Grounded ∧
    Sample.interleaved.dumpSections =
      "section Fragment\n  Property Q value=1 secure=false hidden=false admin=false\n" ++
      "  Property P value=1 secure=false hidden=false admin=false\n" ++
      "section Module M\n  Property P value=1 secure=false hidden=false admin=false\n" ++
      "  Property R value=1 secure=false hidden=false admin=false\n" ∧
    Sample.interleaved.dumpReferences = "ref Directory:D\n" ∧
    (Sample.interleaved.append Sample.single).dumpSections = Sample.interleaved.dumpSections ++
      "section Fragment F\n  Property S value=1 secure=false hidden=false admin=false\n" := by
  have hgrounded : Sample.interleaved.Grounded := by decide
  have hsingle : Sample.single.dumpSections =
      "section Fragment F\n  Property S value=1 secure=false hidden=false admin=false\n" := by
    decide +kernel
  obtain ⟨-, hreferences, -, -, -, hsections, -⟩ :=
    Intermediate.dump_listed hgrounded Sample.single
  refine ⟨hgrounded, by decide +kernel, hreferences.trans (by decide +kernel), ?_⟩
  rw [hsections, hsingle]

end Installer
