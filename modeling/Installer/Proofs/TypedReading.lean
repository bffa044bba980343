import Installer.Extension.Script
import Installer.Proofs.FindingRanges
import Installer.Proofs.Numerals
import Installer.Proofs.Runs

/-! # Reading attributes

Readers act on a run (`Run.perform`). To read an attribute gives a value and leaves the run as it is, or it
gives none and adds one error, at the attribute, and nothing else (`Run.Answers`). All readers are loud in
this way (`Reader.Loud`), in the rules of the language and in scripted extensions: what they do not read is
an error (`Reader.Of`), and it is at the attribute (`Reader.Points`). Numbers are read without loss
(`Reader.long_eq_some_iff`): the reader gives the number that the text denotes if it lies between the bounds,
and to narrow it to 32 bits drops none (`Reader.map_integer`). -/

namespace Installer

open Compile Planned

/-! ### Actions on runs -/

/-- Do in a run what is planned on the way to a value. -/
def Run.perform {β : Type} (r : Run) (extensions : List Extension) (x : Planned β) : β × Run :=
  (x.value, r.steps extensions x.log)

/-- What comes of reading an attribute in a run: a value and the same run, or the `failure` and a run with
one error more, at the attribute. -/
inductive Run.Answers {β : Type} (r : Run) (a : Attribute) (IsValue : β → Prop) (failure : β) :
    β × Run → Prop
  | value {v : β} (h : IsValue v) : Answers r a IsValue failure (v, r)
  | failed {d : Diagnostic} (herror : d.isError) (hrange : d.range = a.range) :
      Answers r a IsValue failure (failure, { r with diagnostics := r.diagnostics ++ [d] })

/-- A plan that only gives a value, or that only reports an error at the attribute and gives the
`failure`. -/
inductive Planned.Settled {β : Type} (a : Attribute) (IsValue : β → Prop) (failure : β) :
    Planned β → Prop
  | value {v : β} (h : IsValue v) : Settled a IsValue failure (pure v)
  | failed {d : Diagnostic} (herror : d.isError) (hrange : d.range = a.range) :
      Settled a IsValue failure (do report [d]; return failure)

namespace Planned.Settled

variable {α β : Type} {a : Attribute} {IsValue : β → Prop} {failure : β} {x : Planned β}

/-- Such a plan in a run. -/
theorem answers (h : Settled a IsValue failure x) (r : Run) (extensions : List Extension) :
    r.Answers a IsValue failure (r.perform extensions x) := by
  cases h with
  | value hv => exact .value hv
  | @failed d herror hrange =>
    have hsteps : r.steps extensions [.report d] = r.report d := by
      -- also a run that has halted writes down the first step
      show (if (r.report d).halted.isSome then r.report d else r.report d) = _
      exact ite_self _
    show r.Answers a IsValue failure (failure, r.steps extensions [.report d])
    rw [hsteps]
    exact .failed herror hrange

/-- There are no steps in it but those that report its findings. -/
theorem log_eq (h : Settled a IsValue failure x) : (report x.findings).log = x.log := by
  cases h <;> rfl

/-- The findings of such a plan in a run. -/
theorem answers_findings (h : Settled a IsValue failure x) (r : Run) :
    r.Answers a IsValue failure
      (x.value, { r with diagnostics := r.diagnostics ++ x.findings }) := by
  cases h with
  | value hv =>
    show r.Answers a IsValue failure (_, { r with diagnostics := r.diagnostics ++ [] })
    rw [List.append_nil]
    exact .value hv
  | failed herror hrange => exact .failed herror hrange

/-- What a caller makes of the result. -/
theorem map {γ : Type} {IsValue' : γ → Prop} (h : Settled a IsValue failure x) (f : β → γ)
    (hf : ∀ v, IsValue v → IsValue' (f v)) :
    Settled a IsValue' (f failure) (do return f (← x)) := by
  cases h with
  | value hv => exact .value (hf _ hv)
  | failed herror hrange => exact .failed herror hrange

theorem of_read {P : α → Prop} {read : Reader α} {IsValue : Option α → Prop} (hf : read.Of P)
    (hp : read.Points) (hvalue : ∀ v, P v → IsValue (some v)) (e : Element) (a : Attribute) :
    Settled a IsValue none (read e a) := by
  have hsettles := hf e a
  have hpoints := hp e a
  generalize read e a = x at hsettles hpoints
  cases hsettles with
  | accepted hv => exact .value (hvalue _ hv)
  | @refused d herror => exact .failed herror (hpoints d List.mem_cons_self).1

end Planned.Settled

/-! ### Loud readers -/

namespace Reader

variable {α : Type} {P : α → Prop} {read : Reader α}

/-- The reader gives a value, or else it reports one error at the attribute. A rule that reports what a
reader finds does all that the reader does. -/
structure Loud (read : Reader α) : Prop where
  answers : ∀ (r : Run) (extensions : List Extension) (e : Element) (a : Attribute),
    r.Answers a (·.isSome = true) none (r.perform extensions (read e a))
  checked : ∀ e a, (report (read.findings e a)).log = (read e a).log

theorem loud_of (hf : read.Of P) (hp : read.Points) : read.Loud := by
  have hsettled : ∀ e a, Planned.Settled a (·.isSome = true) none (read e a) :=
    Planned.Settled.of_read hf hp fun _ _ => rfl
  exact ⟨fun r extensions e a => (hsettled e a).answers r extensions, fun e a => (hsettled e a).log_eq⟩

theorem loud_nonEmpty (parse? : String → Option α) {finding : Element → Attribute → Diagnostic}
    (herror : ∀ e a, (finding e a).isError) (hrange : ∀ e a, (finding e a).At a.range) :
    (nonEmpty parse? finding).Loud := by
  have hof : (nonEmpty parse? finding).Of fun _ => True := of_nonEmpty (fun _ => trivial) herror
  exact loud_of hof (points_nonEmpty parse? hrange)

theorem loud_ofClass (isMember : String → Bool) (reason : String) :
    (ofClass isMember reason).Loud :=
  loud_of (of_ofClass isMember reason) (points_ofClass isMember reason)

theorem loud_choice (α : Type) [Choice α] : (choice α).Loud :=
  loud_nonEmpty _ (fun _ _ => rfl) fun _ _ => ⟨rfl, rfl⟩

theorem not_isInvalid_of_proper {id : Identifier} (h : id.Proper) : id.isInvalid = false := by
  simpa [Identifier.isInvalid] using h.1

/-- The invalid identifier stands for one that is not read. -/
theorem settled_orInvalid (e : Element) (a : Attribute) :
    Planned.Settled a (·.isInvalid = false) Identifier.invalid (identifier.orInvalid e a) := by
  have hread : Planned.Settled a (fun id => (id.getD Identifier.invalid).isInvalid = false) none
      (identifier e a) :=
    .of_read of_identifier points_identifier (fun _ => not_isInvalid_of_proper) e a
  exact hread.map (·.getD Identifier.invalid) fun _ => id

/-! ### Numbers -/

/-- **Numbers are read without loss.** -/
theorem long_eq_some_iff {lo hi : Int} {e : Element} {a : Attribute} {n : Int} :
    (long lo hi e a).value = some n ↔
      Text.Denotes (Text.trimmed a.value).toList n ∧ Text.InInt64 n ∧ lo ≤ n ∧ n ≤ hi := by
  unfold long
  split_ifs with hempty
  · -- the empty text denotes no number
    have hnil : (Text.trimmed a.value).toList = [] := by
      rw [String.isEmpty_iff.mp hempty]
      rfl
    rw [hnil]
    constructor
    · rintro ⟨⟩
    · rintro ⟨hdenotes, -⟩
      rcases hdenotes with ⟨hdigits⟩
      exact absurd rfl hdigits.1
  · cases hint : Text.int64? (Text.trimmed a.value) with
    | none =>
      constructor
      · rintro ⟨⟩
      · rintro ⟨hdenotes, hrange, -⟩
        rw [Text.int64?_eq_some_iff.mpr ⟨hdenotes, hrange⟩] at hint
        cases hint
    | some m =>
      obtain ⟨hdenotes, hrange⟩ := Text.int64?_eq_some_iff.mp hint
      dsimp only
      constructor
      · intro h
        split_ifs at h with hbounds
        · cases h
          have hbounds : lo ≤ n ∧ n ≤ hi := by simpa using hbounds
          exact ⟨hdenotes, hrange, hbounds⟩
        · cases h
      · rintro ⟨hdenotes', hrange', hlo, hhi⟩
        have heq : Text.int64? (Text.trimmed a.value) = some n :=
          Text.int64?_eq_some_iff.mpr ⟨hdenotes', hrange'⟩
        obtain rfl : m = n := Option.some.inj (hint.symm.trans heq)
        simp [hlo, hhi]

/-- **No number is lost when it is narrowed.** -/
theorem map_integer (lo hi : Int32) (e : Element) (a : Attribute) :
    (integer lo hi e a).value.map Int32.toInt = (long lo.toInt hi.toInt e a).value := by
  simp only [integer, Logged.value_bind, Logged.value_pure]
  cases hlong : (long lo.toInt hi.toInt e a).value with
  | none => rfl
  | some n =>
    obtain ⟨hlo, hhi⟩ := (of_long lo.toInt hi.toInt).domain hlong
    obtain ⟨hnarrow, hsame⟩ := narrow?_eq_some hlo hhi
    rw [Option.bind_some, hnarrow, Option.map_some, hsame]

theorem integer_eq_some_iff {lo hi : Int32} {e : Element} {a : Attribute} {n : Int32} :
    (integer lo hi e a).value = some n ↔ Text.Denotes (Text.trimmed a.value).toList n.toInt ∧
      lo.toInt ≤ n.toInt ∧ n.toInt ≤ hi.toInt := by
  have hinjective : Function.Injective Int32.toInt := fun _ _ => Int32.toInt_inj.mp
  have hrange : Text.InInt64 n.toInt := by
    have hleast := n.le_toInt
    have hmost := n.toInt_lt
    constructor <;> omega
  rw [← (Option.map_injective hinjective).eq_iff, map_integer, Option.map_some, long_eq_some_iff]
  constructor
  · rintro ⟨hdenotes, -, hbounds⟩
    exact ⟨hdenotes, hbounds⟩
  · rintro ⟨hdenotes, hbounds⟩
    exact ⟨hdenotes, hrange, hbounds⟩

end Reader

/-! ### Scripts -/

namespace Script

variable {node : Offer} {name : Option String} {a : Attribute}

/-- The result for a value that is wrong. -/
def ValueType.failure : ValueType → Result
  | identifier => .identifier Identifier.invalid
  | _ => .nothing

/-- What is read as a value of a type is not the result of a failure. -/
theorem ValueType.settled_read (type : ValueType) (e : Element) (a : Attribute) :
    Planned.Settled a (· ≠ type.failure) type.failure (type.read e a) := by
  have hnothing : ∀ {α : Type} {P : α → Prop} {read : Reader α} (result : α → Result),
      read.Of P → read.Points → (∀ v, result v ≠ .nothing) →
      Planned.Settled a (· ≠ .nothing) .nothing
        (do return ((← read e a).map result).getD .nothing) := by
    intro α P read result hf hp hne
    have hread : Planned.Settled a (fun v => (v.map result).getD .nothing ≠ .nothing) none
        (read e a) := .of_read hf hp (fun v _ => hne v) e a
    exact hread.map (fun v => (v.map result).getD .nothing) fun _ => id
  cases type with
  | identifier =>
    refine (Reader.settled_orInvalid e a).map Result.identifier fun id hvalid heq => ?_
    rw [Result.identifier.inj heq] at hvalid
    cases hvalid
  | string rule => exact hnothing _ (Reader.of_string rule) (Reader.points_string rule) (by simp)
  | yesNo =>
    have hof : Reader.yesNo.Of fun _ => True := Reader.of_nonEmpty (fun _ => trivial) fun _ _ => rfl
    exact hnothing _ hof Reader.points_yesNo (by simp)
  | integer lo hi =>
    exact hnothing _ (Reader.of_integer lo hi) (Reader.points_integer lo hi) (by simp)
  | version => exact hnothing _ Reader.of_version (Reader.points_ofClass _ _) (by simp)
  | guid generatable =>
    have hof : (Reader.guid generatable).Of fun _ => True :=
      Reader.of_nonEmpty (fun _ => trivial) fun _ _ => rfl
    exact hnothing _ hof (Reader.points_guid generatable) (by simp)
  | codePage => exact hnothing _ Reader.of_codePage Reader.points_codePage (by simp)
  | longFileName relative =>
    exact hnothing _ (Reader.of_ofClass _ _) (Reader.points_ofClass _ _) (by simp)
  | shortFileName =>
    exact hnothing _ (Reader.of_ofClass _ _) (Reader.points_ofClass _ _) (by simp)

theorem runHook_reportAll (r : Run) (node : Offer) (ds : List Diagnostic) (next : Hook) :
    r.runHook node (reportAll ds next) =
      { r with diagnostics := r.diagnostics ++ ds }.runHook node next := by
  induction ds generalizing r with
  | nil => simp [reportAll]
  | cons d ds ih =>
    have hhead : r.runHook node (reportAll (d :: ds) next) =
        (r.report d).runHook node (reportAll ds next) := rfl
    rw [hhead, ih]
    simp [Run.report]

/-- To read an attribute in a script is loud, too. -/
theorem answers_get (r : Run) (type : ValueType) (h : subjectAttribute? node name = some a) :
    r.Answers a (· ≠ type.failure) type.failure (((Action.get type name).perform node).2,
      { r with diagnostics := r.diagnostics ++ ((Action.get type name).perform node).1 }) := by
  simp only [Action.perform, h]
  exact (type.settled_read _ a).answers_findings r

end Script

/-! ### All readers -/

/-- **Attributes are read loudly and without loss.** In every run readers give values and change nothing, or
they report one error at the attribute and change nothing else; so they do in scripts. What is read as a
number is the number that the text denotes if it lies between the bounds, and none is lost when numbers are
narrowed to 32 bits. -/
theorem typed_readers_loud :
    (∀ (r : Run) (extensions : List Extension) (e : Element) (a : Attribute),
      r.Answers a (·.isInvalid = false) Identifier.invalid
        (r.perform extensions (Reader.identifier.orInvalid e a))) ∧
    Reader.reference.Loud ∧ (∀ rule, (Reader.string rule).Loud) ∧ Reader.yesNo.Loud ∧
    Reader.yesNoDefault.Loud ∧ (∀ lo hi, (Reader.integer lo hi).Loud) ∧
    (∀ lo hi, (Reader.long lo hi).Loud) ∧ Reader.version.Loud ∧
    (∀ generatable, (Reader.guid generatable).Loud) ∧ Reader.codePage.Loud ∧
    (∀ relative, (Reader.longFileName relative).Loud) ∧ Reader.shortFileName.Loud ∧
    (∀ (α : Type) [Choice α], (Reader.choice α).Loud) ∧
    (∀ lo hi e a n, (Reader.long lo hi e a).value = some n ↔
      Text.Denotes (Text.trimmed a.value).toList n ∧ Text.InInt64 n ∧ lo ≤ n ∧ n ≤ hi) ∧
    (∀ (lo hi : Int32) e a n, (Reader.integer lo hi e a).value = some n ↔
      Text.Denotes (Text.trimmed a.value).toList n.toInt ∧
        lo.toInt ≤ n.toInt ∧ n.toInt ≤ hi.toInt) ∧
    (∀ (lo hi : Int32) e a, (Reader.integer lo hi e a).value.map Int32.toInt =
      (Reader.long lo.toInt hi.toInt e a).value) ∧
    ∀ (r : Run) (node : Offer) (type : Script.ValueType) (name : Option String) (a : Attribute),
      Script.subjectAttribute? node name = some a →
      ∃ after, r.Answers a (· ≠ type.failure) type.failure
          (((Script.Action.get type name).perform node).2, after) ∧
        ∀ next, r.runHook node
            (Script.reportAll ((Script.Action.get type name).perform node).1 next) =
          after.runHook node next := by
  refine ⟨?_, ?_, ?_, ?_, ?_, ?_, ?_, ?_, ?_, ?_, ?_, ?_, ?_, ?_, ?_, Reader.map_integer, ?_⟩
  · intro r extensions e a
    exact (Reader.settled_orInvalid e a).answers r extensions
  · exact Reader.loud_of Reader.of_reference Reader.points_reference
  · intro rule
    exact Reader.loud_of (Reader.of_string rule) (Reader.points_string rule)
  · exact Reader.loud_nonEmpty _ (fun _ _ => rfl) fun _ _ => ⟨rfl, rfl⟩
  · exact Reader.loud_choice Symbol.YesNoDefault
  · intro lo hi
    exact Reader.loud_of (Reader.of_integer lo hi) (Reader.points_integer lo hi)
  · intro lo hi
    exact Reader.loud_of (Reader.of_long lo hi) (Reader.points_long lo hi)
  · exact Reader.loud_ofClass _ _
  · intro generatable
    exact Reader.loud_nonEmpty _ (fun _ _ => rfl) fun _ _ => ⟨rfl, rfl⟩
  · exact Reader.loud_nonEmpty _ (fun _ _ => rfl) fun _ _ => ⟨rfl, rfl⟩
  · intro relative
    exact Reader.loud_ofClass _ _
  · exact Reader.loud_ofClass _ _
  · intro α _
    exact Reader.loud_choice α
  · intro lo hi e a n
    exact Reader.long_eq_some_iff
  · intro lo hi e a n
    exact Reader.integer_eq_some_iff
  · intro r node type name a h
    exact ⟨_, Script.answers_get r type h, Script.runHook_reportAll r node _⟩

namespace Sample

/-- An attribute of an extension, with a number of 33 bits. -/
def large : Attribute := ⟨⟨some "urn:memo", "Count"⟩, " +2147483648 ", ⟨5, 10⟩⟩

/-- An attribute of the language, with a small number. -/
def small : Attribute := ⟨.unqualified "Sequence", " +007 ", ⟨15, 23⟩⟩

/-- The offer of the large number. -/
def largeOffer : Offer :=
  .ofAttribute (.root (.node { tag coreNamespace "Custom" [] with attributes := [large, small] } []))
    large

end Sample

/-- The small number is read as it is, and the large one is an error if 32 bits are asked for. -/
theorem typed_readers_loud_large :
    (Reader.integer Int32.minValue Int32.maxValue Sample.largeOffer.owner Sample.small).value =
      some 7 ∧
    (Reader.long Int32.minValue.toInt Int32.maxValue.toInt Sample.largeOffer.owner
      Sample.small).value = some 7 ∧
    Script.subjectAttribute? Sample.largeOffer none = some Sample.large ∧
    ((Script.Action.get (.integer Int32.minValue Int32.maxValue) none).perform
      Sample.largeOffer).2 = .nothing ∧
    ∃ after, Run.Answers { compilation := 0 } Sample.large (· ≠ Script.Result.nothing) .nothing
        (((Script.Action.get (.integer Int32.minValue Int32.maxValue) none).perform
          Sample.largeOffer).2, after) ∧
      ∀ next, Run.runHook Sample.largeOffer { compilation := 0 } (Script.reportAll
          ((Script.Action.get (.integer Int32.minValue Int32.maxValue) none).perform
            Sample.largeOffer).1 next) =
        after.runHook Sample.largeOffer next := by
  have hsmall : (Reader.integer Int32.minValue Int32.maxValue Sample.largeOffer.owner
      Sample.small).value = some 7 := by decide +kernel
  obtain ⟨-, -, -, -, -, -, -, -, -, -, -, -, -, -, -, hnarrow, hscript⟩ := typed_readers_loud
  have hlong := hnarrow Int32.minValue Int32.maxValue Sample.largeOffer.owner Sample.small
  rw [hsmall] at hlong
  exact ⟨hsmall, hlong.symm, rfl, by decide +kernel, hscript _ _ (.integer _ _) none _ rfl⟩

end Installer
