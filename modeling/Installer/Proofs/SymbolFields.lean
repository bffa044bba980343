import Installer.Proofs.Flattening
import Installer.Proofs.HandOff

/-! # The fields of definitions

The flat list of fields of a definition keeps what the definition says (`Symbol.Data.fields_keep_record`).
Its members are gone through by their types: `Atomic` are those whose values are single texts of one form,
and `Flat` those whose values are known by their flat lists, among them the records inside of packages, whose
first members say which others there are. -/

namespace Installer

open Json

/-- Types whose values are written as single words or numbers of one form. -/
class Atomic (α : Type) [ToJson α] : Prop where
  alike : ∀ a b : α, Alike (toJson a) (toJson b)
  single : ∀ (a : α) (path : String), ∃ s, flatten path (toJson a) = [(path, s)]
  listless : ∀ a : α, Listless (toJson a)

/-- Types whose values are known by their flat lists. -/
class Flat (α : Type) [ToJson α] : Prop where
  alike : ∀ a b : α, Alike (toJson a) (toJson b)
  unambiguous : ∀ a : α, Unambiguous (toJson a)
  listless : ∀ a : α, Listless (toJson a)

/-- Types whose values are written as words. -/
theorem Atomic.of_word {α : Type} [ToJson α] (word : α → String)
    (h : ∀ a, toJson a = .text (word a)) : Atomic α where
  alike a b path heq := by
    rw [h, h] at heq ⊢
    rw [(Prod.mk.inj (List.cons.inj heq).1).2]
  single a path := ⟨word a, by rw [h]; rfl⟩
  listless a := by
    rw [h]
    exact .text _

instance : Atomic String := .of_word id fun _ => rfl

instance {α : Type} [Choice α] : Atomic α := .of_word Choice.keyword fun _ => rfl

instance : Atomic Symbol.PackageKind := .of_word Symbol.PackageKind.name fun _ => rfl

instance : Atomic Symbol.SequenceTable := .of_word Symbol.SequenceTable.name fun _ => rfl

instance : Atomic Symbol.ActionSource where
  alike a b path heq := by
    cases a <;> cases b <;> simp_all [toJson, flatten]
  single a path := by
    cases a <;> exact ⟨_, rfl⟩
  listless a := by
    cases a <;> exact .text _

instance : Atomic Bool where
  alike a b path heq := by
    cases a <;> cases b <;> simp_all [toJson, flatten]
  single a path := ⟨_, rfl⟩
  listless a := .bool a

instance : Atomic Int where
  alike m n path heq := by
    have htext : m.repr = n.repr := (Prod.mk.inj (List.cons.inj heq).1).2
    rw [Int.repr_injective htext]
  single n path := ⟨_, rfl⟩
  listless n := .number n

instance {α : Type} [ToJson α] [Atomic α] : Flat α where
  alike := Atomic.alike
  unambiguous a path := by
    obtain ⟨s, hs⟩ := Atomic.single a path
    rw [hs]
    exact List.nodup_singleton _
  listless := Atomic.listless

/-- An unset field is not in the list, and a set one is. -/
instance {α : Type} [ToJson α] [Atomic α] : Flat (Option α) where
  alike a b path heq := by
    cases a with
    | none =>
      cases b with
      | none => rfl
      | some b =>
        obtain ⟨s, hs⟩ := Atomic.single b path
        exact absurd (heq.trans hs) (List.cons_ne_nil _ _).symm
    | some a =>
      cases b with
      | none =>
        obtain ⟨s, hs⟩ := Atomic.single a path
        exact absurd (heq.symm.trans hs) (List.cons_ne_nil _ _).symm
      | some b => exact Atomic.alike a b path heq
  unambiguous a path := by
    cases a with
    | none => exact List.nodup_nil
    | some a => exact Flat.unambiguous a path
  listless a := by
    cases a with
    | none => exact .null
    | some a => exact Atomic.listless a

@[simp] theorem alike_toJson {α : Type} [ToJson α] [Flat α] (a b : α) :
    Alike (toJson a) (toJson b) :=
  Flat.alike a b

@[simp] theorem alike_text (s t : String) : Alike (.text s) (.text t) := alike_toJson s t

@[simp] theorem unambiguous_toJson {α : Type} [ToJson α] [Flat α] (a : α) :
    Unambiguous (toJson a) :=
  Flat.unambiguous a

@[simp] theorem unambiguous_text (s : String) : Unambiguous (.text s) := unambiguous_toJson s

@[simp] theorem listless_toJson {α : Type} [ToJson α] [Flat α] (a : α) : Listless (toJson a) :=
  Flat.listless a

@[simp] theorem listless_text (s : String) : Listless (.text s) := .text s

namespace Symbol

/-! ### The records inside of packages -/

instance : Flat Detection where
  alike a b := by
    cases a <;> cases b <;> refine alike_tagged fun hword => ?_
    case entry.entry | condition.condition | none.none =>
      exact alike_record (by simp [AlikeMembers]) (by simp only [List.map]; decide +kernel)
    all_goals exact absurd hword (by decide)
  unambiguous a := by
    cases a <;> exact unambiguous_record (by simp only [List.map]; decide +kernel) (by simp)
  listless a := by
    cases a <;> exact .record (by simp)

instance : Flat PackageDetails where
  alike a b := by
    cases a <;> cases b <;> refine alike_tagged fun hword => ?_
    case msi.msi | msp.msp | msu.msu | exe.exe | bundle.bundle =>
      exact alike_record (by simp [AlikeMembers, Arguments.members])
        (by
          simp only [Arguments.members, List.append_eq, List.cons_append, List.nil_append, List.map]
          decide +kernel)
    all_goals exact absurd hword (by decide)
  unambiguous a := by
    cases a <;> exact unambiguous_record
      (by simp only [Arguments.members, List.cons_append, List.nil_append, List.map]; decide +kernel)
      (by simp [Arguments.members])
  listless a := by
    cases a <;> exact .record (by simp [Arguments.members])

/-! ### Fields of extensions -/

/-- The fields that an extension chose, as members of a record. -/
def Fields.members (fields : Fields) : List (String × Json) :=
  fields.toList.map fun f => (f.1, toJson f.2)

theorem Fields.flattenMembers_members (fields : Fields) (stem : String) :
    flattenMembers stem fields.members = fields.toList.map fun f => (stem ++ f.1, f.2) := by
  unfold members
  induction fields.toList with
  | nil => rfl
  | cons f fields ih =>
    rw [List.map_cons, flattenMembers_cons, ih]
    rfl

/-- Fields are told apart by their own names, whether there are dots in them or not. -/
theorem Fields.alike (a b : Fields) : Alike (.record a.members) (.record b.members) := by
  intro path heq
  rw [flatten, flatten, flattenMembers_members, flattenMembers_members] at heq
  have hpair : Function.Injective fun f : String × String => (path ++ "." ++ f.1, f.2) := by
    intro f g hfg
    obtain ⟨hname, hvalue⟩ := Prod.mk.inj hfg
    exact Prod.ext (String.append_right_inj _ |>.mp hname) hvalue
  have hlist : a.toList = b.toList := hpair.list_map heq
  rw [members, members, hlist]

theorem Fields.unambiguous (fields : Fields) : Unambiguous (.record fields.members) := by
  intro path
  have hnames : (flatten path (.record fields.members)).map Prod.fst =
      (fields.toList.map Prod.fst).map (path ++ "." ++ ·) := by
    rw [flatten, flattenMembers_members, List.map_map, List.map_map]
    rfl
  rw [hnames]
  exact fields.nodup.map fun n m h => (String.append_right_inj _).mp h

theorem Fields.listless (fields : Fields) : Listless (.record fields.members) :=
  .record (List.forall_mem_map.mpr fun f _ => listless_toJson f.2)

/-- A name that is not there yet goes to the end. -/
theorem Fields.setIn_of_notMem {name : String} {fields : List (String × String)}
    (h : name ∉ fields.map Prod.fst) (value : String) :
    setIn name value fields = fields ++ [(name, value)] := by
  induction fields with
  | nil => rfl
  | cons f fields ih =>
    rw [List.map_cons, List.mem_cons, not_or] at h
    rw [setIn, if_neg (Ne.symm h.1), ih h.2, List.cons_append]

/-- A name that is there already keeps its place. -/
theorem Fields.setIn_of_mem {name : String} {fields : List (String × String)}
    (hnodup : (fields.map Prod.fst).Nodup) (h : name ∈ fields.map Prod.fst) (value : String) :
    setIn name value fields = fields.map fun f => if f.1 = name then (name, value) else f := by
  induction fields with
  | nil => cases h
  | cons f fields ih =>
    obtain ⟨hfirst, hrest⟩ := List.nodup_cons.mp hnodup
    rw [setIn, List.map_cons]
    split_ifs with hname
    · -- No later field has the name.
      subst hname
      have hlater : ∀ g ∈ fields, (if g.1 = f.1 then (f.1, value) else g) = g := by
        intro g hg
        have hmem : g.1 ∈ fields.map Prod.fst := List.mem_map_of_mem hg
        exact if_neg (ne_of_mem_of_not_mem hmem hfirst)
      rw [List.map_congr_left hlater, List.map_id']
    · rw [ih hrest ((List.mem_cons.mp h).resolve_left (Ne.symm hname))]

theorem Fields.toList_foldl_insert {fields : Fields} {pairs : List (String × String)}
    (h : ((fields.toList ++ pairs).map Prod.fst).Nodup) :
    (pairs.foldl (fun fields p => fields.insert p.1 p.2) fields).toList = fields.toList ++ pairs := by
  induction pairs generalizing fields with
  | nil => simp
  | cons p pairs ih =>
    have hnew : p.1 ∉ fields.toList.map Prod.fst := by
      rw [List.map_append, List.nodup_append'] at h
      exact fun hmem => List.disjoint_left.mp h.2.2 hmem List.mem_cons_self
    have hinsert : (fields.insert p.1 p.2).toList = fields.toList ++ [p] :=
      setIn_of_notMem hnew p.2
    rw [List.foldl_cons, ih (by rwa [hinsert, List.append_assoc]), hinsert, List.append_assoc]
    rfl

/-- Pairs with different names stay as they are. -/
theorem Fields.toList_ofList {pairs : List (String × String)} (h : (pairs.map Prod.fst).Nodup) :
    (ofList pairs).toList = pairs :=
  toList_foldl_insert h

/-! ### Definitions -/

namespace Data

theorem members_extensionData (definition : String) (fields : Fields) :
    (extensionData definition fields).members =
      [("definition", toJson definition), ("fields", .record fields.members)] := rfl

/-- What is known of the members of definitions of one kind: they correspond, each can be listed, and
their names are different from each other and from that of the tag. -/
theorem regular_members {a b : Data} (hkind : a.kind = b.kind) :
    List.Forall₂ AlikeMembers a.members b.members ∧
      (∀ m ∈ a.members, Unambiguous m.2 ∧ Listless m.2) ∧
      Apart ("kind" :: a.members.map Prod.fst) := by
  cases a <;> cases b <;> cases hkind
  case extensionData.extensionData.refl =>
    simp only [members_extensionData]
    exact ⟨by simp [AlikeMembers, Fields.alike], by simp [Fields.unambiguous, Fields.listless],
      by simp only [List.map]; decide +kernel⟩
  all_goals
    simp only [members, Bundle.members, Chain.members, BootstrapperApplication.members,
      RelatedBundle.members, Log.members, Update.members, Container.members,
      RollbackBoundary.members, Package.members, Payload.members, MsiProperty.members,
      SlipstreamMsp.members, ExitCode.members, Variable.members, DependencyProvider.members,
      PackageSummary.members, ModuleSignature.members, Patch.members, PatchProperty.members,
      Property.members, Component.members, Registry.members, CustomAction.members, Action.members,
      SuppressAction.members]
    exact ⟨by simp [AlikeMembers], by simp, by simp only [List.map]; decide +kernel⟩

variable (a b : Data)

theorem eq_of_fields_eq {a b : Data} (hkind : a.kind = b.kind) (h : a.fields = b.fields) : a = b := by
  obtain ⟨halike, -, hapart⟩ := regular_members hkind
  exact eq_of_members_eq hkind (members_eq_of_flattenMembers_eq halike hapart.tail h)

/-- The flat names of a definition with its tag are different. -/
theorem nodup_tagged :
    ((flattenMembers "" (("kind", toJson a.kind) :: a.members)).map Prod.fst).Nodup := by
  obtain ⟨-, hvalues, hapart⟩ := regular_members (rfl : a.kind = a.kind)
  have hnames : Apart ((("kind", toJson a.kind) :: a.members).map Prod.fst) := hapart
  exact nodup_flattenMembers hnames
    (List.forall_mem_cons.mpr ⟨unambiguous_text _, fun m hm => (hvalues m hm).1⟩) ""

theorem flattenMembers_tagged :
    flattenMembers "" (("kind", toJson a.kind) :: a.members) = ("kind", a.kind.name) :: a.fields := by
  rfl

theorem nodup_fields : (a.fields.map Prod.fst).Nodup := by
  have htagged := nodup_tagged a
  rw [flattenMembers_tagged] at htagged
  exact (List.nodup_cons.mp htagged).2

/-- Taking the tag out by its name takes out nothing else. -/
theorem filter_tagged :
    (Fields.ofList (flattenMembers "" (("kind", toJson a.kind) :: a.members))).toList.filter
      (·.1 ≠ "kind") = a.fields := by
  have htagged := nodup_tagged a
  rw [Fields.toList_ofList htagged]
  rw [flattenMembers_tagged] at htagged ⊢
  rw [List.filter_cons_of_neg (by simp), List.filter_eq_self]
  intro f hf
  have hkind : "kind" ∉ a.fields.map Prod.fst := (List.nodup_cons.mp htagged).1
  simpa using ne_of_mem_of_not_mem (List.mem_map_of_mem hf) hkind

theorem fields_eq_map_flat : a.fields = (Json.leaves (.record a.members)).map Leaf.flat := by
  obtain ⟨-, hvalues, -⟩ := regular_members (rfl : a.kind = a.kind)
  exact flattenMembers_eq_map_flat fun m hm => (hvalues m hm).2

theorem fields_extensionData (definition : String) (fields : Fields) :
    (extensionData definition fields).fields =
      ("definition", definition) :: fields.toList.map fun f => ("fields." ++ f.1, f.2) := by
  have hflat := fields.flattenMembers_members "fields."
  rw [Data.fields, members_extensionData, ← hflat]
  simp only [flattenMembers, flatten, toJson, List.append_nil, List.cons_append, List.nil_append]
  rfl

/-- **The flat list of fields keeps the definition.** Definitions of one kind with the same list are
equal. No two flat names coincide. The list has exactly the texts that the members hold, so all fields that
are set and none that is not, in the order in which they are declared. It is what is left of the flat list of
the whole JSON value, put into fields one by one, when the tag is taken out by its name. The fields of an
extension stand in the order in which they were set first, whatever they are called. -/
theorem fields_keep_record :
    (a.kind = b.kind → a.fields = b.fields → a = b) ∧
    (a.fields.map Prod.fst).Nodup ∧
    (∃ leaves : List Leaf, (∀ l, l ∈ leaves ↔ (Json.record a.members).Holds l) ∧
      leaves.Pairwise (·.place < ·.place) ∧ a.fields = leaves.map Leaf.flat) ∧
    a.fields = (Fields.ofList (flattenMembers "" (("kind", toJson a.kind) :: a.members))).toList.filter
      (·.1 ≠ "kind") ∧
    ∀ (definition : String) (fields : Fields),
      (extensionData definition fields).fields =
        ("definition", definition) :: fields.toList.map (fun f => ("fields." ++ f.1, f.2)) ∧
      ∀ name value : String, (fields.insert name value).toList =
        if name ∈ fields.toList.map Prod.fst then
          fields.toList.map fun f => if f.1 = name then (name, value) else f
        else fields.toList ++ [(name, value)] := by
  refine ⟨eq_of_fields_eq, nodup_fields a, ⟨Json.leaves (.record a.members), fun l => mem_leaves_iff,
    pairwise_leaves _, fields_eq_map_flat a⟩, (filter_tagged a).symm, fun definition fields =>
    ⟨fields_extensionData definition fields, fun name value => ?_⟩⟩
  split_ifs with h
  · exact Fields.setIn_of_mem fields.nodup h value
  · exact Fields.setIn_of_notMem h value

end Data

end Symbol

/-- Fields called `kind`, like the tag, and with dots in their names; one of them was set twice. -/
theorem fields_keep_record_kind :
    (Symbol.Data.extensionData "Note" (.ofList [("kind", "1"), ("a.b", "2"), ("kind", "3")])).fields =
      [("definition", "Note"), ("fields.kind", "3"), ("fields.a.b", "2")] ∧
    Symbol.Data.extensionData "Note" (.ofList [("kind", "1"), ("a.b", "2"), ("kind", "3")]) =
      .extensionData "Note" (.ofList [("kind", "3"), ("a.b", "2")]) := by
  have hfields := (Symbol.Data.fields_keep_record
    (.extensionData "Note" (.ofList [("kind", "1"), ("a.b", "2"), ("kind", "3")]))
    (.extensionData "Note" (.ofList [("kind", "3"), ("a.b", "2")])))
  refine ⟨?_, hfields.1 rfl ?_⟩
  · rw [(hfields.2.2.2.2 _ _).1]
    decide
  · decide

end Installer
