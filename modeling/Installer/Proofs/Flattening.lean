import Installer.Proofs.JsonText

/-! # Flat records

`Json.flatten` lists the values inside of a record under names in which the names of nested members are
joined by dots. The list says as much as the record as long as the names of members have no dots and are
different (`Json.Apart`): the part of a flat name up to its next dot tells the member that it comes from
(`Json.owner`), so that flat names do not coincide (`Json.nodup_flattenMembers`) and records with the same
list have members with the same lists (`Json.forall₂_of_flattenMembers_eq`).

What is to be listed is said apart from the listing: a record holds a text at a place, that is at a
sequence of indices (`Json.Holds`), and the list has all these texts in the order of their places
(`Json.flatten_eq_map_leaves`). Unset values are null and hold nothing. -/

namespace Installer.Json

theorem flattenMembers_cons (stem name : String) (value : Json) (members : List (String × Json)) :
    flattenMembers stem ((name, value) :: members) =
      flatten (stem ++ name) value ++ flattenMembers stem members := rfl

/-! ### Where flat names come from -/

/-- The flat names of what is at a path: the path itself, or the path and a dot and more. -/
def Continues (path name : String) : Prop :=
  ∃ rest, name.toList = path.toList ++ rest ∧ ∀ c ∈ rest.head?, c = '.'

theorem continues_self (path : String) : Continues path path := ⟨[], by simp, by simp⟩

theorem Continues.of_dot {path name flat : String} (h : Continues (path ++ "." ++ name) flat) :
    Continues path flat := by
  obtain ⟨rest, hflat, -⟩ := h
  exact ⟨'.' :: (name.toList ++ rest), by simp [hflat], by simp⟩

/-- A flat name starts with the path of what is listed. -/
theorem continues_of_mem_flatten {value : Json} {path : String} {f : String × String}
    (hf : f ∈ flatten path value) : Continues path f.1 := by
  induction value using induct generalizing path f with
  | hnull => cases hf
  | hbool b =>
    rw [List.mem_singleton.mp hf]
    exact continues_self path
  | hnumber n =>
    rw [List.mem_singleton.mp hf]
    exact continues_self path
  | htext s =>
    rw [List.mem_singleton.mp hf]
    exact continues_self path
  | hlist items _ =>
    rw [List.mem_singleton.mp hf]
    exact continues_self path
  | hrecord members ih =>
    rw [flatten] at hf
    induction members with
    | nil => cases hf
    | cons member members ihmembers =>
      rcases List.mem_append.mp hf with hf | hf
      · exact (ih member List.mem_cons_self hf).of_dot
      · exact ihmembers (fun m hm => ih m (List.mem_cons_of_mem _ hm)) hf

/-- The member that a flat name comes from: what is between the stem and the next dot. -/
def owner (stem flat : String) : List Char :=
  (flat.toList.drop stem.toList.length).takeWhile (· != '.')

theorem owner_of_mem_flatten {stem name : String} {value : Json} {f : String × String}
    (hname : '.' ∉ name.toList) (hf : f ∈ flatten (stem ++ name) value) :
    owner stem f.1 = name.toList := by
  obtain ⟨rest, hflat, hrest⟩ := continues_of_mem_flatten hf
  have hpos : ∀ c ∈ name.toList, (c != '.') = true := by
    rintro c hc
    simpa using ne_of_mem_of_not_mem hc hname
  have hend : rest.takeWhile (· != '.') = [] := by
    cases rest with
    | nil => rfl
    | cons c rest => simp [hrest c rfl]
  rw [owner, hflat, String.toList_append, List.append_assoc, List.drop_left,
    List.takeWhile_append_of_pos hpos, hend, List.append_nil]

/-! ### Names without dots -/

/-- Names of members that can be told apart in flat names. -/
structure Apart (names : List String) : Prop where
  nodup : names.Nodup
  undotted : ∀ n ∈ names, '.' ∉ n.toList

instance (names : List String) : Decidable (Apart names) :=
  decidable_of_iff (names.Nodup ∧ ∀ n ∈ names, '.' ∉ n.toList)
    ⟨fun h => ⟨h.1, h.2⟩, fun h => ⟨h.nodup, h.undotted⟩⟩

theorem Apart.tail {name : String} {names : List String} (h : Apart (name :: names)) :
    Apart names :=
  ⟨(List.nodup_cons.mp h.nodup).2, fun n hn => h.undotted n (List.mem_cons_of_mem _ hn)⟩

/-- A flat name belongs to one of the members. -/
theorem exists_owner_of_mem {stem : String} {members : List (String × Json)}
    (h : Apart (members.map Prod.fst)) {f : String × String}
    (hf : f ∈ flattenMembers stem members) :
    ∃ name ∈ members.map Prod.fst, owner stem f.1 = name.toList := by
  induction members with
  | nil => cases hf
  | cons member members ih =>
    rcases List.mem_append.mp hf with hf | hf
    · exact ⟨member.1, List.mem_cons_self,
        owner_of_mem_flatten (h.undotted _ List.mem_cons_self) hf⟩
    · obtain ⟨name, hname, howner⟩ := ih h.tail hf
      exact ⟨name, List.mem_cons_of_mem _ hname, howner⟩

/-- No flat name of the other members belongs to the first one. -/
theorem owner_ne_of_mem {stem name : String} {members : List (String × Json)}
    (h : Apart (name :: members.map Prod.fst)) {f : String × String}
    (hf : f ∈ flattenMembers stem members) : owner stem f.1 ≠ name.toList := by
  obtain ⟨other, hother, howner⟩ := exists_owner_of_mem h.tail hf
  rw [howner]
  intro heq
  have hsame : other = name := String.toList_inj.mp heq
  exact (List.nodup_cons.mp h.nodup).1 (hsame ▸ hother)

/-- The value has no two flat names that coincide, wherever it stands. -/
def Unambiguous (value : Json) : Prop := ∀ path, ((flatten path value).map Prod.fst).Nodup

/-- **Flat names do not coincide.** -/
theorem nodup_flattenMembers {members : List (String × Json)} (h : Apart (members.map Prod.fst))
    (hvalues : ∀ m ∈ members, Unambiguous m.2) (stem : String) :
    ((flattenMembers stem members).map Prod.fst).Nodup := by
  induction members with
  | nil => exact List.nodup_nil
  | cons member members ih =>
    obtain ⟨name, value⟩ := member
    obtain ⟨hvalue, hrest⟩ := List.forall_mem_cons.mp hvalues
    have hundotted : '.' ∉ name.toList := h.undotted name List.mem_cons_self
    rw [flattenMembers_cons, List.map_append, List.nodup_append']
    refine ⟨hvalue _, ih h.tail hrest, List.disjoint_left.mpr fun flat hfirst hlater => ?_⟩
    obtain ⟨f, hf, rfl⟩ := List.mem_map.mp hfirst
    obtain ⟨g, hg, heq⟩ := List.mem_map.mp hlater
    exact owner_ne_of_mem h hg (by rw [heq, owner_of_mem_flatten hundotted hf])

theorem unambiguous_record {members : List (String × Json)} (h : Apart (members.map Prod.fst))
    (hvalues : ∀ m ∈ members, Unambiguous m.2) : Unambiguous (.record members) := by
  intro path
  rw [flatten]
  exact nodup_flattenMembers h hvalues _

/-! ### Records with the same list -/

/-- Members of one name with the same flat names and texts. -/
def SameFlat (stem : String) (m m' : String × Json) : Prop :=
  m.1 = m'.1 ∧ flatten (stem ++ m.1) m.2 = flatten (stem ++ m'.1) m'.2

/-- **The list of a record is made of lists for its members**, and where one of them ends can be seen
from the names in it. -/
theorem forall₂_of_flattenMembers_eq {stem : String} {members members' : List (String × Json)}
    (hnames : members.map Prod.fst = members'.map Prod.fst) (h : Apart (members.map Prod.fst))
    (heq : flattenMembers stem members = flattenMembers stem members') :
    List.Forall₂ (SameFlat stem) members members' := by
  induction members generalizing members' with
  | nil =>
    rw [List.map_nil, eq_comm, List.map_eq_nil_iff] at hnames
    rw [hnames]
    exact .nil
  | cons member members ih =>
    obtain ⟨name, value⟩ := member
    obtain ⟨⟨name', value'⟩, members', rfl, hname, hrest⟩ := List.map_eq_cons_iff.mp hnames.symm
    dsimp only at hname
    subst hname
    have hundotted : '.' ∉ name'.toList := h.undotted _ List.mem_cons_self
    have h' : Apart (name' :: members'.map Prod.fst) := by rwa [hrest]
    rw [flattenMembers_cons, flattenMembers_cons] at heq
    obtain ⟨hfirst, hlater⟩ := append_inj_of_all (p := fun f => owner stem f.1 == name'.toList)
      (fun f hf => by simpa using owner_of_mem_flatten hundotted hf)
      (fun f hf => by simpa using owner_of_mem_flatten hundotted hf)
      (fun f hf => by simpa using owner_ne_of_mem h (List.mem_of_mem_head? hf))
      (fun f hf => by simpa using owner_ne_of_mem h' (List.mem_of_mem_head? hf)) heq
    exact .cons ⟨rfl, hfirst⟩ (ih hrest.symm h.tail hlater)

/-- Two values that are equal if they have the same list. -/
def Alike (value value' : Json) : Prop :=
  ∀ path, flatten path value = flatten path value' → value = value'

/-- Members with the same name and with values that are alike. -/
def AlikeMembers (m m' : String × Json) : Prop := m.1 = m'.1 ∧ Alike m.2 m'.2

theorem map_fst_eq_of_alike {members members' : List (String × Json)}
    (h : List.Forall₂ AlikeMembers members members') :
    members.map Prod.fst = members'.map Prod.fst := by
  induction h with
  | nil => rfl
  | cons hm _ ih => rw [List.map_cons, List.map_cons, hm.1, ih]

/-- Records are equal if they have the same list and members that are alike. -/
theorem members_eq_of_flattenMembers_eq {members members' : List (String × Json)}
    (halike : List.Forall₂ AlikeMembers members members') (h : Apart (members.map Prod.fst))
    {stem : String} (heq : flattenMembers stem members = flattenMembers stem members') :
    members = members' := by
  have hflat := forall₂_of_flattenMembers_eq (map_fst_eq_of_alike halike) h heq
  clear heq h
  induction halike with
  | nil => rfl
  | @cons m m' _ _ hm _ ih =>
    obtain ⟨hfirst, hlater⟩ := List.forall₂_cons.mp hflat
    obtain ⟨name, value⟩ := m
    obtain ⟨name', value'⟩ := m'
    obtain ⟨rfl, hvalue⟩ := hm
    obtain rfl : value = value' := hvalue _ hfirst.2
    rw [ih hlater]

theorem alike_record {members members' : List (String × Json)}
    (halike : List.Forall₂ AlikeMembers members members') (h : Apart (members.map Prod.fst)) :
    Alike (.record members) (.record members') := by
  intro path heq
  rw [flatten, flatten] at heq
  rw [members_eq_of_flattenMembers_eq halike h heq]

/-- Records whose first member says which other members there are. -/
theorem alike_tagged {tag word word' : String} {members members' : List (String × Json)}
    (h : word = word' →
      Alike (.record ((tag, .text word) :: members)) (.record ((tag, .text word') :: members'))) :
    Alike (.record ((tag, .text word) :: members)) (.record ((tag, .text word') :: members')) := by
  intro path heq
  have hwords := heq
  simp only [flatten, flattenMembers_cons, List.cons_append, List.cons.injEq, Prod.mk.injEq,
    true_and] at hwords
  exact h hwords.1 path heq

/-! ### What a value holds -/

/-- A text inside of a value: the indices and the names of the members that lead to it. -/
structure Leaf where
  place : List Nat
  names : List String
  text : String

/-- The leaf of a member seen from its record. -/
def Leaf.within (i : Nat) (name : String) (l : Leaf) : Leaf := ⟨i :: l.place, name :: l.names, l.text⟩

/-- The leaf under its flat name. -/
def Leaf.flat (l : Leaf) : String × String := (".".intercalate l.names, l.text)

/-- The value holds a text: it is one, or it is a record and one of its members holds it. Null holds
nothing. -/
inductive Holds : Json → Leaf → Prop
  | text (s : String) : Holds (.text s) ⟨[], [], s⟩
  | bool (b : Bool) : Holds (.bool b) ⟨[], [], if b then "true" else "false"⟩
  | number (n : Int) : Holds (.number n) ⟨[], [], toString n⟩
  | member {members : List (String × Json)} {i : Nat} {name : String} {value : Json} {l : Leaf}
      (hm : members[i]? = some (name, value)) (h : Holds value l) :
      Holds (.record members) (l.within i name)

mutual

/-- What a value holds, in the order of the places. -/
def leaves : Json → List Leaf
  | null => []
  | text s => [⟨[], [], s⟩]
  | record members => leavesFrom 0 members
  | bool b => [⟨[], [], if b then "true" else "false"⟩]
  | number n => [⟨[], [], toString n⟩]
  | list _ => []

/-- What members hold whose indices start with `i`. -/
def leavesFrom (i : Nat) : List (String × Json) → List Leaf
  | [] => []
  | (name, value) :: members =>
    (leaves value).map (Leaf.within i name) ++ leavesFrom (i + 1) members

end

theorem mem_leavesFrom {members : List (String × Json)} {i : Nat} {l : Leaf} :
    l ∈ leavesFrom i members ↔ ∃ j name value k, members[j]? = some (name, value) ∧
      k ∈ leaves value ∧ l = k.within (i + j) name := by
  induction members generalizing i with
  | nil => simp [leavesFrom]
  | cons member members ih =>
    obtain ⟨name, value⟩ := member
    rw [leavesFrom, List.mem_append, ih, List.mem_map]
    constructor
    · rintro (⟨k, hk, rfl⟩ | ⟨j, name', value', k, hj, hk, rfl⟩)
      · exact ⟨0, name, value, k, rfl, hk, rfl⟩
      · refine ⟨j + 1, name', value', k, hj, hk, ?_⟩
        rw [Nat.add_right_comm, Nat.add_assoc]
    · rintro ⟨j, name', value', k, hj, hk, rfl⟩
      cases j with
      | zero =>
        cases hj
        exact .inl ⟨k, hk, rfl⟩
      | succ j =>
        refine .inr ⟨j, name', value', k, hj, hk, ?_⟩
        rw [Nat.add_right_comm, Nat.add_assoc]

theorem mem_leaves_iff {value : Json} {l : Leaf} : l ∈ leaves value ↔ Holds value l := by
  constructor
  · intro hl
    induction value using induct generalizing l with
    | hnull => cases hl
    | hbool b =>
      rw [List.mem_singleton.mp hl]
      exact .bool b
    | hnumber n =>
      rw [List.mem_singleton.mp hl]
      exact .number n
    | htext s =>
      rw [List.mem_singleton.mp hl]
      exact .text s
    | hlist items _ => cases hl
    | hrecord members ih =>
      rw [leaves] at hl
      obtain ⟨j, name, value, k, hj, hk, rfl⟩ := mem_leavesFrom.mp hl
      rw [Nat.zero_add]
      exact .member hj (ih (name, value) (List.mem_of_getElem? hj) hk)
  · intro hl
    induction hl with
    | text s => exact List.mem_singleton_self _
    | bool b => exact List.mem_singleton_self _
    | number n => exact List.mem_singleton_self _
    | @member members i name value l hm _ ih =>
      rw [leaves]
      exact mem_leavesFrom.mpr ⟨i, name, value, l, hm, ih, by rw [Nat.zero_add]⟩

theorem pairwise_leavesFrom {members : List (String × Json)}
    (h : ∀ m ∈ members, (leaves m.2).Pairwise (·.place < ·.place)) (i : Nat) :
    (leavesFrom i members).Pairwise (·.place < ·.place) := by
  induction members generalizing i with
  | nil => exact .nil
  | cons member members ih =>
    obtain ⟨hfirst, hrest⟩ := List.forall_mem_cons.mp h
    refine List.pairwise_append.mpr ⟨?_, ih hrest (i + 1), fun l hl k hk => ?_⟩
    · refine List.pairwise_map.mpr (hfirst.imp fun {a b} hab => ?_)
      exact List.cons_lt_cons_iff.mpr (.inr ⟨rfl, hab⟩)
    · -- The indices of later members are larger.
      obtain ⟨a, -, rfl⟩ := List.mem_map.mp hl
      obtain ⟨j, name, value, b, -, -, rfl⟩ := mem_leavesFrom.mp hk
      exact List.cons_lt_cons_iff.mpr (.inl (by omega))

theorem pairwise_leaves (value : Json) : (leaves value).Pairwise (·.place < ·.place) := by
  induction value using induct with
  | hnull => exact .nil
  | hbool b => exact List.pairwise_singleton _ _
  | hnumber n => exact List.pairwise_singleton _ _
  | htext s => exact List.pairwise_singleton _ _
  | hlist items _ => exact .nil
  | hrecord members ih =>
    rw [leaves]
    exact pairwise_leavesFrom ih 0

/-! ### The list of a record -/

/-- A value without lists inside of it. -/
inductive Listless : Json → Prop
  | null : Listless .null
  | bool (b : Bool) : Listless (.bool b)
  | number (n : Int) : Listless (.number n)
  | text (s : String) : Listless (.text s)
  | record {members : List (String × Json)} (h : ∀ m ∈ members, Listless m.2) :
      Listless (.record members)

theorem append_intercalate (stem name : String) (names : List String) :
    stem ++ ".".intercalate (name :: names) = ".".intercalate ((stem ++ name) :: names) := by
  induction names generalizing name with
  | nil => rfl
  | cons next names ih =>
    have hnext := ih (name ++ "." ++ next)
    rwa [← String.append_assoc, ← String.append_assoc] at hnext

theorem flattenMembers_eq_map_leavesFrom {members : List (String × Json)}
    (h : ∀ m ∈ members, ∀ path, flatten path m.2 =
      (leaves m.2).map fun l => (".".intercalate (path :: l.names), l.text)) (stem : String)
    (i : Nat) :
    flattenMembers stem members =
      (leavesFrom i members).map fun l => (stem ++ ".".intercalate l.names, l.text) := by
  induction members generalizing i with
  | nil => rfl
  | cons member members ih =>
    obtain ⟨name, value⟩ := member
    obtain ⟨hfirst, hrest⟩ := List.forall_mem_cons.mp h
    rw [flattenMembers_cons, leavesFrom, List.map_append, ← ih hrest (i + 1), hfirst, List.map_map]
    simp only [Function.comp_def, Leaf.within, append_intercalate]

theorem flatten_eq_map_leaves {value : Json} (h : Listless value) (path : String) :
    flatten path value =
      (leaves value).map fun l => (".".intercalate (path :: l.names), l.text) := by
  induction h generalizing path with
  | null => rfl
  | bool b => rfl
  | number n => rfl
  | text s => rfl
  | @record members _ ih =>
    rw [flatten, flattenMembers_eq_map_leavesFrom ih (path ++ ".") 0, leaves]
    refine List.map_congr_left fun l hl => ?_
    obtain ⟨j, name, value, k, -, -, rfl⟩ := mem_leavesFrom.mp hl
    rw [Leaf.within, append_intercalate]
    rfl

/-- **The list of a record has what the record holds**, in the order of the places. -/
theorem flattenMembers_eq_map_flat {members : List (String × Json)}
    (h : ∀ m ∈ members, Listless m.2) :
    flattenMembers "" members = (leaves (.record members)).map Leaf.flat := by
  rw [flattenMembers_eq_map_leavesFrom (fun m hm => flatten_eq_map_leaves (h m hm)) "" 0, leaves]
  simp only [String.empty_append]
  rfl

end Installer.Json
