import Installer.Proofs.Append
import Mathlib

/-! # Calls of one compiler

A compiler keeps one thing from call to call, the number of the next compile, and a compile does not look at
its own number (`Compiler.compileAs_renumber`). So a call gives what it gives on a fresh compiler, with all
numbers moved up by that of the documents before (`Compiler.answer_later`). These are the documents on which a
compile was started (`Compiler.documents`): of documents that are compiled together, none is started after
one that is nested too deeply. Numbers have 32 bits, so that up to `2 ^ 32` documents have different ones
(`Compiler.pairwise_contributions`). -/

namespace Installer

/-- A call of a compiler. -/
inductive Request where
  | single (root : Element)
  | together (roots : List Element)

namespace Compiler

/-- What a call gives, with the compiler after it. -/
def answer (c : Compiler) : Request → Outcome × Compiler
  | .single root => c.compile root
  | .together roots => c.compileAll roots

/-- What calls give that are made one after another. -/
def session (c : Compiler) : List Request → List Outcome
  | [] => []
  | q :: qs => (c.answer q).1 :: (c.answer q).2.session qs

/-- The compiler before its first call. -/
def fresh (c : Compiler) : Compiler := { c with next := 0 }

/-- The compiler after `n` more documents. -/
def later (c : Compiler) (n : Nat) : Compiler := { c with next := c.next + .ofNat n }

/-- Of documents that are compiled together, those on which a compile is started: they end with the first
that is nested too deeply. -/
def started (c : Compiler) : List Element → List Element
  | [] => []
  | root :: roots =>
    match (c.compileAs 0 root).result with
    | .error _ => [root]
    | .ok _ => root :: c.started roots

/-- The documents on which a call starts a compile. -/
def documents (c : Compiler) : Request → List Element
  | .single root => [root]
  | .together roots => c.started roots

@[simp] theorem compileAs_later (c : Compiler) (n : Nat) (k : UInt32) (root : Element) :
    (c.later n).compileAs k root = c.compileAs k root := rfl

@[simp] theorem started_later (c : Compiler) (n : Nat) (roots : List Element) :
    (c.later n).started roots = c.started roots := by
  induction roots with
  | nil => rfl
  | cons root roots ih => rw [started, started, compileAs_later, ih]

@[simp] theorem documents_later (c : Compiler) (n : Nat) (q : Request) :
    (c.later n).documents q = c.documents q := by
  cases q with
  | single root => rfl
  | together roots => exact c.started_later n roots

@[simp] theorem later_zero (c : Compiler) : c.later 0 = c := by
  simp [later]

theorem later_later (c : Compiler) (m n : Nat) : (c.later m).later n = c.later (m + n) := by
  simp only [later, UInt32.add_assoc, UInt32.ofNat_add]

/-! ### Numbers of documents -/

theorem compileAs_add (c : Compiler) (k n : UInt32) (root : Element) :
    c.compileAs (k + n) root = (c.compileAs k root).renumber (· + n) :=
  c.compileAs_renumber (· + n) k root

/-- Whether a document is nested too deeply does not depend on its number. -/
theorem exists_error_iff (c : Compiler) (k : UInt32) (root : Element) :
    (∃ h, (c.compileAs k root).result = .error h) ↔
      ∃ h, (c.compileAs 0 root).result = .error h := by
  have hk := congrArg Outcome.result (c.compileAs_add 0 k root)
  rw [UInt32.zero_add] at hk
  simp only [hk, Outcome.renumber]
  cases (c.compileAs 0 root).result with
  | error h => simp [Except.map]
  | ok o => simp [Except.map]

theorem started_cons_of_error {c : Compiler} {k : UInt32} {root : Element} {h : Halt}
    (hr : (c.compileAs k root).result = .error h) (roots : List Element) :
    c.started (root :: roots) = [root] := by
  obtain ⟨h', hr'⟩ := (c.exists_error_iff k root).mp ⟨h, hr⟩
  rw [started, hr']

theorem started_cons_of_ok {c : Compiler} {k : UInt32} {root : Element} {o : Output}
    (hr : (c.compileAs k root).result = .ok o) (roots : List Element) :
    c.started (root :: roots) = root :: c.started roots := by
  rw [started]
  cases hr' : (c.compileAs 0 root).result with
  | ok o' => rfl
  | error h =>
    obtain ⟨h', he⟩ := (c.exists_error_iff k root).mpr ⟨h, hr'⟩
    rw [hr] at he
    cases he

/-- Every document that is started takes a number, and nothing else changes. -/
theorem compileEach_snd (c : Compiler) (roots : List Element) :
    (c.compileEach roots).2 = c.later (c.started roots).length := by
  induction roots generalizing c with
  | nil => exact c.later_zero.symm
  | cons root roots ih =>
    have hcompile : c.compile root = (c.compileAs c.next root, c.later 1) := rfl
    rw [compileEach, hcompile]
    cases hr : (c.compileAs c.next root).result with
    | error h =>
      rw [started_cons_of_error hr]
      simp only [hr]
      rfl
    | ok o =>
      rw [started_cons_of_ok hr, List.length_cons]
      simp only [hr]
      rw [ih, started_later, later_later, Nat.add_comm]

theorem answer_snd (c : Compiler) (q : Request) :
    (c.answer q).2 = c.later (c.documents q).length := by
  cases q with
  | single root => rfl
  | together roots => exact c.compileEach_snd roots

-- at a limit of one level the second document is nested too deeply, and the third is not started
example : (answer { config.recursionLimit := 1 }
    (.together [Sample.element "Wix" [] [], Sample.note, Sample.note])).2.next = 2 := by
  decide +kernel

/-! ### Calls on a compiler that was used before -/

theorem compile_later (c : Compiler) (n : Nat) (root : Element) :
    ((c.later n).compile root).1 = (c.compile root).1.renumber (· + .ofNat n) :=
  c.compileAs_add c.next (.ofNat n) root

theorem compileEach_later (c : Compiler) (n : Nat) (roots : List Element) :
    ((c.later n).compileEach roots).1 = (c.compileEach roots).1.renumber (· + .ofNat n) := by
  induction roots generalizing c with
  | nil => rfl
  | cons root roots ih =>
    have hfirst := c.compile_later n root
    have hnext : ((c.later n).compile root).2 = (c.later 1).later n := by
      rw [later_later, Nat.add_comm, ← later_later]
      rfl
    have hrest := ih (c.later 1)
    rw [compileEach, compileEach]
    simp only [hfirst, hnext]
    simp only [Outcome.renumber]
    have hcompile : (c.compile root).2 = c.later 1 := rfl
    rw [hcompile]
    cases (c.compile root).1.result with
    | error h => rfl
    | ok o =>
      simp only [Except.map, hrest, Outcome.renumber]
      cases ((c.later 1).compileEach roots).1.result with
      | error h => rfl
      | ok o' => simp only [Output.renumber_append]

theorem compileAll_later (c : Compiler) (n : Nat) (roots : List Element) :
    ((c.later n).compileAll roots).1 = (c.compileAll roots).1.renumber (· + .ofNat n) := by
  have heach := c.compileEach_later n roots
  simp only [compileAll, heach, Outcome.renumber]
  cases (c.compileEach roots).1.result with
  | error h => rfl
  | ok o => simp only [Except.map, Output.settle_renumber]

/-- **A call does not notice the calls before it**, but for the numbers of the documents. -/
theorem answer_later (c : Compiler) (n : Nat) (q : Request) :
    ((c.later n).answer q).1 = (c.answer q).1.renumber (· + .ofNat n) := by
  cases q with
  | single root => exact c.compile_later n root
  | together roots => exact c.compileAll_later n roots

/-! ### Many calls -/

/-- The number of documents on which some calls start a compile. -/
def count (c : Compiler) (requests : List Request) : Nat := (requests.flatMap c.documents).length

theorem count_later (c : Compiler) (n : Nat) (requests : List Request) :
    (c.later n).count requests = c.count requests := by
  have hdocuments : (c.later n).documents = c.documents := funext (c.documents_later n)
  rw [count, count, hdocuments]

theorem count_cons (c : Compiler) (q : Request) (requests : List Request) :
    c.count (q :: requests) = (c.documents q).length + c.count requests := by
  rw [count, List.flatMap_cons, List.length_append, count]

/-- A call finds the compiler as the documents of the calls before have left it. -/
theorem session_eq (c : Compiler) (requests : List Request) : c.session requests =
    requests.mapIdx fun i q => ((c.later (c.count (requests.take i))).answer q).1 := by
  induction requests generalizing c with
  | nil => rfl
  | cons q qs ih =>
    have hstep (i : Nat) : (c.later (c.documents q).length).later
        ((c.later (c.documents q).length).count (qs.take i)) =
          c.later (c.count ((q :: qs).take (i + 1))) := by
      rw [count_later, later_later, List.take_succ_cons, count_cons]
    have hfirst : c.later (c.count ((q :: qs).take 0)) = c := c.later_zero
    rw [session, answer_snd, ih, List.mapIdx_cons, hfirst]
    simp only [hstep]

/-! ### The sections of a document -/

/-- The sections that a document gives when it is compiled with the given number. -/
def sectionsOf (c : Compiler) (k : UInt32) (root : Element) : List Section :=
  match (c.compileAs k root).result with
  | .error _ => []
  | .ok o => o.intermediate.sections

/-- The sections that documents give which are compiled one after another. -/
def contributions (c : Compiler) : List Element → List (List Section)
  | [] => []
  | root :: roots => c.sectionsOf c.next root :: (c.later 1).contributions roots

/-- The sections of a document have its number, since giving them this number changes nothing. -/
theorem compilation_of_mem_sectionsOf {c : Compiler} {k : UInt32} {root : Element} {s : Section}
    (hs : s ∈ c.sectionsOf k root) : s.compilation = k := by
  have hsame := congrArg Outcome.result (c.compileAs_renumber (fun _ => k) k root)
  unfold sectionsOf at hs
  simp only [Outcome.renumber] at hsame
  cases hr : (c.compileAs k root).result with
  | error h => simp [hr] at hs
  | ok o =>
    simp only [hr] at hs
    rw [hr, Except.map, Except.ok.injEq] at hsame
    rw [hsame] at hs
    obtain ⟨t, -, rfl⟩ := List.mem_map.mp hs
    rfl

theorem contributions_append (c : Compiler) (roots roots' : List Element) :
    c.contributions (roots ++ roots') =
      c.contributions roots ++ (c.later roots.length).contributions roots' := by
  induction roots generalizing c with
  | nil =>
    rw [List.nil_append, contributions, List.nil_append, List.length_nil, later_zero]
  | cons root roots ih =>
    rw [List.cons_append, contributions, contributions, ih, later_later, List.cons_append,
      List.length_cons, Nat.add_comm]

theorem length_contributions (c : Compiler) (roots : List Element) :
    (c.contributions roots).length = roots.length := by
  induction roots generalizing c with
  | nil => rfl
  | cons root roots ih => rw [contributions, List.length_cons, ih, List.length_cons]

/-- The number of a section tells how many documents were started before. -/
theorem exists_number_of_mem_contributions {c : Compiler} {roots : List Element} {xs : List Section}
    (hxs : xs ∈ c.contributions roots) {s : Section} (hs : s ∈ xs) :
    ∃ n < roots.length, s.compilation = (c.later n).next := by
  induction roots generalizing c with
  | nil => cases hxs
  | cons root roots ih =>
    rcases List.mem_cons.mp hxs with rfl | hxs
    · exact ⟨0, Nat.zero_lt_succ _, by rw [later_zero, compilation_of_mem_sectionsOf hs]⟩
    · obtain ⟨n, hn, hnumber⟩ := ih hxs
      exact ⟨1 + n, by rw [List.length_cons]; omega, by rw [hnumber, later_later]⟩

/-- The numbers do not start again before `2 ^ 32` documents were started. -/
theorem next_ne_next_later (c : Compiler) {n : Nat} (h : n + 1 < 2 ^ 32) :
    c.next ≠ (c.later (1 + n)).next := by
  intro heq
  have hzero : UInt32.ofNat (1 + n) = 0 := by
    have hsum : c.next + 0 = c.next + .ofNat (1 + n) := by rw [UInt32.add_zero]; exact heq
    exact ((UInt32.add_right_inj c.next).mp hsum).symm
  have hnat := congrArg UInt32.toNat hzero
  rw [UInt32.toNat_ofNat', Nat.mod_eq_of_lt (by omega)] at hnat
  have : 1 + n = 0 := hnat
  omega

/-- **The sections of different documents have different numbers**, if there are no more documents than
numbers. -/
theorem pairwise_contributions (c : Compiler) {roots : List Element} (h : roots.length ≤ 2 ^ 32) :
    (c.contributions roots).Pairwise fun xs ys =>
      ∀ x ∈ xs, ∀ y ∈ ys, x.compilation ≠ y.compilation := by
  induction roots generalizing c with
  | nil => exact .nil
  | cons root roots ih =>
    rw [List.length_cons] at h
    rw [contributions, List.pairwise_cons]
    refine ⟨?_, ih (c.later 1) (by omega)⟩
    intro ys hys x hx y hy
    obtain ⟨n, hn, hnumber⟩ := exists_number_of_mem_contributions hys hy
    rw [compilation_of_mem_sectionsOf hx, hnumber, later_later]
    exact c.next_ne_next_later (by omega)

/-- Documents that are compiled together give the sections of each of them. -/
theorem sections_compileEach {c : Compiler} {roots : List Element} {o : Output}
    (h : (c.compileEach roots).1.result = .ok o) :
    o.intermediate.sections = (c.contributions (c.started roots)).flatten := by
  induction roots generalizing c o with
  | nil => cases h; rfl
  | cons root roots ih =>
    have hcompile : c.compile root = (c.compileAs c.next root, c.later 1) := rfl
    rw [compileEach, hcompile] at h
    cases hr : (c.compileAs c.next root).result with
    | error e => simp [hr] at h
    | ok first =>
      simp only [hr] at h
      cases hrest : ((c.later 1).compileEach roots).1.result with
      | error e => simp [hrest, Except.map] at h
      | ok rest =>
        simp only [hrest, Except.map, Except.ok.injEq] at h
        have hsections : c.sectionsOf c.next root = first.intermediate.sections := by
          rw [sectionsOf, hr]
        rw [started_cons_of_ok hr, contributions, List.flatten_cons, hsections, ← started_later,
          ← ih hrest, ← h]
        rfl

theorem sections_settle (o : Output) : o.settle.intermediate.sections =
    if o.settle.isSuccess then o.intermediate.sections else [] := by
  have hsuccess : o.settle.isSuccess = o.isSuccess := by
    rw [Output.isSuccess, Output.diagnostics_settle, Output.isSuccess]
  rw [hsuccess]
  unfold Output.settle
  split_ifs <;> rfl

/-- A call that succeeds gives the sections of its documents, and one that fails gives none. -/
theorem sections_answer {c : Compiler} {q : Request} {o : Output}
    (h : (c.answer q).1.result = .ok o) : o.intermediate.sections =
      if o.isSuccess then (c.contributions (c.documents q)).flatten else [] := by
  cases q with
  | single root =>
    have hcompile : (c.compileAs c.next root).result = .ok o := h
    have hsections : c.contributions (c.documents (.single root)) = [o.intermediate.sections] := by
      rw [documents, contributions, sectionsOf, hcompile]
      rfl
    obtain ⟨-, hsettle⟩ := Run.result_eq_ok_iff.mp hcompile
    have hself : o.settle = o := by rw [← hsettle, Output.settle_settle]
    rw [hsections, List.flatten_singleton]
    nth_rewrite 1 [← hself]
    rw [sections_settle, hself]
  | together roots =>
    have hall : (c.compileEach roots).1.result.map (·.settle) = .ok o := h
    cases heach : (c.compileEach roots).1.result with
    | error e => simp [heach, Except.map] at hall
    | ok each =>
      rw [heach, Except.map, Except.ok.injEq] at hall
      rw [documents, ← sections_compileEach heach, ← hall, sections_settle]

/-! ### Sessions -/

/-- What the calls of a session have to do with each other. -/
structure Isolated (c : Compiler) (requests : List Request) : Prop where
  /-- A call gives what it gives on a fresh compiler, with the numbers of the documents moved up by
  that of the documents before. -/
  outcomes : c.session requests = requests.mapIdx fun i q =>
    (c.fresh.answer q).1.renumber (· + (c.next + .ofNat (c.count (requests.take i))))
  /-- The sections of an output are those that its own documents contribute. -/
  sections : ∀ i q x o, requests[i]? = some q → (c.session requests)[i]? = some x →
    x.result = .ok o → o.intermediate.sections =
      if o.isSuccess then
        (((c.contributions (requests.flatMap c.documents)).drop (c.count (requests.take i))).take
          (c.documents q).length).flatten
      else []
  /-- The sections of different documents have different numbers, if there are no more documents than
  numbers. -/
  numbers : c.count requests ≤ 2 ^ 32 →
    (c.contributions (requests.flatMap c.documents)).Pairwise fun xs ys =>
      ∀ x ∈ xs, ∀ y ∈ ys, x.compilation ≠ y.compilation

/-- What the documents of one call contribute is a part of what all documents contribute. -/
theorem contributions_getElem? (c : Compiler) {requests : List Request} {i : Nat} {q : Request}
    (hq : requests[i]? = some q) :
    ((c.contributions (requests.flatMap c.documents)).drop (c.count (requests.take i))).take
      (c.documents q).length = (c.later (c.count (requests.take i))).contributions (c.documents q) := by
  obtain ⟨hi, rfl⟩ := List.getElem?_eq_some_iff.mp hq
  have hsplit : requests.flatMap c.documents = (requests.take i).flatMap c.documents ++
      (c.documents requests[i] ++ (requests.drop (i + 1)).flatMap c.documents) := by
    rw [← List.flatMap_cons, ← List.flatMap_append, ← List.drop_eq_getElem_cons hi,
      List.take_append_drop]
  have hcount : (c.contributions ((requests.take i).flatMap c.documents)).length =
      c.count (requests.take i) := c.length_contributions _
  rw [hsplit, contributions_append, List.drop_left' hcount, contributions_append, List.take_left']
  · rfl
  · exact length_contributions _ _

/-- **Compiles are isolated**: no call of a session, whether it succeeds, fails or stops at a document that is
nested too deeply, leaves anything for the calls after it but the number of the next document. -/
theorem session_isolated (c : Compiler) (requests : List Request) : c.Isolated requests where
  outcomes := by
    have hfresh : c = c.fresh.later c.next.toNat := by simp [fresh, later]
    have hcall (n : Nat) (q : Request) :
        ((c.later n).answer q).1 = (c.fresh.answer q).1.renumber (· + (c.next + .ofNat n)) := by
      have hmoved := c.fresh.answer_later (c.next.toNat + n) q
      rwa [← later_later, ← hfresh, UInt32.ofNat_add, UInt32.ofNat_toNat] at hmoved
    rw [session_eq]
    simp only [hcall]
  sections i q x o hq hx ho := by
    have hcall : x = ((c.later (c.count (requests.take i))).answer q).1 := by
      rw [session_eq, List.getElem?_mapIdx, hq, Option.map_some, Option.some.injEq] at hx
      exact hx.symm
    rw [hcall] at ho
    rw [sections_answer ho, documents_later, contributions_getElem? c hq]
  numbers hcount := c.pairwise_contributions hcount

end Compiler

/-- A session in which the numbers start again after its first document. -/
theorem session_isolated_wrapping :
    let c : Compiler := { next := 4294967295 }
    let requests : List Request := [.single Sample.note, .together [Sample.note, Sample.note]]
    (c.contributions (requests.flatMap c.documents)).map (·.map (·.compilation)) =
        [[4294967295], [0], [1]] ∧
      (c.contributions (requests.flatMap c.documents)).Pairwise fun xs ys =>
        ∀ x ∈ xs, ∀ y ∈ ys, x.compilation ≠ y.compilation :=
  ⟨by decide +kernel, (Compiler.session_isolated _ _).numbers (by decide +kernel)⟩

end Installer
