import Installer.Json
import Mathlib

/-! # The texts of JSON values

The text of a value tells the value (`Json.render_injective`). Where a value stands in a text and what
it is can be seen from left to right: its first character tells its form (`Json.Form`), a string
ends at the first quote that is not escaped, and a number ends where the digits end, since
values are followed by a comma, the end of a line or nothing. -/

namespace Installer.Json

/-! ### Strings -/

/-- The first character of a string that is written with escapes, and the rest. -/
def readChar : List Char → Option (Char × List Char)
  | '\\' :: '"' :: r => some ('"', r)
  | '\\' :: '\\' :: r => some ('\\', r)
  | '\\' :: 'n' :: r => some ('\n', r)
  | '\\' :: 'r' :: r => some ('\r', r)
  | '\\' :: 't' :: r => some ('\t', r)
  | '\\' :: 'b' :: r => some (Char.ofNat 8, r)
  | '\\' :: 'f' :: r => some (Char.ofNat 12, r)
  | '\\' :: 'u' :: r => (Text.natural? 16 (r.take 4)).map fun n => (Char.ofNat n, r.drop 4)
  | c :: r => some (c, r)
  | [] => none

theorem natural?_hexDigits {n : Nat} (h : n < 0x20) :
    Text.natural? 16 (Text.hexDigits 4 n) = some n := by
  have hall : ∀ n < 0x20, Text.natural? 16 (Text.hexDigits 4 n) = some n := by decide
  exact hall n h

theorem readChar_of_ne {c : Char} (h : c ≠ '\\') (r : List Char) :
    readChar (c :: r) = some (c, r) := by
  unfold readChar
  split <;> simp_all

/-- An escaped character is read back. -/
theorem readChar_escapeChar (c : Char) (r : List Char) :
    readChar (escapeChar c ++ r) = some (c, r) := by
  unfold escapeChar
  split_ifs with hquote hslash hn hr ht hb hf hcontrol
  · subst hquote; rfl
  · subst hslash; rfl
  · subst hn; rfl
  · subst hr; rfl
  · subst ht; rfl
  · subst hb; rfl
  · subst hf; rfl
  · have hlength : (Text.hexDigits 4 c.toNat).length = 4 := Text.length_hexDigits 4 c.toNat
    simp only [List.cons_append, readChar]
    rw [List.take_left' hlength, List.drop_left' hlength, natural?_hexDigits hcontrol]
    simp
  · exact readChar_of_ne hslash r

/-- An escaped character does not look like the end of the string. -/
theorem escapeChar_append_ne (c : Char) (r r' : List Char) :
    escapeChar c ++ r ≠ '"' :: r' := by
  unfold escapeChar
  split_ifs with hquote <;> simp_all

/-- The characters of a string and what follows it can be told apart. -/
theorem flatMap_escapeChar_inj {cs ds r r' : List Char}
    (h : cs.flatMap escapeChar ++ '"' :: r = ds.flatMap escapeChar ++ '"' :: r') :
    cs = ds ∧ r = r' := by
  induction cs generalizing ds with
  | nil =>
    cases ds with
    | nil => exact ⟨rfl, (List.cons.inj h).2⟩
    | cons d ds =>
      rw [List.flatMap_cons, List.append_assoc] at h
      exact absurd h.symm (escapeChar_append_ne d _ _)
  | cons c cs ih =>
    cases ds with
    | nil =>
      rw [List.flatMap_cons, List.append_assoc] at h
      exact absurd h (escapeChar_append_ne c _ _)
    | cons d ds =>
      rw [List.flatMap_cons, List.flatMap_cons, List.append_assoc, List.append_assoc] at h
      have hread := congrArg readChar h
      rw [readChar_escapeChar, readChar_escapeChar] at hread
      obtain ⟨rfl, hrest⟩ := Prod.mk.inj (Option.some.inj hread)
      obtain ⟨rfl, hr⟩ := ih hrest
      exact ⟨rfl, hr⟩

theorem quote_append_inj {s t : String} {r r' : List Char} (h : quote s ++ r = quote t ++ r') :
    s = t ∧ r = r' := by
  simp only [quote, List.cons_append, List.append_assoc, List.nil_append, List.cons.injEq,
    true_and] at h
  obtain ⟨hs, hr⟩ := flatMap_escapeChar_inj h
  exact ⟨String.toList_inj.mp hs, hr⟩

/-! ### Numbers -/

/-- The characters that numbers are written with. -/
def isNumeral (c : Char) : Bool := c.isDigit || c == '-'

/-- A text that does not go on with a number. -/
def Ends (r : List Char) : Prop := ∀ c ∈ r.head?, isNumeral c = false

@[simp] theorem ends_nil : Ends [] := by simp [Ends]

@[simp] theorem ends_cons {c : Char} {r : List Char} : Ends (c :: r) ↔ isNumeral c = false := by
  simp [Ends]

/-- Runs of items of a class, such as characters, can be told from what follows them. -/
theorem append_inj_of_all {α : Type} {p : α → Bool} {l l' r r' : List α} (hl : ∀ c ∈ l, p c)
    (hl' : ∀ c ∈ l', p c) (hr : ∀ c ∈ r.head?, p c = false) (hr' : ∀ c ∈ r'.head?, p c = false)
    (h : l ++ r = l' ++ r') : l = l' ∧ r = r' := by
  have htake : ∀ {l r : List α}, (∀ c ∈ l, p c) → (∀ c ∈ r.head?, p c = false) →
      (l ++ r).takeWhile p = l := by
    intro l r hl hr
    rw [List.takeWhile_append_of_pos hl]
    cases r with
    | nil => simp
    | cons c r => rw [List.takeWhile_cons_of_neg (by simpa using hr c rfl), List.append_nil]
  have heq : l = l' := by rw [← htake hl hr, h, htake hl' hr']
  subst heq
  exact ⟨rfl, List.append_cancel_left h⟩

theorem isNumeral_of_mem {n : Int} {c : Char} (h : c ∈ (toString n).toList) : isNumeral c := by
  have hdigits : ∀ m : Nat, ∀ c ∈ m.repr.toList, c.isDigit := by
    intro m c hc
    rw [Nat.repr_eq_ofList_toDigits, String.toList_ofList] at hc
    exact Nat.isDigit_of_mem_toDigits (by decide) (by decide) hc
  change c ∈ n.repr.toList at h
  rw [Int.repr_eq_if] at h
  unfold isNumeral
  split_ifs at h
  · rw [hdigits _ c h]
    rfl
  · rw [String.toList_append, List.mem_append] at h
    rcases h with h | h
    · rw [List.mem_singleton.mp h]
      rfl
    · rw [hdigits _ c h]
      rfl

theorem toList_toString_ne_nil (n : Int) : (toString n).toList ≠ [] := by
  change n.repr.toList ≠ []
  rw [Int.repr_eq_if]
  split_ifs
  · rw [Ne, String.toList_eq_nil_iff]
    exact Nat.repr_ne_empty
  · simp

theorem number_append_inj {m n : Int} {r r' : List Char} (hr : Ends r) (hr' : Ends r')
    (h : (toString m).toList ++ r = (toString n).toList ++ r') : m = n ∧ r = r' := by
  obtain ⟨hn, hrest⟩ :=
    append_inj_of_all (fun _ => isNumeral_of_mem) (fun _ => isNumeral_of_mem) hr hr' h
  exact ⟨Int.repr_injective (String.toList_inj.mp hn), hrest⟩

/-! ### Forms of values -/

/-- The forms of values, as their first characters tell them. -/
inductive Form where
  | null
  | bool
  | number
  | text
  | list
  | record

def form : Json → Form
  | null => .null
  | bool _ => .bool
  | number _ => .number
  | text _ => .text
  | list _ => .list
  | record _ => .record

/-- The form of the values that start with a character. -/
def Form.ofLead (c : Char) : Form :=
  if c = 'n' then null
  else if c = 't' ∨ c = 'f' then bool
  else if c = '"' then text
  else if c = '[' then list
  else if c = '{' then record
  else number

theorem Form.ofLead_of_isNumeral {c : Char} (h : isNumeral c) : ofLead c = number := by
  have hne : ∀ d, isNumeral d = false → c ≠ d := by
    rintro d hd rfl
    rw [h] at hd
    cases hd
  have hn := hne 'n' (by decide)
  have ht := hne 't' (by decide)
  have hf := hne 'f' (by decide)
  have hquote := hne '"' (by decide)
  have hlist := hne '[' (by decide)
  have hrecord := hne '{' (by decide)
  simp [ofLead, hn, ht, hf, hquote, hlist, hrecord]

/-! ### Blocks -/

/-- The entries of a list or record behind its opening bracket, up to the closing one: nothing but
the bracket if there are none, otherwise one entry a line with commas between them. -/
def block {α : Type} (level : Nat) (write : α → List Char) (close : Char) : List α → List Char
  | [] => [close]
  | x :: xs =>
    newLine (level + 1) ++ (write x ++
      (xs.flatMap (fun y => ',' :: (newLine (level + 1) ++ write y)) ++ (newLine level ++ [close])))

/-- A member of a record. -/
def prettyMember (level : Nat) (member : String × Json) : List Char :=
  quote member.1 ++ ':' :: ' ' :: pretty level member.2

theorem prettyItems_cons (level : Nat) (item : Json) (items : List Json) :
    prettyItems level (item :: items) = newLine level ++ (pretty level item ++
      items.flatMap fun y => ',' :: (newLine level ++ pretty level y)) := by
  induction items generalizing item with
  | nil => simp [prettyItems]
  | cons next items ih => simp [prettyItems, ih next]

theorem prettyMembers_cons (level : Nat) (member : String × Json)
    (members : List (String × Json)) :
    prettyMembers level (member :: members) = newLine level ++ (prettyMember level member ++
      members.flatMap fun y => ',' :: (newLine level ++ prettyMember level y)) := by
  induction members generalizing member with
  | nil => simp [prettyMembers, prettyMember]
  | cons next members ih => simp [prettyMembers, prettyMember, ih next]

theorem pretty_list (level : Nat) (items : List Json) :
    pretty level (list items) = '[' :: block level (pretty (level + 1)) ']' items := by
  cases items with
  | nil => simp [pretty, block]
  | cons item items => simp [pretty, prettyItems_cons, block]

theorem pretty_record (level : Nat) (members : List (String × Json)) :
    pretty level (record members) = '{' :: block level (prettyMember (level + 1)) '}' members := by
  cases members with
  | nil => simp [pretty, block]
  | cons member members => simp [pretty, prettyMembers_cons, block]

/-- The writer tells the entry `x` from other entries, and where its text ends. -/
def Tells {α : Type} (write : α → List Char) (x : α) : Prop :=
  ∀ (y : α) (r r' : List Char), Ends r → Ends r' → write x ++ r = write y ++ r' → x = y ∧ r = r'

section Blocks
variable {α : Type} {write : α → List Char} {level : Nat}

theorem ends_lines (level' : Nat) (xs : List α) (r : List Char) :
    Ends (xs.flatMap (fun y => ',' :: (newLine level ++ write y)) ++ (newLine level' ++ r)) := by
  cases xs <;> simp [newLine, isNumeral]

/-- The entries behind the first one and what follows them can be told apart. -/
theorem lines_inj {level' : Nat} {xs ys : List α} (hxs : ∀ x ∈ xs, Tells write x)
    {r r' : List Char}
    (h : xs.flatMap (fun y => ',' :: (newLine level ++ write y)) ++ (newLine level' ++ r) =
      ys.flatMap (fun y => ',' :: (newLine level ++ write y)) ++ (newLine level' ++ r')) :
    xs = ys ∧ r = r' := by
  induction xs generalizing ys with
  | nil =>
    cases ys with
    | nil => exact ⟨rfl, by simpa using h⟩
    | cons y ys => simp [newLine] at h
  | cons x xs ih =>
    obtain ⟨hx, hrest⟩ := List.forall_mem_cons.mp hxs
    cases ys with
    | nil => simp [newLine] at h
    | cons y ys =>
      simp only [List.flatMap_cons, List.cons_append, List.append_assoc, List.cons.injEq, true_and,
        List.append_cancel_left_eq] at h
      obtain ⟨rfl, htail⟩ := hx y _ _ (ends_lines _ _ _) (ends_lines _ _ _) h
      obtain ⟨rfl, hr⟩ := ih hrest htail
      exact ⟨rfl, hr⟩

/-- The entries of a list or record and what follows its closing bracket can be told apart. -/
theorem block_append_inj {close : Char} (hclose : close ≠ '\n') {xs ys : List α}
    (hxs : ∀ x ∈ xs, Tells write x) {r r' : List Char}
    (h : block level write close xs ++ r = block level write close ys ++ r') :
    xs = ys ∧ r = r' := by
  cases xs with
  | nil =>
    cases ys with
    | nil => exact ⟨rfl, by simpa [block] using h⟩
    | cons y ys =>
      simp only [block, newLine, List.cons_append, List.cons.injEq] at h
      exact absurd h.1 hclose
  | cons x xs =>
    obtain ⟨hx, hrest⟩ := List.forall_mem_cons.mp hxs
    cases ys with
    | nil =>
      simp only [block, newLine, List.cons_append, List.cons.injEq] at h
      exact absurd h.1.symm hclose
    | cons y ys =>
      simp only [block, List.append_assoc, List.append_cancel_left_eq] at h
      obtain ⟨rfl, htail⟩ := hx y _ _ (ends_lines _ _ _) (ends_lines _ _ _) h
      obtain ⟨rfl, hr⟩ := lines_inj hrest htail
      exact ⟨rfl, (List.cons.inj hr).2⟩

end Blocks

/-! ### Values -/

/-- The first character of a value tells its form. -/
theorem exists_lead (level : Nat) (a : Json) :
    ∃ c cs, pretty level a = c :: cs ∧ Form.ofLead c = a.form := by
  cases a with
  | null => exact ⟨'n', _, by rw [pretty]; rfl, rfl⟩
  | bool b =>
    cases b with
    | true => exact ⟨'t', _, by rw [pretty]; rfl, rfl⟩
    | false => exact ⟨'f', _, by rw [pretty]; rfl, rfl⟩
  | number n =>
    obtain ⟨c, cs, hn⟩ := List.exists_cons_of_ne_nil (toList_toString_ne_nil n)
    have hc : isNumeral c := isNumeral_of_mem (hn ▸ List.mem_cons_self)
    exact ⟨c, cs, by rw [pretty, hn], Form.ofLead_of_isNumeral hc⟩
  | text s => exact ⟨'"', _, by rw [pretty, quote]; rfl, rfl⟩
  | list items => exact ⟨'[', _, pretty_list level items, rfl⟩
  | record members => exact ⟨'{', _, pretty_record level members, rfl⟩

theorem form_eq_of_append_eq {level : Nat} {a b : Json} {r r' : List Char}
    (h : pretty level a ++ r = pretty level b ++ r') : a.form = b.form := by
  obtain ⟨c, cs, ha, hc⟩ := exists_lead level a
  obtain ⟨d, ds, hb, hd⟩ := exists_lead level b
  rw [ha, hb, List.cons_append, List.cons_append] at h
  rw [← hc, ← hd, (List.cons.inj h).1]

/-- Induction on values: what holds of a list or record if it holds of what is inside of it holds
of all values. -/
theorem induct {P : Json → Prop} (hnull : P null) (hbool : ∀ b, P (bool b))
    (hnumber : ∀ n, P (number n)) (htext : ∀ s, P (text s))
    (hlist : ∀ items, (∀ a ∈ items, P a) → P (list items))
    (hrecord : ∀ members, (∀ m ∈ members, P m.2) → P (record members)) : ∀ a, P a
  | null => hnull
  | bool b => hbool b
  | number n => hnumber n
  | text s => htext s
  | list items =>
    hlist items fun a _ => induct hnull hbool hnumber htext hlist hrecord a
  | record members =>
    hrecord members fun m hm =>
      have := List.sizeOf_lt_of_mem hm
      have : sizeOf m = 1 + sizeOf m.1 + sizeOf m.2 := rfl
      induct hnull hbool hnumber htext hlist hrecord m.2

theorem tells_prettyMember {level : Nat} {member : String × Json}
    (h : Tells (pretty level) member.2) : Tells (prettyMember level) member := by
  intro other r r' hr hr' heq
  simp only [prettyMember, List.append_assoc, List.cons_append] at heq
  obtain ⟨hname, htail⟩ := quote_append_inj heq
  simp only [List.cons.injEq, true_and] at htail
  obtain ⟨hvalue, hrest⟩ := h other.2 r r' hr hr' htail
  exact ⟨Prod.ext hname hvalue, hrest⟩

/-- The text of a value tells the value, and where it ends. -/
theorem tells_pretty (level : Nat) (a : Json) : Tells (pretty level) a := by
  induction a using induct generalizing level with
  | hnull =>
    intro b r r' _ _ h
    have hform := form_eq_of_append_eq h
    cases b with
    | null => exact ⟨rfl, List.append_cancel_left h⟩
    | _ => cases hform
  | hbool a =>
    intro b r r' _ _ h
    have hform := form_eq_of_append_eq h
    cases b with
    | bool b => cases a <;> cases b <;> simp_all [pretty]
    | _ => cases hform
  | hnumber m =>
    intro b r r' hr hr' h
    have hform := form_eq_of_append_eq h
    cases b with
    | number n =>
      obtain ⟨rfl, hrest⟩ := number_append_inj hr hr' (by simpa only [pretty] using h)
      exact ⟨rfl, hrest⟩
    | _ => cases hform
  | htext s =>
    intro b r r' _ _ h
    have hform := form_eq_of_append_eq h
    cases b with
    | text t =>
      obtain ⟨rfl, hrest⟩ := quote_append_inj (by simpa only [pretty] using h)
      exact ⟨rfl, hrest⟩
    | _ => cases hform
  | hlist items ih =>
    intro b r r' _ _ h
    have hform := form_eq_of_append_eq h
    cases b with
    | list items' =>
      rw [pretty_list, pretty_list, List.cons_append, List.cons_append] at h
      obtain ⟨rfl, hrest⟩ :=
        block_append_inj (by decide) (fun a ha => ih a ha (level + 1)) (List.cons.inj h).2
      exact ⟨rfl, hrest⟩
    | _ => cases hform
  | hrecord members ih =>
    intro b r r' _ _ h
    have hform := form_eq_of_append_eq h
    cases b with
    | record members' =>
      rw [pretty_record, pretty_record, List.cons_append, List.cons_append] at h
      obtain ⟨rfl, hrest⟩ := block_append_inj (by decide)
        (fun m hm => tells_prettyMember (ih m hm (level + 1))) (List.cons.inj h).2
      exact ⟨rfl, hrest⟩
    | _ => cases hform

/-- **Values with the same text are equal.** -/
theorem render_injective : Function.Injective render := by
  intro a b h
  have htext : pretty 0 a = pretty 0 b := String.ofList_injective h
  exact (tells_pretty 0 a b [] [] ends_nil ends_nil (by rw [htext])).1

end Installer.Json
