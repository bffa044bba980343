import Installer.Markup.Fault
import Installer.Text.Blank

/-! # Tokens of markup

A text is read as a sequence of tokens: character data, references, start and end tags, literal
sections, and pieces that are passed over (comments, instructions and declarations). `nextToken?`
takes the first token off a text and `tokens` reads them all, each with the bytes it covers. -/

namespace Installer.Markup

/-- Blanks inside of markup. -/
def isSpace (c : Char) : Bool := c == ' ' || c == '\t' || c == '\n' || c == '\r'

def isQuote (c : Char) : Bool := c == '"' || c == '\''

/-- A token. The content of a start tag is what stands between its brackets, without the slash of an
empty one. -/
inductive Token where
  | text (cs : List Char)
  | reference (name : List Char)
  | startTag (content : List Char) (empty : Bool)
  | endTag (name : List Char)
  | literal (cs : List Char)
  | aside
  deriving DecidableEq, Repr

/-! ### Ends of pieces -/

/-- The text up to the first `>` outside of quotes, and the text after it. `quote` is the quote that
is open. -/
def splitTag : Option Char → List Char → Except Fault (List Char × List Char)
  | none, [] => .error .openTag
  | some quote, [] => .error (.openValue quote)
  | none, c :: cs =>
    if c = '>' then .ok ([], cs)
    else
      (splitTag (if isQuote c then some c else none) cs).map fun r => (c :: r.1, r.2)
  | some quote, c :: cs =>
    (splitTag (if c = quote then none else some quote) cs).map fun r => (c :: r.1, r.2)

/-- The text up to the first `>` that closes the piece, and the text after it. Whether it does is
decided by the characters before it, the nearest first. -/
def splitClosed (closes : List Char → Bool) : List Char → List Char → Option (List Char × List Char)
  | _, [] => none
  | before, c :: cs =>
    if c = '>' && closes before then some ([], cs)
    else (splitClosed closes (c :: before) cs).map fun r => (c :: r.1, r.2)

/-- Where the end of a document type is looked for. -/
inductive DoctypeMode where
  | outer
  | outerQuoted (quote : Char)
  | subset
  | comment
  | instruction
  | declaration
  | declarationQuoted (quote : Char)
  | after
  deriving DecidableEq, Repr

/-- The part of a document type that the next character belongs to. -/
def DoctypeMode.step (mode : DoctypeMode) (before : List Char) (c : Char) (cs : List Char) :
    DoctypeMode :=
  match mode with
  | outer => if isQuote c then outerQuoted c else if c = '[' then subset else outer
  | outerQuoted quote => if c = quote then outer else mode
  | subset =>
    if c = ']' then after
    else if c = '<' then
      if ['!', '-', '-'].isPrefixOf cs then comment
      else if ['?'].isPrefixOf cs then instruction
      else declaration
    else subset
  | comment => if c = '>' && ['-', '-'].isPrefixOf before then subset else comment
  | instruction => if c = '>' && ['?'].isPrefixOf before then subset else instruction
  | declaration =>
    if c = '>' then subset else if isQuote c then declarationQuoted c else declaration
  | declarationQuoted quote => if c = quote then declaration else mode
  | after => after

/-- The text up to the `>` that ends a document type, and the text after it. -/
def splitDoctype : DoctypeMode → List Char → List Char → Option (List Char × List Char)
  | _, _, [] => none
  | mode, before, c :: cs =>
    if c = '>' && (mode = .outer || mode = .after) then some ([], cs)
    else (splitDoctype (mode.step before c cs) (c :: before) cs).map fun r => (c :: r.1, r.2)

/-! ### One token -/

/-- A token, the text after it and the number of bytes it covers. -/
structure Taken where
  token : Token
  size : Nat
  rest : List Char

/-- A token whose content stands between two brackets of one byte each. -/
def Taken.bracketed (token : Token) (content : List Char) (rest : List Char) : Taken :=
  ⟨token, Text.byteLength content + 2, rest⟩

def closesComment (before : List Char) : Bool :=
  ['-', '-'].isPrefixOf before && 5 ≤ before.length

def closesLiteral (before : List Char) : Bool := [']', ']'].isPrefixOf before

def closesInstruction (before : List Char) : Bool := ['?'].isPrefixOf before

/-- The token after `<` that starts with `!`. -/
def takeDeclaration (cs : List Char) : Except Fault Taken :=
  match cs with
  | '!' :: '-' :: _ =>
    match splitClosed closesComment [] cs with
    | some (content, rest) =>
      if "!--".toList.isPrefixOf content then .ok (.bracketed .aside content rest)
      else .error .openComment
    | none => .error .openComment
  | '!' :: '[' :: _ =>
    match splitClosed closesLiteral [] cs with
    | some (content, rest) =>
      if "![CDATA[".toList.isPrefixOf content then
        .ok (.bracketed (.literal (content.drop 8).dropLast.dropLast) content rest)
      else .error .openLiteral
    | none => .error .openLiteral
  | '!' :: d :: _ =>
    if d.toLower = 'd' then
      match splitDoctype .outer [] cs with
      | some (content, rest) =>
        if "!doctype".toList.isPrefixOf (content.map Char.toLower) then
          if (content.drop 8).all isSpace then .error .namelessDoctype
          else .ok (.bracketed .aside content rest)
        else .error .openDoctype
      | none => .error .openDoctype
    else .error .unknownMarkup
  | _ => .error .unknownMarkup

/-- Whether the text after `<` starts an XML declaration. -/
def startsDeclaration (cs : List Char) : Bool :=
  "?xml".toList.isPrefixOf cs &&
    match cs.drop 4 with
    | c :: _ => isSpace c || c == '?'
    | [] => false

/-- The token after `<` that starts with `?`. -/
def takeInstruction (cs : List Char) : Except Fault Taken :=
  match splitClosed closesInstruction [] cs with
  | some (content, rest) =>
    if content = ['?'] then .error .openInstruction else .ok (.bracketed .aside content rest)
  | none => .error (if startsDeclaration cs then .openDeclaration else .openInstruction)

/-- The name in an end tag: without the blanks after it, unless there is nothing else. -/
def endName (content : List Char) : List Char :=
  if content.all isSpace then content else (content.reverse.dropWhile isSpace).reverse

/-- The token after `<` that starts with `/`. -/
def takeEndTag (cs : List Char) : Except Fault Taken :=
  (splitTag none cs).map fun r => .bracketed (.endTag (endName (r.1.drop 1))) r.1 r.2

/-- The start tag after `<`. -/
def takeStartTag (cs : List Char) : Except Fault Taken :=
  (splitTag none cs).map fun r =>
    if r.1.getLast? = some '/' then .bracketed (.startTag r.1.dropLast true) r.1 r.2
    else .bracketed (.startTag r.1 false) r.1 r.2

/-- The token after `<`. -/
def takeMarkup (cs : List Char) : Except Fault Taken :=
  match cs with
  | '!' :: _ => takeDeclaration cs
  | '?' :: _ => takeInstruction cs
  | '/' :: _ => takeEndTag cs
  | _ => takeStartTag cs

def isNameEnd (c : Char) : Bool := c == ';' || c == '&' || c == '<'

/-- The reference after `&`. -/
def takeReference (cs : List Char) : Except Fault Taken :=
  let name := cs.takeWhile (!isNameEnd ·)
  match cs.dropWhile (!isNameEnd ·) with
  | ';' :: rest => .ok (.bracketed (.reference name) name rest)
  | _ => .error .openReference

def isData (c : Char) : Bool := c != '<' && c != '&'

/-- Take the first token off a text, if there is one. -/
def nextToken? : List Char → Option (Except Fault Taken)
  | [] => none
  | '<' :: cs => some (takeMarkup cs)
  | '&' :: cs => some (takeReference cs)
  | c :: cs =>
    let run := c :: cs.takeWhile isData
    some (.ok ⟨.text run, Text.byteLength run, cs.dropWhile isData⟩)

/-! ### Every token is shorter than the text -/

theorem length_splitTag {quote : Option Char} {cs : List Char} {r : List Char × List Char}
    (h : splitTag quote cs = .ok r) : r.2.length < cs.length := by
  induction cs generalizing quote r with
  | nil => cases quote <;> simp [splitTag] at h
  | cons c cs ih =>
    cases quote with
    | none =>
      rw [splitTag] at h
      split at h
      · cases h
        simp
      · cases hs : splitTag (if isQuote c then some c else none) cs with
        | error e => rw [hs] at h; cases h
        | ok s =>
          rw [hs] at h
          cases h
          have := ih hs
          simp only [List.length_cons]
          omega
    | some q =>
      rw [splitTag] at h
      cases hs : splitTag (if c = q then none else some q) cs with
      | error e => rw [hs] at h; cases h
      | ok s =>
        rw [hs] at h
        cases h
        have := ih hs
        simp only [List.length_cons]
        omega

theorem length_splitClosed {closes : List Char → Bool} {before cs : List Char}
    {r : List Char × List Char} (h : splitClosed closes before cs = some r) :
    r.2.length < cs.length := by
  induction cs generalizing before r with
  | nil => simp [splitClosed] at h
  | cons c cs ih =>
    rw [splitClosed] at h
    split at h
    · cases h
      simp
    · obtain ⟨s, hs, rfl⟩ := Option.map_eq_some_iff.mp h
      have := ih hs
      simp only [List.length_cons]
      omega

theorem length_splitDoctype {mode : DoctypeMode} {before cs : List Char}
    {r : List Char × List Char} (h : splitDoctype mode before cs = some r) :
    r.2.length < cs.length := by
  induction cs generalizing mode before r with
  | nil => simp [splitDoctype] at h
  | cons c cs ih =>
    rw [splitDoctype] at h
    split at h
    · cases h
      simp
    · obtain ⟨s, hs, rfl⟩ := Option.map_eq_some_iff.mp h
      have := ih hs
      simp only [List.length_cons]
      omega

theorem length_takeDeclaration {cs : List Char} {t : Taken} (h : takeDeclaration cs = .ok t) :
    t.rest.length < cs.length := by
  unfold takeDeclaration at h
  split at h
  · split at h
    · rename_i hs
      split at h
      · cases h
        exact length_splitClosed hs
      · cases h
    · cases h
  · split at h
    · rename_i hs
      split at h
      · cases h
        exact length_splitClosed hs
      · cases h
    · cases h
  · split at h
    · split at h
      · rename_i hs
        split at h
        · split at h
          · cases h
          · cases h
            exact length_splitDoctype hs
        · cases h
      · cases h
    · cases h
  · cases h

theorem length_takeInstruction {cs : List Char} {t : Taken} (h : takeInstruction cs = .ok t) :
    t.rest.length < cs.length := by
  unfold takeInstruction at h
  split at h
  · rename_i hs
    split at h
    · cases h
    · cases h
      exact length_splitClosed hs
  · cases h

theorem length_takeEndTag {cs : List Char} {t : Taken} (h : takeEndTag cs = .ok t) :
    t.rest.length < cs.length := by
  unfold takeEndTag at h
  cases hs : splitTag none cs with
  | error e => rw [hs] at h; cases h
  | ok r =>
    rw [hs] at h
    cases h
    exact length_splitTag hs

theorem length_takeStartTag {cs : List Char} {t : Taken} (h : takeStartTag cs = .ok t) :
    t.rest.length < cs.length := by
  unfold takeStartTag at h
  cases hs : splitTag none cs with
  | error e => rw [hs] at h; cases h
  | ok r =>
    rw [hs] at h
    simp only [Except.map, Except.ok.injEq] at h
    have := length_splitTag hs
    split at h <;> (subst h; exact this)

theorem length_takeReference {cs : List Char} {t : Taken} (h : takeReference cs = .ok t) :
    t.rest.length < cs.length := by
  simp only [takeReference] at h
  split at h
  · rename_i heq
    cases h
    have hd := congrArg List.length heq
    have := (List.dropWhile_sublist (!isNameEnd ·) (l := cs)).length_le
    simp only [Taken.bracketed, List.length_cons] at hd ⊢
    omega
  · cases h

/-- Taking a token off a text leaves a shorter text. -/
theorem length_nextToken? {cs : List Char} {t : Taken} (h : nextToken? cs = some (.ok t)) :
    t.rest.length < cs.length := by
  unfold nextToken? at h
  split at h
  · cases h
  · have h := Option.some.inj h
    unfold takeMarkup at h
    split at h
    · exact Nat.lt_trans (length_takeDeclaration h) (by simp)
    · exact Nat.lt_trans (length_takeInstruction h) (by simp)
    · exact Nat.lt_trans (length_takeEndTag h) (by simp)
    · exact Nat.lt_trans (length_takeStartTag h) (by simp)
  · exact Nat.lt_trans (length_takeReference (Option.some.inj h)) (by simp)
  · cases h
    have := (List.dropWhile_sublist isData (l := ‹List Char›)).length_le
    simp only [List.length_cons]
    omega

/-! ### All tokens -/

/-- A token and the bytes it covers. -/
structure PlacedToken where
  token : Token
  start : Nat
  stop : Nat

/-- The tokens of a text that starts at the byte `offset`. -/
def tokensFrom (offset : Nat) (cs : List Char) : Reading PlacedToken :=
  match h : nextToken? cs with
  | none => .done
  | some (.error fault) => .fail offset fault
  | some (.ok t) =>
    have := length_nextToken? h
    .cons ⟨t.token, offset, offset + t.size⟩ (tokensFrom (offset + t.size) t.rest)
termination_by cs.length

/-- The mark that may stand in front of a text. -/
def byteOrderMark : Char := Char.ofNat 0xFEFF

/-- The tokens of a text. A byte order mark in front is not part of it. -/
def tokens (cs : List Char) : Reading PlacedToken :=
  tokensFrom 0 (if cs.head? = some byteOrderMark then cs.tail else cs)

end Installer.Markup
