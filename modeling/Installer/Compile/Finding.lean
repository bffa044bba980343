import Installer.Document

/-! # Findings

The diagnostics about elements and their attributes that the rules of the language give rise to. -/

namespace Installer.Element

/-- An attribute of an element, as messages name it. -/
def qualify (e : Element) (name : String) : String := e.name ++ "/@" ++ name

/-- A child of an element, as messages name it. -/
def qualifyChild (e : Element) (child : String) : String := e.name ++ "/" ++ child

def missingAttribute (e : Element) (name : String) : Diagnostic :=
  .of .missingRequiredAttribute e.range (e.qualify name) [e.name, name]

/-- The findings about attributes that have to be there. -/
def missingAttributes (e : Element) (names : List String) : List Diagnostic :=
  (names.filter (!e.has ·)).map e.missingAttribute

def unexpectedAttribute (e : Element) (a : Attribute) : Diagnostic :=
  .of .unexpectedAttribute a.range (e.qualify a.name) [e.name, a.name]

def unexpectedElement (parent child : Element) : Diagnostic :=
  .of .unexpectedElement child.range (parent.qualifyChild child.name) [parent.name, child.name]

/-- A child that may appear only once appears again; the first one is pointed out too. -/
def tooManyChildren (parent child : Element) : Diagnostic :=
  .of .tooManyChildren child.range (parent.qualifyChild child.name) [parent.name, child.name]
    ((parent.children.find? (·.qname == child.qname)).toList.map fun earlier =>
      ⟨"first one here", earlier.range⟩)

/-- Two attributes that cannot appear together. The second one is the place of the finding. -/
def mutuallyExclusive (e : Element) (first second : String) : Diagnostic :=
  .of .mutuallyExclusive (((e.attribute? second).map (·.range)).getD e.range)
    ("`" ++ e.qualify first ++ "` and `" ++ e.qualify second ++ "`") [e.name, first, second]
    ((e.attribute? first).toList.map fun a => ⟨"`" ++ first ++ "` is set here", a.range⟩)

/-- A value outside of a list of legal ones. -/
def illegalValue (e : Element) (a : Attribute) (legal : List String) : Diagnostic :=
  .of .illegalAttributeValue a.range
    ("`" ++ e.qualify a.name ++ "` is `" ++ a.value ++ "`; expected one of: " ++
      ", ".intercalate legal)
    ([e.name, a.name, a.value] ++ legal)

/-- A value that is illegal for the given reason. -/
def illegalValueBecause (e : Element) (a : Attribute) (reason : String) : Diagnostic :=
  .of .illegalAttributeValue a.range ("`" ++ e.qualify a.name ++ "` is `" ++ a.value ++ "`; " ++ reason)
    [e.name, a.name, a.value]

def illegalEmpty (e : Element) (a : Attribute) : Diagnostic :=
  .of .illegalEmptyAttributeValue a.range (e.qualify a.name) [e.name, a.name]

def illegalIdentifier (e : Element) (a : Attribute) : Diagnostic :=
  let value := Text.trimmed a.value
  .of .illegalIdentifier a.range value [e.name, a.name, value]

def reservedValue (e : Element) (a : Attribute) : Diagnostic :=
  let value := Text.trimmed a.value
  .of .reservedValue a.range value [e.name, a.name, value]

/-- None of the attributes of which one has to be there. -/
def expectedAttributes (e : Element) (names : List String) : Diagnostic :=
  .of .expectedAttributes e.range
    ("`" ++ e.name ++ "` needs one of " ++ ", ".intercalate (names.map fun n => "`" ++ n ++ "`"))
    (e.name :: names)

/-- Neither the attribute nor the child of which one has to be there. -/
def expectedAttributeOrElement (e : Element) (name child : String) : Diagnostic :=
  .of .expectedAttributeOrElement e.range
    ("`" ++ e.qualify name ++ "` or a `" ++ child ++ "` child") [e.name, name, child]

/-- A child that cannot appear together with an attribute. -/
def elementWithAttribute (e child : Element) (name : String) : Diagnostic :=
  .of .unexpectedElementWithAttribute child.range
    ("`" ++ child.name ++ "` cannot be combined with `" ++ e.qualify name ++ "`")
    [e.name, child.name, name]

def deprecatedAttribute (e : Element) (a : Attribute) (replacement : String) : Diagnostic :=
  .of .deprecatedConstruct a.range
    ("`" ++ e.qualify a.name ++ "` is deprecated; use `" ++ e.qualify replacement ++ "`")
    [e.name, a.name, replacement]

/-- No extension handled a foreign attribute. -/
def unhandledAttribute (e : Element) (a : Attribute) : Diagnostic :=
  .of .unhandledExtensionAttribute a.range a.qname.text [e.name, a.qname.text]

/-- No extension handled a foreign child. -/
def unhandledElement (parent child : Element) : Diagnostic :=
  .of .unhandledExtensionElement child.range child.qname.text [parent.name, child.qname.text]

end Installer.Element
