import Installer.Symbol.Choice

/-! # The records of bundles

What a bundle and the elements directly below it define: the bundle itself, its chain, its
bootstrapper application, its log, its updates, the bundles it is related to, its containers,
rollback boundaries, variables and dependency providers. -/

namespace Installer.Symbol

/-- Whether an installed bundle can be modified. -/
inductive DisableModify where
  | no
  | yes
  | button
  deriving DecidableEq, Repr

instance : Choice DisableModify where
  keyword
    | .no => "no"
    | .yes => "yes"
    | .button => "button"
  choices := [.yes, .no, .button]

structure Bundle where
  name : Option String
  version : String
  manufacturer : Option String
  upgradeCode : Option String
  condition : Option String
  compressed : Option Bool
  disableModify : DisableModify
  disableRemove : Bool
  aboutUrl : Option String
  helpUrl : Option String
  copyright : Option String
  parentName : Option String
  deriving DecidableEq, Repr

def Bundle.members (b : Bundle) : List (String × Json) := [
  ("name", toJson b.name),
  ("version", toJson b.version),
  ("manufacturer", toJson b.manufacturer),
  ("upgradeCode", toJson b.upgradeCode),
  ("condition", toJson b.condition),
  ("compressed", toJson b.compressed),
  ("disableModify", toJson b.disableModify),
  ("disableRemove", toJson b.disableRemove),
  ("aboutUrl", toJson b.aboutUrl),
  ("helpUrl", toJson b.helpUrl),
  ("copyright", toJson b.copyright),
  ("parentName", toJson b.parentName)]

structure Chain where
  disableRollback : Bool
  disableSystemRestore : Bool
  parallelCache : Bool
  deriving DecidableEq, Repr

def Chain.members (c : Chain) : List (String × Json) := [
  ("disableRollback", toJson c.disableRollback),
  ("disableSystemRestore", toJson c.disableSystemRestore),
  ("parallelCache", toJson c.parallelCache)]

structure BootstrapperApplication where
  sourceFile : Option String
  name : Option String
  deriving DecidableEq, Repr

def BootstrapperApplication.members (b : BootstrapperApplication) : List (String × Json) := [
  ("sourceFile", toJson b.sourceFile),
  ("name", toJson b.name)]

/-- What a related bundle is to this one. -/
inductive RelatedAction where
  | detect
  | upgrade
  | addon
  | patch
  deriving DecidableEq, Repr

instance : Choice RelatedAction where
  keyword
    | .detect => "detect"
    | .upgrade => "upgrade"
    | .addon => "addon"
    | .patch => "patch"
  choices := [.detect, .upgrade, .addon, .patch]

structure RelatedBundle where
  code : String
  action : RelatedAction
  deriving DecidableEq, Repr

def RelatedBundle.members (b : RelatedBundle) : List (String × Json) := [
  ("code", toJson b.code),
  ("action", toJson b.action)]

structure Log where
  pathVariable : Option String
  stem : String
  extension : String
  disabled : Bool
  deriving DecidableEq, Repr

def Log.members (l : Log) : List (String × Json) := [
  ("pathVariable", toJson l.pathVariable),
  ("prefix", toJson l.stem),
  ("extension", toJson l.extension),
  ("disabled", toJson l.disabled)]

structure Update where
  location : String
  deriving DecidableEq, Repr

def Update.members (u : Update) : List (String × Json) := [("location", toJson u.location)]

inductive ContainerType where
  | attached
  | detached
  deriving DecidableEq, Repr

instance : Choice ContainerType where
  keyword
    | .attached => "attached"
    | .detached => "detached"
  choices := [.attached, .detached]

structure Container where
  name : Option String
  containerType : ContainerType
  downloadUrl : Option String
  deriving DecidableEq, Repr

def Container.members (c : Container) : List (String × Json) := [
  ("name", toJson c.name),
  ("containerType", toJson c.containerType),
  ("downloadUrl", toJson c.downloadUrl)]

structure RollbackBoundary where
  vital : Bool
  transaction : Bool
  logPathVariable : Option String
  deriving DecidableEq, Repr

def RollbackBoundary.members (b : RollbackBoundary) : List (String × Json) := [
  ("vital", toJson b.vital),
  ("transaction", toJson b.transaction),
  ("logPathVariable", toJson b.logPathVariable)]

/-- The type of a variable. The type `unknown` is that of a variable without a value and cannot be
authored. -/
inductive VariableType where
  | formatted
  | numeric
  | string
  | version
  | unknown
  deriving DecidableEq, Repr

instance : Choice VariableType where
  keyword
    | .formatted => "formatted"
    | .numeric => "numeric"
    | .string => "string"
    | .version => "version"
    | .unknown => "unknown"
  choices := [.formatted, .numeric, .string, .version]

structure Variable where
  value : Option String
  variableType : VariableType
  hidden : Bool
  persisted : Bool
  deriving DecidableEq, Repr

def Variable.members (v : Variable) : List (String × Json) := [
  ("value", toJson v.value),
  ("variableType", toJson v.variableType),
  ("hidden", toJson v.hidden),
  ("persisted", toJson v.persisted)]

structure DependencyProvider where
  parent : String
  key : String
  deriving DecidableEq, Repr

def DependencyProvider.members (p : DependencyProvider) : List (String × Json) := [
  ("parent", toJson p.parent),
  ("key", toJson p.key)]

end Installer.Symbol
