import SchemaForms.Reference.Options
import SchemaForms.Settings.Number
import SchemaForms.Text.Quoted

/-!
# Settings

The limits of the resolution and what loaders may do are set by variables of the environment. A
variable that is blank counts as missing, and a missing one leaves the usual value.
-/

namespace SchemaForms

/-- Why a setting cannot be used: the variable and its value. -/
inductive SettingFault where
  | notInteger (name value : String)
  | notNumber (name value : String)
deriving DecidableEq, Repr

def SettingFault.text : SettingFault → String
  | .notInteger name value => name ++ " must be an integer, got " ++ Text.quoted value
  | .notNumber name value => name ++ " must be a number, got " ++ Text.quoted value

abbrev Environment := List (String × String)

/-- What loaders may read from. -/
structure LoaderOptions where
  /-- The directory of the resources. -/
  root : Option String := none
  allowHttp : Bool := false
  /-- How many seconds a request may take. -/
  timeout : Binary64
deriving DecidableEq, Repr

namespace Settings

/-- The value of a variable that is not blank. -/
def value? (environment : Environment) (name : String) : Option String :=
  match environment.lookup name with
  | none => none
  | some value => if Text.trim value = "" then none else some value

/-- The values that switch something on, in any case. -/
def trueValues : List String := ["1", "true", "yes", "on"]

/-- A switch, which is off unless its variable says otherwise. -/
def readSwitch (environment : Environment) (name : String) : Bool :=
  match value? environment name with
  | none => false
  | some value =>
    trueValues.contains (String.ofList ((Text.trim value).toList.map Char.toLower))

/-- A limit. Zero, negative numbers and a missing variable all stand for the usual limit. -/
def readLimit (environment : Environment) (name : String) : Except SettingFault Nat :=
  match value? environment name with
  | none => .ok 0
  | some value =>
    match readInteger value with
    | some n => .ok n.toNat
    | none => .error (.notInteger name value)

def usualTimeout : Binary64 := Binary64.ofDecimal false 10 0

def readTimeout (environment : Environment) (name : String) : Except SettingFault Binary64 :=
  match value? environment name with
  | none => .ok usualTimeout
  | some value =>
    match readNumber value with
    | some x => .ok x
    | none => .error (.notNumber name value)

def allowHttpName : String := "FORMSCHEMA_ALLOW_HTTP_REFS"

/-- The variable that allows references to leave the directory of the root document. -/
def allowTraversalName : String := "FORMSCHEMA_ALLOW_PATH_TRAVERSAL"

def maxDocumentSizeName : String := "FORMSCHEMA_MAX_DOCUMENT_BYTES"

def maxDocumentsName : String := "FORMSCHEMA_MAX_DOCUMENTS"

def maxDepthName : String := "FORMSCHEMA_MAX_REF_DEPTH"

def timeoutName : String := "FORMSCHEMA_HTTP_TIMEOUT"

def names : List String := [
  allowHttpName, allowTraversalName, maxDocumentSizeName, maxDocumentsName, maxDepthName,
  timeoutName]

def resolveOptions (environment : Environment) : Except SettingFault ResolveOptions := do
  let maxDocumentSize ← readLimit environment maxDocumentSizeName
  let maxDocuments ← readLimit environment maxDocumentsName
  let maxDepth ← readLimit environment maxDepthName
  let options : ResolveOptions := {
    allowHttp := readSwitch environment allowHttpName
    allowTraversal := readSwitch environment allowTraversalName
    maxDocumentSize, maxDocuments, maxDepth }
  return options.effective

/-- What loaders may read from. URLs are allowed by the environment unless it is said here. -/
def loaderOptions (environment : Environment) (root : Option String) (allowHttp : Option Bool) :
    Except SettingFault LoaderOptions := do
  let timeout ← readTimeout environment timeoutName
  return {
    root, timeout
    allowHttp := allowHttp.getD (readSwitch environment allowHttpName) }

end Settings

end SchemaForms
