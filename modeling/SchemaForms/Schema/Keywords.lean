import SchemaForms.Dialect
import SchemaForms.Schema.Basic

/-!
# The keywords of a schema node

The readers of the keywords that do not hold schemas. Each reads one keyword, or a group of
keywords that depend on each other, from the members of a node at a path, and says what is wrong
with it.
-/

namespace SchemaForms.Keywords

/-- The keywords that a node may have, besides vendor extensions. -/
def supported : List String := [
  "$schema", "$id", "$defs", "$ref", "$anchor", "type", "properties", "required", "items", "oneOf",
  "enum", "const", "title", "description", "default", "minimum", "maximum", "exclusiveMinimum",
  "exclusiveMaximum", "minLength", "maxLength", "pattern", "format"]

def types : List String := ["object", "array", "string", "integer", "number", "boolean"]

def error (fault : NormalizationFault) (path : String) : Error :=
  .schema (.normalization fault) path

def showing (cause : String → NormalizationFault) (value : Json) (path : String) : Error :=
  match value.shown with
  | .ok text => error (cause text) path
  | .error fault => .digits fault

def isSupported (key : String) : Bool :=
  Dialect.isVendorExtension key || supported.contains key

/-- All members of a node are supported; of several that are not, the first in order of names is
reported. -/
def check (members : Members) (path : String) : Except Error Unit :=
  match (sortNames (Members.keys members)).find? (!isSupported ·) with
  | some key => .error (error (.unsupportedKeyword key) path)
  | none => .ok ()

/-- A type that is supported, or none at all. -/
def checkType (type path : String) : Except Error String :=
  if type = "" || types.contains type then .ok type
  else .error (error (.unsupportedType type) path)

/-- The other type of a pair of types of which exactly one is `null`; it may not be blank. -/
def otherType? (first second : String) : Option String :=
  if first = "null" then
    if second = "null" || Text.trim second = "" then none else some (Text.trim second)
  else if second = "null" then
    if Text.trim first = "" then none else some (Text.trim first)
  else none

/-- The type of a node, and whether null is admitted beside it. -/
def readType (members : Members) (path : String) : Except Error (String × Bool) :=
  match (Members.get? members "type").bind Json.nonNull? with
  | none => .ok ("", false)
  | some (.str type) => (checkType (Text.trim type) path).map (·, false)
  | some (.arr [.str first, .str second]) =>
    match otherType? first second with
    | some type => (checkType type path).map (·, true)
    | none => .error (showing .unsupportedUnion (.arr [.str first, .str second]) path)
  | some (.arr types) => .error (showing .unsupportedUnion (.arr types) path)
  | some _ => .error (error .typeNotString path)

/-- A text without blanks at its ends; null counts as none. -/
def readText (members : Members) (key path : String) : Except Error String :=
  match (Members.get? members key).bind Json.nonNull? with
  | none => .ok ""
  | some (.str s) => .ok (Text.trim s)
  | some _ => .error (error (.notString key) path)

def readEnum (members : Members) (path : String) : Except Error (Option (List Json)) :=
  match Members.get? members "enum" with
  | none => .ok none
  | some (.arr values) => .ok (some values)
  | some _ => .error (error (.notArray "enum") path)

/-- The names in a list of required members, the first of which has the given index. -/
def readNames (path : String) (index : Nat) : List Json → Except Error (List String)
  | [] => .ok []
  | value :: rest =>
    match value with
    | .str name =>
      if Text.trim name = "" then .error (error (.invalidRequired index) path)
      else (readNames path (index + 1) rest).map (name :: ·)
    | _ => .error (error (.invalidRequired index) path)

def readRequired (members : Members) (path : String) : Except Error (List String) :=
  match Members.get? members "required" with
  | none => .ok []
  | some (.arr values) => readNames path 0 values
  | some _ => .error (error (.notArray "required") path)

def number (value : Json) (key path : String) : Except Error Binary64 :=
  match value with
  | .double x => .ok x
  | .int n =>
    match Binary64.ofInt? n with
    | some x => .ok x
    | none => .error .overflow
  | _ => .error (error (.notNumber key) path)

/-- A numeric bound, and whether the bound itself is excluded. -/
structure Bound where
  value : Option Binary64 := none
  isExclusive : Bool := false
deriving DecidableEq, Repr

def readBound (members : Members) (key path : String) : Except Error (Option Binary64) :=
  match Members.get? members key with
  | none => .ok none
  | some value => (number value key path).map some

/-- The bound after the keyword for an exclusive bound. A boolean there says whether a bound that
is present is exclusive; a number there is a bound itself, and no other may be present. -/
def readExclusive (members : Members) (bound : Option Binary64) (key exclusiveKey path : String) :
    Except Error Bound :=
  match Members.get? members exclusiveKey with
  | none => .ok ⟨bound, false⟩
  | some (.bool b) => .ok ⟨bound, b && bound.isSome⟩
  | some value => do
    let x ← number value exclusiveKey path
    match bound with
    | some _ => throw (error (.conflictingBounds key exclusiveKey) path)
    | none => return ⟨some x, true⟩

/-- The lower and the upper bound of a node. -/
def readBounds (members : Members) (path : String) : Except Error (Bound × Bound) := do
  let minimum ← readBound members "minimum" path
  let maximum ← readBound members "maximum" path
  let lower ← readExclusive members minimum "minimum" "exclusiveMinimum" path
  let upper ← readExclusive members maximum "maximum" "exclusiveMaximum" path
  return (lower, upper)

/-- An integer, possibly written as a floating point number. -/
def readLength (members : Members) (key path : String) : Except Error (Option Int) :=
  match Members.get? members key with
  | none => .ok none
  | some (.int n) => .ok (some n)
  | some (.double x) =>
    match x.toInt? with
    | some n => .ok (some n)
    | none => .error (error (.notInteger key) path)
  | some _ => .error (error (.notInteger key) path)

def readPattern (members : Members) (path : String) : Except Error String :=
  match Members.get? members "pattern" with
  | none => .ok ""
  | some (.str s) => .ok s
  | some _ => .error (error (.notString "pattern") path)

def extensions? (members : Members) : Option Members :=
  match sortByName (members.filter fun member => Dialect.isVendorExtension member.1) with
  | [] => none
  | found => some found

end SchemaForms.Keywords
