import SchemaForms.Reference.Merge
import SchemaForms.Reference.Session

/-!
# The expansion of references

A schema tree is walked along its schema positions: the tree itself, the members of `$defs` and
`properties`, `items`, and the elements of `oneOf`, `anyOf` and `allOf`. All else is data and stays
as it is. At each object with a `$ref` the walk goes on with the target of the reference, in the
target's document.

`walk` knows nothing of references: it leaves them to a function. `expand` supplies that function,
with a budget of references that may still be nested, so both are plain recursions.
-/

namespace SchemaForms

/-- What a value is at its place in a schema. -/
inductive Place where
  /-- A schema, or a list of them. -/
  | schema
  /-- An object whose members are schemas. -/
  | schemaMap
  /-- A list whose elements are schemas. -/
  | schemaList
  /-- Anything. -/
  | data
deriving DecidableEq, Repr

/-- What a member of a schema is. -/
def Place.ofMember (key : String) : Place :=
  if key = "$defs" || key = "properties" then .schemaMap
  else if key = "items" then .schema
  else if key = "oneOf" || key = "anyOf" || key = "allOf" then .schemaList
  else .data

namespace Expansion

/-- How an object with a reference is expanded, given its path. -/
abbrev Follow := Members → String → Run Json

mutual

/-- Expand the references at the schema positions of a value. -/
def walk (follow : Follow) (place : Place) (path : String) : Json → Run Json
  | .obj members =>
    match place with
    | .schema =>
      if Members.has members "$ref" then follow members path
      else Json.obj <$> walkMembers follow Place.ofMember path members
    | .schemaMap => Json.obj <$> walkMembers follow (fun _ => .schema) path members
    | .schemaList => pure (.obj members)
    | .data => pure (.obj members)
  | .arr elements =>
    match place with
    | .schema => Json.arr <$> walkElements follow path 0 elements
    | .schemaList => Json.arr <$> walkElements follow path 0 elements
    | .schemaMap => pure (.arr elements)
    | .data => pure (.arr elements)
  | value => pure value

/-- Expand the references in the elements of an array, the first of which has the given index. -/
def walkElements (follow : Follow) (path : String) (index : Nat) : List Json → Run (List Json)
  | [] => pure []
  | value :: rest => do
    let value ← walk follow .schema (Pointer.join path [toString index]) value
    let rest ← walkElements follow path (index + 1) rest
    return value :: rest

def walkMembers (follow : Follow) (placeOf : String → Place) (path : String) :
    List (String × Json) → Run (List (String × Json))
  | [] => pure []
  | (key, value) :: rest => do
    let value ← walk follow (placeOf key) (Pointer.join path [key]) value
    let rest ← walkMembers follow placeOf path rest
    return (key, value) :: rest

end

def refText (node : Members) (place : String) : Except Error String :=
  match Members.get? node "$ref" with
  | some (.str s) =>
    if Text.trim s = "" then .error (.schema (.reference .notText) place) else .ok (Text.trim s)
  | _ => .error (.schema (.reference .notText) place)

/-- Run a step while a reference counts as being expanded, whether the step succeeds or fails. -/
def nested {α : Type} (key : String) (step : Run α) : Run α :=
  fun state =>
    let (result, state) := step { state with trail := state.trail.push key }
    (result, { state with trail := state.trail.pop })

/-- Expand the references of a value of a document. `budget` is the number of references that may
still be nested. -/
def expand (session : Session) : Nat → Entry → Place → String → Json → Run Json
  | 0, entry, place, path, value =>
    walk (follow session entry none) place path value
  | budget + 1, entry, place, path, value =>
    walk (follow session entry (some fun target merged =>
      expand session budget target.entry .schema target.path merged)) place path value
where
  /-- Expand an object with a reference. `descend`, if the budget allows it, expands the target
  with the object's other members put into it. -/
  follow (session : Session) (entry : Entry) (descend : Option (Target → Json → Run Json))
      (node : Members) (path : String) : Run Json := do
    let place := entry.location ++ path
    let ref ← refText node place
    let target ← session.locate entry ref place
    match descend with
    | none => throw (.schema (.limit (.depth session.options.maxDepth)) place)
    | some descend =>
      let state ← get
      if session.detectsCycles && state.trail.contains target.key then
        throw (.schema (.cycle ref) place)
      let merged ← Reference.merge target.value node place
      nested target.key (descend target merged)

end Expansion

namespace Session

/-- The references that may still be nested in a state. -/
def budget (session : Session) (state : SessionState) : Nat :=
  session.options.maxDepth - state.trail.depth

/-- Expand the references of a node of a document, inside the references that are being
expanded. -/
def resolveNode (session : Session) (entry : Entry) (node : Json) (path : String) : Run Json := do
  let state ← get
  Expansion.expand session (session.budget state) entry .schema path node

def resolveRoot (session : Session) (document : Document) (payload : Json) : Run Members := do
  let root ← session.openRoot document payload
  match ← session.resolveNode root (.obj root.data) "#" with
  | .obj members => return members
  | _ => throw (.schema (.reference .resultNotObject) root.location)

/-- The result of expanding all references of a root document, and the session behind it. -/
def runRoot (session : Session) (document : Document) (payload : Json) :
    Except Error Members × SessionState :=
  (session.resolveRoot document payload).run.run {}

end Session

/-- Expand all references of a document whose content is the payload, given the current
directory. -/
def resolve (loader : Option Loader) (options : ResolveOptions) (current : String)
    (document : Document) (payload : Json) : Except Error Members :=
  (Session.runRoot { loader := loader, options := options.effective, current := current }
    document payload).1

end SchemaForms
