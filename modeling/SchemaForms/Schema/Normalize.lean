import SchemaForms.Pointer
import SchemaForms.Schema.Discriminator

/-!
# Normalizing a schema tree

A tree without references becomes a normalized schema if every node of it is supported. Which
constructs a node may use depends on where it stands: `oneOf` is for the items of arrays, and its
variants need a discriminator.

`normalize` first normalizes what lies below a node, each part with an outcome of its own, and
`assemble` then checks the node and takes the parts in the order in which errors are reported.
-/

namespace SchemaForms

/-- What a node may and has to be, because of where it stands. -/
structure NodeContext where
  allowsOneOf : Bool := false
  requiresDiscriminator : Bool := false
deriving DecidableEq, Repr

namespace NodeContext

def items : NodeContext := { allowsOneOf := true }

def variant : NodeContext := { requiresDiscriminator := true }

end NodeContext

namespace Schema

/-- The outcome of normalizing a node. -/
abbrev Outcome := Except Error Schema

/-- The outcomes below one member of a node. -/
inductive Part where
  | data
  | single (outcome : Outcome)
  | named (outcomes : List (String × Outcome))
  | listed (outcomes : List Outcome)

/-- The outcomes below the members of a node, by the names of the members. -/
abbrev Parts := List (String × Part)

namespace Parts

def named (parts : Parts) (key : String) : List (String × Outcome) :=
  match parts.lookup key with
  | some (.named outcomes) => outcomes
  | _ => []

def listed (parts : Parts) (key : String) : List Outcome :=
  match parts.lookup key with
  | some (.listed outcomes) => outcomes
  | _ => []

end Parts

/-- The schemas of outcomes that all succeeded; of several failures the first is reported. -/
def collect : List Outcome → Except Error (List Schema)
  | [] => .ok []
  | outcome :: rest => do
    let schema ← outcome
    let schemas ← collect rest
    return schema :: schemas

/-- The schemas, by name, of outcomes that all succeeded. -/
def collectNamed : List (String × Outcome) → Except Error (List (String × Schema))
  | [] => .ok []
  | (name, outcome) :: rest => do
    let schema ← outcome
    let schemas ← collectNamed rest
    return (name, schema) :: schemas

/-- The schemas below a member that has to be an object, ordered by name. -/
def readNamed (members : Members) (parts : Parts) (key path : String) :
    Except Error (Option (List (String × Schema))) :=
  match Members.get? members key with
  | none => .ok none
  | some (.obj _) => (collectNamed (sortByName (parts.named key))).map some
  | some _ => .error (Keywords.error (.memberNotObject key) path)

def readItems (members : Members) (parts : Parts) (path : String) :
    Except Error (Option Schema) :=
  match Members.get? members "items" with
  | none => .ok none
  | some (.arr _) => .error (Keywords.error .tupleItems path)
  | some (.obj _) =>
    match parts.lookup "items" with
    | some (.single outcome) => outcome.map some
    | _ => .ok none
  | some _ => .error (Keywords.error (.memberNotObject "items") path)

def readVariants (members : Members) (parts : Parts) (context : NodeContext) (path : String) :
    Except Error (Option (List Schema)) :=
  match Members.get? members "oneOf" with
  | none => .ok none
  | some value =>
    if !context.allowsOneOf then .error (Keywords.error .misplacedOneOf path)
    else match value with
      | .arr [] => .error (Keywords.error .emptyOneOf path)
      | .arr _ => (collect (parts.listed "oneOf")).map some
      | _ => .error (Keywords.error (.notArray "oneOf") path)

/-- The names of properties that admit null. -/
def nullableNames (properties : Option (List (String × Schema))) : List String :=
  ((properties.getD []).filter fun property => property.2.nullable).map (·.1)

/-- The schema of a node, given the outcomes of what lies below it. A property that admits null is
not required. -/
def assemble (path : String) (context : NodeContext) (members : Members) (parts : Parts) :
    Outcome := do
  if let some ref := Members.get? members "$ref" then
    throw (Keywords.showing .unresolvedReference ref path)
  Keywords.check members path
  let (type, nullable) ← Keywords.readType members path
  let title ← Keywords.readText members "title" path
  let description ← Keywords.readText members "description" path
  let format ← Keywords.readText members "format" path
  let enum ← Keywords.readEnum members path
  let required ← Keywords.readRequired members path
  let (lower, upper) ← Keywords.readBounds members path
  let minLength ← Keywords.readLength members "minLength" path
  let maxLength ← Keywords.readLength members "maxLength" path
  let pattern ← Keywords.readPattern members path
  let _ ← readNamed members parts "$defs" path
  let properties ← readNamed members parts "properties" path
  let items ← readItems members parts path
  let oneOf ← readVariants members parts context path
  let nullables := nullableNames properties
  let schema : Schema := {
    type, format, title, description
    default := (Members.get? members "default").bind Json.nonNull?
    enum
    const := (Members.get? members "const").bind Json.nonNull?
    required := required.filter (!nullables.contains ·)
    properties, items, oneOf
    minimum := lower.value
    maximum := upper.value
    exclusiveMinimum := lower.isExclusive
    exclusiveMaximum := upper.isExclusive
    minLength, maxLength, pattern, nullable
    extensions := Keywords.extensions? members }
  if context.requiresDiscriminator then schema.discriminate path else return schema

mutual

def normalize (path : String) (context : NodeContext) : Json → Outcome
  | .obj members => assemble path context members (partsOf path members)
  | .null => .error (Keywords.error .missing path)
  | _ => .error (Keywords.error .notObject path)

/-- The outcomes below the members of the node at a path. -/
def partsOf (path : String) : List (String × Json) → Parts
  | [] => []
  | (key, value) :: rest => (key, partOf (Pointer.join path [key]) key value) :: partsOf path rest

/-- The outcomes below one member, which itself is at the given path. -/
def partOf (path key : String) : Json → Part
  | .obj members =>
    if key = "$defs" || key = "properties" then .named (normalizeNamed path members)
    else if key = "items" then .single (assemble path .items members (partsOf path members))
    else .data
  | .arr elements =>
    if key = "oneOf" then .listed (normalizeVariants path 0 elements) else .data
  | _ => .data

def normalizeNamed (path : String) : List (String × Json) → List (String × Outcome)
  | [] => []
  | (key, value) :: rest =>
    (key, normalize (Pointer.join path [key]) {} value) :: normalizeNamed path rest

/-- The outcomes of variants, the first of which has the given index. -/
def normalizeVariants (path : String) (index : Nat) : List Json → List Outcome
  | [] => []
  | value :: rest =>
    normalize (Pointer.join path [toString index]) .variant value ::
      normalizeVariants path (index + 1) rest

end

end Schema

end SchemaForms
