import SchemaForms.Json.Basic

/-!
# Normalized schemas

The schema of a form, in one fixed shape: what was a union with null is a flag, numeric bounds are
floating point numbers with a flag for a strict bound, and vendor extensions are kept apart. A
schema is written as JSON in the order of its fields, fields without a value being left out.
-/

namespace SchemaForms

/-- A normalized schema. A default or constant of null counts as none. -/
structure Schema where
  type : String := ""
  format : String := ""
  title : String := ""
  description : String := ""
  default : Option Json := none
  enum : Option (List Json) := none
  const : Option Json := none
  required : List String := []
  properties : Option (List (String × Schema)) := none
  items : Option Schema := none
  oneOf : Option (List Schema) := none
  minimum : Option Binary64 := none
  maximum : Option Binary64 := none
  exclusiveMinimum : Bool := false
  exclusiveMaximum : Bool := false
  minLength : Option Int := none
  maxLength : Option Int := none
  pattern : String := ""
  nullable : Bool := false
  extensions : Option Members := none
deriving Inhabited, Repr

namespace Schema

def field (name : String) (value : Option Json) : Members :=
  (value.map fun v => (name, v)).toList

mutual

def toJson : Schema → Json
  | ⟨type, format, title, description, default, enum, const, required, properties, items, oneOf,
      minimum, maximum, exclusiveMinimum, exclusiveMaximum, minLength, maxLength, pattern, nullable,
      extensions⟩ =>
    .obj (
      [("type", .str type), ("format", .str format), ("title", .str title),
        ("description", .str description)] ++
      field "default" default ++
      field "enum" (enum.map .arr) ++
      field "const" const ++
      [("required", .arr (required.map .str))] ++
      field "properties" (propertiesToJson properties) ++
      field "items" (itemsToJson items) ++
      field "one_of" (variantsToJson oneOf) ++
      field "minimum" (minimum.map .double) ++
      field "maximum" (maximum.map .double) ++
      [("exclusive_minimum", .bool exclusiveMinimum),
        ("exclusive_maximum", .bool exclusiveMaximum)] ++
      field "min_length" (minLength.map .int) ++
      field "max_length" (maxLength.map .int) ++
      [("pattern", .str pattern), ("nullable", .bool nullable)] ++
      field "extensions" (extensions.map .obj))

def propertiesToJson : Option (List (String × Schema)) → Option Json
  | none => none
  | some properties => some (.obj (namedToJson properties))

def itemsToJson : Option Schema → Option Json
  | none => none
  | some schema => some schema.toJson

def variantsToJson : Option (List Schema) → Option Json
  | none => none
  | some variants => some (.arr (listToJson variants))

def namedToJson : List (String × Schema) → List (String × Json)
  | [] => []
  | (name, schema) :: rest => (name, schema.toJson) :: namedToJson rest

def listToJson : List Schema → List Json
  | [] => []
  | schema :: rest => schema.toJson :: listToJson rest

end

def property? (schema : Schema) (name : String) : Option Schema :=
  (schema.properties.getD []).lookup name

end Schema

end SchemaForms
