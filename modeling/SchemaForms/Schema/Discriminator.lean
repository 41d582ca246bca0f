import SchemaForms.Schema.Keywords

/-!
# The discriminator of a variant

A variant of a `oneOf` is an object that is told apart by its `_type` property, whose value is one
text. The rules make the property a constant text that is read only and required.

`revise` applies them to a schema in place, one change after the other; what has been changed by the
time that a rule fails stays changed. `discriminate` is the schema behind the rules.
-/

namespace SchemaForms.Schema

/-- The property that tells variants apart. -/
def discriminatorProperty : String := "_type"

def nonBlank? : Json → Option String
  | .str s => if Text.trim s = "" then none else some s
  | _ => none

/-- The one text that a property may have: its constant, or the only value that it enumerates. -/
def discriminatorValue? (property : Schema) : Option String :=
  match property.const.bind nonBlank? with
  | some value => some value
  | none =>
    match property.enum with
    | some [only] => nonBlank? only
    | _ => none

def withReadOnly (extensions : Option Members) : Members :=
  let present := extensions.getD []
  let form := ((Members.get? present "x-formgen").bind Json.members?).getD []
  Members.set present "x-formgen" (.obj (Members.set form "readonly" (.bool true)))

def updateProperty (name : String) (change : Schema → Schema) :
    List (String × Schema) → List (String × Schema)
  | [] => []
  | (key, schema) :: rest =>
    if key = name then (key, change schema) :: rest
    else (key, schema) :: updateProperty name change rest

def asText (property : Schema) : Schema :=
  { property with type := "string" }

def asConstant (value : String) (property : Schema) : Schema :=
  { property with const := some (.str value) }

def asReadOnly (property : Schema) : Schema :=
  { property with extensions := some (withReadOnly property.extensions) }

/-- A procedure that changes a schema in place. -/
abbrev Revision := ExceptT Error (StateM Schema)

def reviseDiscriminator (change : Schema → Schema) : Revision Unit :=
  modify fun schema => { schema with
    properties := schema.properties.map (updateProperty discriminatorProperty change) }

def requireDiscriminator : Revision Unit :=
  modify fun schema => { schema with
    required :=
      if schema.required.contains discriminatorProperty then schema.required
      else schema.required ++ [discriminatorProperty] }

def findDiscriminator (schema : Schema) (path : String) : Except Error (Schema × String) :=
  let fail (fault : NormalizationFault) : Except Error (Schema × String) :=
    .error (Keywords.error fault path)
  if schema.type ≠ "" && schema.type ≠ "object" then fail .variantNotObject
  else match schema.properties with
    | none => fail .variantWithoutProperties
    | some [] => fail .variantWithoutProperties
    | some properties =>
      match properties.lookup discriminatorProperty with
      | none => fail (.variantWithoutDiscriminator discriminatorProperty)
      | some property =>
        match property.discriminatorValue? with
        | none => fail (.discriminatorNotConst discriminatorProperty)
        | some value => .ok (property, value)

/-- Make the property, which is the discriminator of the schema at a path, a constant text that is read
only and required. -/
def pin (property : Schema) (value path : String) : Revision Unit := do
  if property.type = "" then reviseDiscriminator asText
  else if property.type ≠ "string" then
    throw (Keywords.error (.discriminatorNotString discriminatorProperty) path)
  reviseDiscriminator (asConstant value)
  reviseDiscriminator asReadOnly
  requireDiscriminator

/-- Apply the rules of variants to the schema, which is at a path. -/
def revise (path : String) : Revision Unit := do
  let schema ← get
  let (property, value) ← schema.findDiscriminator path
  pin property value path

/-- The schema behind the rules of variants. -/
def discriminate (schema : Schema) (path : String) : Except Error Schema :=
  match (revise path).run.run schema with
  | (.ok _, after) => .ok after
  | (.error error, _) => .error error

end SchemaForms.Schema
