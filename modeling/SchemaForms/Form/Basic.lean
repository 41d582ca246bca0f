import SchemaForms.Schema.Basic
import SchemaForms.Text.Blank
import SchemaForms.Text.Split

/-!
# Forms

A form is a schema together with what is needed to send it: an identifier, a method and an
endpoint. A form reference names a form without its schema.
-/

namespace SchemaForms

/-- A form by name, with what may be said about it. -/
structure FormRef where
  id : String
  title : String := ""
  summary : String := ""
  description : String := ""
deriving DecidableEq, Repr

structure Form where
  id : String
  method : String := ""
  endpoint : String := ""
  summary : String := ""
  description : String := ""
  schema : Schema := {}
deriving Inhabited, Repr

def firstNonEmpty (first second : String) : String :=
  if first = "" then second else first

/-- The text, which begins with the given character in any case. -/
def withLeading (c : Char) (text : String) : String :=
  if Text.startsWith c text then text else String.ofList (c :: text.toList)

namespace Form

def usualMethod : String := "POST"

/-- The endpoint for a slug: the slug behind a slash, unless it begins with one. -/
def endpointOf (slug : String) : String :=
  withLeading '/' (Text.trim slug)

/-- The form that a reference names, with its schema. The title stands in for a summary. -/
def ofRef (slug : String) (schema : Schema) (ref : FormRef) : Form where
  id := ref.id
  method := usualMethod
  endpoint := endpointOf slug
  summary := firstNonEmpty (Text.trim ref.summary) (Text.trim ref.title)
  description := ref.description
  schema := schema

/-- The form as a JSON value, its members in the order of the fields. -/
def toJson (form : Form) : Json :=
  .obj [("id", .str form.id), ("method", .str form.method), ("endpoint", .str form.endpoint),
    ("summary", .str form.summary), ("description", .str form.description),
    ("schema", form.schema.toJson)]

end Form

end SchemaForms
