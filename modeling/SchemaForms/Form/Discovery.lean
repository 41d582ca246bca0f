import SchemaForms.Dialect
import SchemaForms.Form.Basic

/-!
# Finding the forms of a schema

A schema document may list its forms in the member `forms` of its `x-formgen` extension. One that
does not has a single form, whose identifier is that of the schema, or else a slug from outside,
with a suffix behind it.
-/

namespace SchemaForms.Discovery

/-- The suffix of derived identifiers. -/
def usualSuffix : String := ".edit"

/-- The suffix to use for a wanted one: it begins with a dot, and a blank one means the usual
suffix. -/
def suffixOf (wanted : String) : String :=
  let wanted := Text.trim wanted
  if wanted = "" then usualSuffix else withLeading '.' wanted

def error (fault : DiscoveryFault) (path : String) : Error :=
  .schema (.discovery fault) path

def extensionPath : String := "#/x-formgen"

def formsPath : String := extensionPath ++ "/forms"

/-- The form that an element of the list describes. -/
def readForm (index : Nat) (value : Json) : Except Error FormRef :=
  let path := formsPath ++ "/" ++ toString index
  match value with
  | .obj members =>
    let text (key : String) : String := Text.trim (Members.text members key)
    if text "id" = "" then .error (error (.formWithoutId index) path)
    else .ok ⟨text "id", text "title", text "summary", text "description"⟩
  | _ => .error (error (.formNotObject index) path)

/-- The forms that the elements of the list describe, the first of which has the given index. -/
def readForms (index : Nat) : List Json → Except Error (List FormRef)
  | [] => .ok []
  | value :: rest => do
    let form ← readForm index value
    let forms ← readForms (index + 1) rest
    return form :: forms

/-- The forms that a schema lists, if it has a list. The list may not be empty. -/
def listed? (schema : Members) : Except Error (Option (List FormRef)) :=
  match Members.get? schema "x-formgen" with
  | none => .ok none
  | some (.obj extension) =>
    match Members.get? extension "forms" with
    | none => .ok none
    | some (.arr []) => .error (error .noForms formsPath)
    | some (.arr forms) => (readForms 0 forms).map some
    | some _ => .error (error .formsNotArray formsPath)
  | some _ => .error (error .extensionNotObject extensionPath)

/-- The identifier of the single form of a schema that lists none. -/
def derivedId (schema : Members) (slug suffix : String) : Except Error String :=
  let base := firstNonEmpty (Text.trim (Members.text schema "$id")) (Text.trim slug)
  if base = "" then .error (error .noSlug "") else .ok (base ++ suffixOf suffix)

def ofMembers (schema : Members) (slug suffix : String) : Except Error (List FormRef) := do
  match ← listed? schema with
  | some forms => return forms
  | none => return [{ id := ← derivedId schema slug suffix }]

def ofJson (value : Json) (slug suffix : String) : Except Error (List FormRef) :=
  match value with
  | .obj members => ofMembers members slug suffix
  | _ => .error (error .notObject "")

def ofOctets (raw : Octets) (slug suffix : String) : Except Error (List FormRef) :=
  if raw.isEmpty then .error (error .empty "")
  else match Json.ofOctets raw with
    | .error fault => .error (.ofRead (fun fault => .discovery (.unreadable fault)) "" fault)
    | .ok value => ofJson value slug suffix

end SchemaForms.Discovery
