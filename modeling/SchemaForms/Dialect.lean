import SchemaForms.Error
import SchemaForms.Text.Blank
import SchemaForms.Text.Split

/-!
# The dialect of a schema

A schema document is a JSON object that declares the supported dialect in its `$schema` member.
Members whose name begins with `x-` are vendor extensions. `detect` tells from octets alone whether
they look like a schema at all.
-/

namespace SchemaForms

/-- The text of a string member; any other value, or none, counts as the empty text. -/
def Members.text (members : Members) (key : String) : String :=
  ((Members.get? members key).bind Json.string?).getD ""

namespace Dialect

/-- The two spellings of the supported dialect. -/
def supported : List String := [
  "https://json-schema.org/draft/2020-12/schema",
  "http://json-schema.org/draft/2020-12/schema"]

/-- The name is that of a vendor extension: it begins with `x-`, in either case, behind any
blanks. -/
def isVendorExtension (key : String) : Bool :=
  match key.toList.dropWhile Text.isBlank with
  | c :: '-' :: _ => c = 'x' || c = 'X'
  | _ => false

/-- The value of `$schema` names the supported dialect. One `#` may follow it. -/
def isSupported (dialect : String) : Bool :=
  supported.contains (Text.dropFinal '#' (Text.trim dialect))

def trimOctets (raw : Octets) : Octets :=
  Text.trimWhere Text.isBlankByte raw

/-- The members of the JSON object that octets write. `location` tells where they come from. -/
def parse (raw : Octets) (location : String) : Except Error Members :=
  let trimmed := trimOctets raw
  if trimmed.isEmpty then .error (.schema (.dialect .empty) location)
  else match Json.ofOctets trimmed with
    | .error fault => .error (.ofRead (fun fault => .dialect (.unreadable fault)) location fault)
    | .ok (.obj members) => .ok members
    | .ok _ => .error (.schema (.dialect .notObject) location)

def validate (schema : Members) (location : String) : Except Error Unit :=
  let dialect := Text.trim (Members.text schema "$schema")
  if dialect = "" then .error (.schema (.dialect .noDialect) location)
  else if isSupported dialect then .ok ()
  else .error (.schema (.dialect (.unsupported dialect)) location)

/-- Members of which a schema has at least one. -/
def typicalKeys : List String := ["$schema", "$id", "$defs", "properties", "type", "items"]

/-- Members that tell another kind of document. -/
def foreignKeys : List String := ["openapi", "swagger"]

def looksLikeSchema (members : Members) : Bool :=
  !(foreignKeys.any (Members.has members)) && typicalKeys.any (Members.has members)

def detect (raw : Octets) : Except Text.DigitFault Bool :=
  let trimmed := trimOctets raw
  if trimmed.head? = some 0x7B then
    match Json.ofOctets trimmed with
    | .ok (.obj members) => .ok (looksLikeSchema members)
    | .error (.digits fault) => .error fault
    | _ => .ok false
  else .ok false

end Dialect

end SchemaForms
