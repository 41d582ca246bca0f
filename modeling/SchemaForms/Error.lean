import SchemaForms.Json.Printer
import SchemaForms.Json.Reader
import SchemaForms.Source
import SchemaForms.Uri.Split

/-!
# Errors

Most errors are a cause with a path that tells where it lies: a pointer, the location of a document,
or both. The wording of each cause is given by one function for its stage of the work, and
`Error.message` puts wording and path together. The other errors lie in no schema.
-/

namespace SchemaForms

inductive SourceFault where
  | emptyUrl
  | invalidUrl (url : String) (fault : Uri.Fault)
  | incompleteUrl (url : String)
  | noSource
  | emptyDocument
  /-- The path of a file holds the character that ends paths. -/
  | nullInPath
deriving DecidableEq, Repr

def SourceFault.text : SourceFault → String
  | .emptyUrl => "empty URL source"
  | .invalidUrl url fault => "invalid URL " ++ Text.quoted url ++ ": " ++ fault.text
  | .incompleteUrl url => "invalid URL " ++ Text.quoted url ++ ": scheme and host are required"
  | .noSource => "source is required"
  | .emptyDocument => "raw document is empty"
  | .nullInPath => "embedded null byte"

inductive DiskFault where
  | notFound
  | isDirectory
  | notDirectory
  | denied
  | nameTooLong
  /-- The path holds the character that ends paths, so the disk is not even asked. -/
  | nullInPath
deriving DecidableEq, Repr

def DiskFault.text : DiskFault → String
  | .notFound => "No such file or directory"
  | .isDirectory => "Is a directory"
  | .notDirectory => "Not a directory"
  | .denied => "Permission denied"
  | .nameTooLong => "File name too long"
  | .nullInPath => SourceFault.nullInPath.text

def DiskFault.number : DiskFault → Nat
  | .notFound => 2
  | .denied => 13
  | .notDirectory => 20
  | .isDirectory => 21
  | .nameTooLong => 36
  | .nullInPath => 22

inductive LoadFault where
  | noLoader
  | noSource
  | noRoot
  | httpUnsupported
  | missingDocument (location : String)
  | wrongKind (loader : String) (kind : SourceKind)
  | emptyLocation (what : String)
  | unreadable (what : String) (fault : DiskFault)
  | escapesRoot
  | invalidDocument (fault : SourceFault)
  | fetchFailed (why : String)
  | unexpectedStatus (status : Nat) (reason : String)
deriving DecidableEq, Repr

def LoadFault.text : LoadFault → String
  | .noLoader => "loader is not configured"
  | .noSource => "source is nil"
  | .noRoot => "fs root is not configured"
  | .httpUnsupported => "http support disabled"
  | .missingDocument location => "missing document " ++ Text.quoted location
  | .wrongKind loader kind => loader ++ " loader cannot load " ++ kind.name ++ " sources"
  | .emptyLocation what => what ++ " is required"
  | .unreadable what fault => "read " ++ what ++ ": " ++ fault.text
  | .escapesRoot => "fs path escapes the loader root"
  | .invalidDocument fault => fault.text
  | .fetchFailed why => "fetch failed: " ++ why
  | .unexpectedStatus status reason =>
    "unexpected status " ++ toString status ++ (if reason = "" then "" else " " ++ reason)

inductive DialectFault where
  | empty
  | unreadable (fault : Json.ReadFault)
  | notObject
  | noDialect
  | unsupported (dialect : String)
deriving DecidableEq, Repr

def DialectFault.text : DialectFault → String
  | .empty => "raw schema is empty"
  | .unreadable fault => "parse schema: " ++ fault.text
  | .notObject => "schema must be a JSON object"
  | .noDialect => "$schema is required"
  | .unsupported dialect => "unsupported $schema " ++ Text.quoted dialect

inductive ReferenceFault where
  | payloadNotObject
  | resultNotObject
  | noSource
  | notText
  | invalid (ref : String)
  | unsupportedScheme (scheme : String)
  | anchorNotFound (anchor location : String)
  | invalidPointer (pointer : String)
  | pointerNotFound (pointer : String)
  | duplicateAnchor (anchor : String)
  | targetNotObject
  | unsupportedSibling (key : String)
deriving DecidableEq, Repr

def ReferenceFault.text : ReferenceFault → String
  | .payloadNotObject => "payload must be an object"
  | .resultNotObject => "resolved root is not an object"
  | .noSource => "source is nil"
  | .notText => "$ref must be a non-empty string"
  | .invalid ref => "invalid ref " ++ Text.quoted ref
  | .unsupportedScheme scheme => "unsupported ref scheme " ++ Text.quoted scheme
  | .anchorNotFound anchor location =>
    "anchor " ++ Text.quoted anchor ++ " not found in " ++ location
  | .invalidPointer pointer => "invalid json pointer " ++ Text.quoted pointer
  | .pointerNotFound pointer => "pointer " ++ Text.quoted pointer ++ " not found"
  | .duplicateAnchor anchor => "duplicate anchor " ++ Text.quoted anchor
  | .targetNotObject => "$ref target is not an object"
  | .unsupportedSibling key => "unsupported $ref sibling " ++ Text.quoted key

inductive LimitFault where
  | documentSize (octets : Nat)
  | documents (limit : Nat)
  | depth (limit : Nat)
  | nesting
deriving DecidableEq, Repr

def LimitFault.text : LimitFault → String
  | .documentSize octets => "document too large (" ++ toString octets ++ " bytes)"
  | .documents limit => "exceeded max documents (" ++ toString limit ++ ")"
  | .depth limit => "ref depth exceeds " ++ toString limit
  | .nesting => "schema nesting is too deep"

/-- Why a resolved tree is not a supported schema. Values are given as messages show them. -/
inductive NormalizationFault where
  | missing
  | notObject
  | unresolvedReference (ref : String)
  | unsupportedKeyword (key : String)
  | unsupportedUnion (types : String)
  | typeNotString
  | unsupportedType (type : String)
  | notString (key : String)
  | notNumber (key : String)
  | notInteger (key : String)
  | notArray (key : String)
  | memberNotObject (key : String)
  | invalidRequired (index : Nat)
  | conflictingBounds (bound exclusive : String)
  | tupleItems
  | misplacedOneOf
  | emptyOneOf
  | variantNotObject
  | variantWithoutProperties
  | variantWithoutDiscriminator (property : String)
  | discriminatorNotConst (property : String)
  | discriminatorNotString (property : String)
deriving DecidableEq, Repr

def NormalizationFault.text : NormalizationFault → String
  | .missing => "schema is nil"
  | .notObject => "schema must be an object"
  | .unresolvedReference ref => "unresolved $ref " ++ ref
  | .unsupportedKeyword key => "unsupported keyword " ++ Text.quoted key
  | .unsupportedUnion types => "unsupported type union " ++ types
  | .typeNotString => "type must be a string"
  | .unsupportedType type => "unsupported type " ++ Text.quoted type
  | .notString key => key ++ " must be a string"
  | .notNumber key => key ++ " must be a number"
  | .notInteger key => key ++ " must be an integer"
  | .notArray key => key ++ " must be an array"
  | .memberNotObject key => key ++ " must be an object"
  | .invalidRequired index => "required[" ++ toString index ++ "] must be a string"
  | .conflictingBounds bound exclusive => bound ++ " conflicts with " ++ exclusive
  | .tupleItems => "tuple items are not supported"
  | .misplacedOneOf => "oneOf is only supported for array items"
  | .emptyOneOf => "oneOf must include at least one schema"
  | .variantNotObject => "oneOf variant must be an object"
  | .variantWithoutProperties => "oneOf variant missing properties"
  | .variantWithoutDiscriminator property =>
    "oneOf variant missing " ++ property ++ " discriminator"
  | .discriminatorNotConst property => "oneOf variant " ++ property ++ " must be a const string"
  | .discriminatorNotString property => "oneOf variant " ++ property ++ " must be a string"

inductive DiscoveryFault where
  | empty
  | unreadable (fault : Json.ReadFault)
  | notObject
  | extensionNotObject
  | formsNotArray
  | noForms
  | formNotObject (index : Nat)
  | formWithoutId (index : Nat)
  | noSlug
  | formNotFound (id : String)
deriving DecidableEq, Repr

def DiscoveryFault.text : DiscoveryFault → String
  | .empty => "raw schema is empty"
  | .unreadable fault => "parse schema: " ++ fault.text
  | .notObject => "schema must be an object"
  | .extensionNotObject => "x-formgen must be an object"
  | .formsNotArray => "x-formgen.forms must be an array"
  | .noForms => "x-formgen.forms is empty"
  | .formNotObject index => "x-formgen.forms[" ++ toString index ++ "] must be an object"
  | .formWithoutId index => "x-formgen.forms[" ++ toString index ++ "].id is required"
  | .noSlug => "slug required to derive form id"
  | .formNotFound id => "form " ++ Text.quoted id ++ " not found"

inductive OverlayFault where
  | empty
  | unreadable (fault : Json.ReadFault)
  | notObject
  | noDialect
  | unsupported (dialect : String)
  | overridesNotArray
  | overrideNotObject (index : Nat)
  | overrideWithoutPath (index : Nat)
  | extensionNotObject (key : String)
  | notPointer
  | pathNotFound
  | targetNotObject
deriving DecidableEq, Repr

def OverlayFault.text : OverlayFault → String
  | .empty => "overlay document is empty"
  | .unreadable fault => "parse overlay: " ++ fault.text
  | .notObject => "overlay document must be an object"
  | .noDialect => "$schema is required"
  | .unsupported dialect => "unsupported $schema " ++ Text.quoted dialect
  | .overridesNotArray => "overrides must be an array"
  | .overrideNotObject index => "overrides[" ++ toString index ++ "] must be an object"
  | .overrideWithoutPath index => "overrides[" ++ toString index ++ "].path is required"
  | .extensionNotObject key => key ++ " must be an object"
  | .notPointer => "path must be a JSON pointer"
  | .pathNotFound => "path not found"
  | .targetNotObject => "path does not resolve to an object"

inductive Fault where
  | load (fault : LoadFault)
  | dialect (fault : DialectFault)
  | reference (fault : ReferenceFault)
  | cycle (ref : String)
  | traversal (ref : String)
  | limit (fault : LimitFault)
  | httpDisabled (ref : String)
  | normalization (fault : NormalizationFault)
  | discovery (fault : DiscoveryFault)
  | overlay (fault : OverlayFault)
deriving DecidableEq, Repr

def Fault.text : Fault → String
  | .load fault => fault.text
  | .dialect fault => fault.text
  | .reference fault => fault.text
  | .cycle ref => "ref cycle detected at " ++ ref
  | .traversal ref => "ref path escapes root (" ++ ref ++ ")"
  | .limit fault => fault.text
  | .httpDisabled ref => "http refs disabled (" ++ ref ++ ")"
  | .normalization fault => fault.text
  | .discovery fault => fault.text
  | .overlay fault => fault.text

inductive Error where
  /-- A cause with the path where it lies; the path may be empty. -/
  | schema (fault : Fault) (path : String)
  /-- Something that should be a source or a document is none. -/
  | source (fault : SourceFault)
  /-- A reference cannot be joined to a URL. -/
  | url (fault : Uri.Fault)
  /-- An integer has no floating point number near it. -/
  | overflow
  /-- An integer has too many digits. -/
  | digits (fault : Text.DigitFault)
deriving DecidableEq, Repr

/-- The error of something that cannot be read as JSON. It lies in the schema, unless it is that of an
integer with too many digits. -/
def Error.ofRead (cause : Json.ReadFault → Fault) (path : String) : Json.ReadFault → Error
  | .digits fault => .digits fault
  | fault => .schema (cause fault) path

def Error.message : Error → String
  | .schema fault path =>
    if path = "" then fault.text else fault.text ++ " (at " ++ path ++ ")"
  | .source fault => fault.text
  | .url fault => fault.text
  | .overflow => "int too large to convert to float"
  | .digits fault => fault.text

end SchemaForms
