/-!
# Sources and documents

A source says where a schema document comes from: a file of the disk, a resource inside a root that
the loader knows, or a URL. A document is a source with the octets found there, of which there is
at least one.
-/

namespace SchemaForms

inductive SourceKind where
  | file
  | fs
  | url
deriving DecidableEq, Repr, Inhabited

def SourceKind.name : SourceKind → String
  | .file => "file"
  | .fs => "fs"
  | .url => "url"

structure Source where
  kind : SourceKind
  location : String
deriving DecidableEq, Repr, Inhabited

/-- The content of a document. -/
abbrev Octets := List UInt8

/-- What was found at a source. -/
structure Document where
  source : Source
  raw : Octets
  raw_ne_nil : raw ≠ []

namespace Document

def location (document : Document) : String := document.source.location

def kind (document : Document) : SourceKind := document.source.kind

def size (document : Document) : Nat := document.raw.length

end Document

end SchemaForms
