import SchemaForms.Error
import SchemaForms.Path

/-!
# The origin of a document

Two sources that mean the same document have the same key: a file is known by its normal path from
the root of the disk, a resource by its normal name, and a URL by its text. Relative references
start in the directory of the document that makes them.
-/

namespace SchemaForms

/-- What a document is known by in a session: its key, its location as messages name it, and the
directory in which its relative references start. -/
structure Origin where
  key : String
  location : String
  directory : String
deriving DecidableEq, Repr

namespace Origin

/-- The origin of what a source names, given the current directory. -/
def ofSource (current : String) (source : Source) : Origin :=
  match source.kind with
  | .file =>
    let path := Path.absolute current source.location
    ⟨"file:" ++ path, path, Path.directory path⟩
  | .fs =>
    let name := Path.normalize (Path.dropSlashes source.location)
    let directory := Path.directory name
    ⟨"fs:" ++ name, name, if directory = "" then "." else directory⟩
  | .url => ⟨"url:" ++ source.location, source.location, Path.directory source.location⟩

def ofSource? (current : String) : Option Source → Except Error Origin
  | none => .error (.schema (.reference .noSource) "")
  | some source => .ok (ofSource current source)

end Origin

end SchemaForms
