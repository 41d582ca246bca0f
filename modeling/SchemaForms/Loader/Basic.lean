import SchemaForms.Loader.Disk
import SchemaForms.Reference.Session
import SchemaForms.Source.Creation

/-!
# Loaders

What all loaders have in common, and the simplest of them, which holds its documents in a table.
-/

namespace SchemaForms

/-- How one source is fetched. -/
abbrev Fetch := Source → Except Error Document

/-- The loader that fetches each source in the same way, whatever was asked before. -/
def Loader.ofFetch (fetch : Fetch) : Loader :=
  fun _ source => fetch source

namespace Fetch

def error (fault : LoadFault) (path : String) : Error :=
  .schema (.load fault) path

/-- The error of a disk that cannot read what is called `what`. A path that is none is an error of
its own. -/
def unreadable (what : String) (fault : DiskFault) (path : String) : Error :=
  if fault = .nullInPath then .source .nullInPath else error (.unreadable what fault) path

def document (source : Source) (raw : Octets) : Except Error Document :=
  (Document.create source raw).mapError fun fault => error (.invalidDocument fault) source.location

/-- The source is of the kind that the named loader is for. -/
def expectKind (loader : String) (kind : SourceKind) (source : Source) : Except Error Unit :=
  if source.kind = kind then .ok ()
  else .error (error (.wrongKind loader source.kind) source.location)

/-- The source has a location, which is called `what`. -/
def expectLocation (what : String) (source : Source) : Except Error Unit :=
  if source.location = "" then .error (error (.emptyLocation what) "") else .ok ()

def fromTable (table : List (String × Octets)) : Fetch :=
  fun source =>
    match table.lookup source.location with
    | none => .error (error (.missingDocument source.location) "")
    | some raw => (Document.create (some source) raw).mapError .source

/-- Fetch a source, if there is a loader at all. -/
def configured (fetch : Option Fetch) : Fetch :=
  fun source =>
    match fetch with
    | none => .error (error .noLoader source.location)
    | some fetch => fetch source

end Fetch

end SchemaForms
