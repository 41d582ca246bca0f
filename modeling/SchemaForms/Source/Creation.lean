import SchemaForms.Error
import SchemaForms.Path

/-!
# Making sources and documents

A file's path is made normal when it becomes a source. The text of a URL is kept as it is, but it
has to have a scheme and a host. A document has a source and at least one octet.
-/

namespace SchemaForms

namespace Source

def ofFile (path : String) : Source :=
  ⟨.file, Path.normalize path⟩

def ofName (name : String) : Source :=
  ⟨.fs, name⟩

/-- The document at a URL, which has to have a scheme and a host. -/
def ofUrl (url : String) : Except SourceFault Source :=
  if url = "" then .error .emptyUrl
  else match Uri.parse url with
    | .error fault => .error (.invalidUrl url fault)
    | .ok uri =>
      if uri.scheme = "" || uri.authority = "" then .error (.incompleteUrl url)
      else .ok ⟨.url, url⟩

end Source

/-- The document with the given octets, if it has a source and any octets. -/
def Document.create (source : Option Source) (raw : Octets) : Except SourceFault Document :=
  match source with
  | none => .error .noSource
  | some source =>
    if h : raw = [] then .error .emptyDocument else .ok ⟨source, raw, h⟩

end SchemaForms
