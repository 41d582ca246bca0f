import SchemaForms.Error
import SchemaForms.Path
import SchemaForms.Reference.Options

/-!
# The sandbox of relative references

Unless traversal is allowed, a relative reference has to stay inside the directory of the root
document. Paths are made normal first. A file is outside if the relative path that leads to it
climbs, a resource if its name climbs or does not begin with the name of the directory.
-/

namespace SchemaForms.Sandbox

/-- The path lies in the directory, or is the directory itself: the way to it does not climb. -/
def inside (current directory path : String) : Bool :=
  !Path.climbs (Path.relative current directory path)

/-- The reference, written as `ref` at `place`, leaves the sandbox. -/
def escape (ref place : String) : Error :=
  .schema (.traversal ref) place

/-- The path of the file that a reference from `directory` means, if it lies in `root`. -/
def cleanFile (options : ResolveOptions) (current root directory path ref place : String) :
    Except Error String :=
  let candidate := Path.normalize (Path.append directory path)
  if options.allowTraversal || inside current root candidate then .ok candidate
  else .error (escape ref place)

/-- The name lies in the directory with the given name; the empty name is that of the loader's
root. -/
def nameInside (root name : String) : Bool :=
  root = "" || name = root || (root ++ "/").toList.isPrefixOf name.toList

/-- The name of the resource that a reference from `directory` means, if it lies in `root`. -/
def cleanName (options : ResolveOptions) (root directory path ref place : String) :
    Except Error String :=
  let candidate := Path.dropSlashes (Path.normalize (Path.append directory path))
  let root := Path.dropSlashes (Path.normalize root)
  let root := if root = "." then "" else root
  if options.allowTraversal || (!Path.climbs candidate && nameInside root candidate) then
    .ok candidate
  else .error (escape ref place)

end SchemaForms.Sandbox
