import SchemaForms.Loader.File
import SchemaForms.Loader.Http

/-!
# Loading any source

The composite loader passes each source on to the loader for its kind. Resources need a directory
to be read from, and URLs a client.
-/

namespace SchemaForms

structure CompositeLoader where
  disk : Disk
  /-- The current directory, from which relative paths start. -/
  current : String
  /-- The directory of the resources, from the root of the disk. -/
  root : Option String := none
  client : Option HttpClient := none

namespace CompositeLoader

/-- The loader that reads resources from below the given directory, if one is given. -/
def create (disk : Disk) (current : String) (directory : Option String)
    (client : Option HttpClient) : Except Error CompositeLoader := do
  let root ← directory.mapM (DirectoryLoader.root current)
  return ⟨disk, current, root, client⟩

def fetch (loader : CompositeLoader) : Fetch :=
  fun source =>
    match source.kind with
    | .file => FileLoader.fetch loader.disk loader.current source
    | .fs =>
      match loader.root with
      | none => .error (Fetch.error .noRoot source.location)
      | some root => DirectoryLoader.fetch loader.disk root source
    | .url =>
      match loader.client with
      | none => .error (Fetch.error .httpUnsupported source.location)
      | some client => HttpLoader.fetch client source

def fetch? (loader : CompositeLoader) : Option Source → Except Error Document
  | none => .error (Fetch.error .noSource "")
  | some source => loader.fetch source

/-- The path of the disk that is read for a source, if any is. -/
def path? (loader : CompositeLoader) (source : Source) : Option String :=
  match source.kind with
  | .file => (FileLoader.path loader.current source).toOption
  | .fs => loader.root.bind fun root => (DirectoryLoader.path root source).toOption
  | .url => none

end CompositeLoader

end SchemaForms
