import SchemaForms.Loader.Basic

/-!
# Files and directories

The file loader reads files from anywhere on a disk. The directory loader reads resources from
below one directory: a name that climbs out of it is refused, and slashes in front of a name mean
nothing.

A path is looked up component by component before `..` takes any of them back, so a null character
anywhere in the path of a file or of a directory is an error. The name of a resource is made normal
first, and there only the components that are left count.
-/

namespace SchemaForms

/-- The path by which the disk knows what a path leads to, given the current directory. -/
def Fetch.locate (current path : String) : Except Error String :=
  if path.toList.contains '\x00' then .error (.source .nullInPath)
  else .ok (Path.onDisk current path)

namespace FileLoader

def path (current : String) (source : Source) : Except Error String := do
  Fetch.expectKind "file" .file source
  Fetch.expectLocation "file path" source
  Fetch.locate current source.location

def fetch (disk : Disk) (current : String) : Fetch :=
  fun source => do
    let path ← path current source
    match disk path with
    | .error fault => throw (Fetch.unreadable "file" fault path)
    | .ok raw => Fetch.document source raw

end FileLoader

namespace DirectoryLoader

/-- The directory below which a loader reads, given the current directory. -/
def root (current directory : String) : Except Error String :=
  Fetch.locate current directory

/-- The name of a resource as the loader reads it. -/
def nameOf (location : String) : String :=
  Path.normalize (Path.dropSlashes location)

/-- The name that is read for a source; it does not climb out of the directory. -/
def name (source : Source) : Except Error String := do
  Fetch.expectKind "directory" .fs source
  Fetch.expectLocation "fs path" source
  if Path.climbs (nameOf source.location) then
    throw (Fetch.error .escapesRoot source.location)
  return nameOf source.location

def path (root : String) (source : Source) : Except Error String :=
  (name source).map (Path.onDisk root)

def fetch (disk : Disk) (root : String) : Fetch :=
  fun source => do
    let name ← name source
    match disk (Path.onDisk root name) with
    | .error fault => throw (Fetch.unreadable name fault source.location)
    | .ok raw => Fetch.document source raw

end DirectoryLoader

end SchemaForms
