import SchemaForms.Error
import SchemaForms.Path

/-!
# Disks

A disk tells what is found at a path from its root. A file tree is a disk in memory: it is given by
its files and directories, and every directory that holds a file is there without being named. A
path is walked one component at a time, and each component but the last has to lead to a
directory.
-/

namespace SchemaForms

/-- What is found at a path. -/
abbrev Disk := String → Except DiskFault Octets

/-- Files and directories by the rows of names that lead to them. -/
structure FileTree where
  files : List (List String × Octets) := []
  directories : List (List String) := []
deriving Repr

namespace FileTree

def isDirectory (tree : FileTree) (names : List String) : Bool :=
  names.isEmpty || tree.directories.any (names.isPrefixOf ·) ||
    tree.files.any fun file => names.isPrefixOf file.1 && file.1 ≠ names

def file? (tree : FileTree) (names : List String) : Option Octets :=
  tree.files.lookup names

/-- A name of a file may have this many octets. -/
def maxNameSize : Nat := 255

/-- Walk from a directory along components; the names passed so far are given last one first. -/
def walk (tree : FileTree) (passed : List String) : List String → Except DiskFault Octets
  | [] => .error .isDirectory
  | component :: rest =>
    if component = "" || component = "." then walk tree passed rest
    else if component = ".." then walk tree passed.tail rest
    else
      let names := (component :: passed).reverse
      match tree.file? names with
      | some octets => if rest.isEmpty then .ok octets else .error .notDirectory
      | none =>
        if tree.isDirectory names then walk tree (component :: passed) rest
        else if maxNameSize < (Text.Utf8.encode component).length then .error .nameTooLong
        else .error .notFound

def read (tree : FileTree) : Disk :=
  fun path =>
    if path.toList.contains '\x00' then .error .nullInPath
    else walk tree [] (Text.split '/' path)

def namesOf (path : String) : List String :=
  Path.components path

def addFile (tree : FileTree) (path : String) (content : Octets) : FileTree :=
  { tree with files := (namesOf path, content) :: tree.files }

def addDirectory (tree : FileTree) (path : String) : FileTree :=
  { tree with directories := namesOf path :: tree.directories }

end FileTree

end SchemaForms
