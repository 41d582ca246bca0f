import SchemaForms.Text.Split

/-!
# Paths

Paths with slashes, as POSIX has them. A path is normal when it has no empty component, no `.`, and
`..` only in front, where a path that begins at the root has none. Two slashes in front of a path
are kept, since they may have a meaning of their own; three and more are one. Nothing here looks at
a disk, so symbolic links are not followed.
-/

namespace SchemaForms.Path

/-- The number of slashes that a normal path keeps in front. -/
def leadingSlashes : List Char → Nat
  | '/' :: '/' :: '/' :: _ => 1
  | '/' :: '/' :: _ => 2
  | '/' :: _ => 1
  | _ => 0

def isAbsolute (path : String) : Bool :=
  Text.startsWith '/' path

/-- Walk one component further, from the components passed so far, last one first. A `..` takes
back the component before it; in front of a path it stays, unless the path begins at the root. -/
def advance (rooted : Bool) (passed : List String) (component : String) : List String :=
  if component = "" || component = "." then passed
  else if component = ".." then
    match passed with
    | [] => if rooted then [] else [".."]
    | last :: before => if last = ".." then ".." :: passed else before
  else component :: passed

/-- The components at the end of a walk. -/
def resolve (rooted : Bool) (components : List String) : List String :=
  (components.foldl (advance rooted) []).reverse

/-- The components of a normal path. -/
def components (path : String) : List String :=
  resolve (isAbsolute path) (Text.split '/' path)

def normalize (path : String) : String :=
  let front := List.replicate (leadingSlashes path.toList) '/'
  let text := front ++ Text.joinChars '/' ((components path).map String.toList)
  if text.isEmpty then "." else String.ofList text

/-- The path reached from a directory; a path that begins at the root is reached from anywhere. -/
def append (directory path : String) : String :=
  if isAbsolute path then path
  else if directory = "" || directory.toList.getLast? = some '/' then directory ++ path
  else directory ++ "/" ++ path

/-- The directory that holds the end of the path: all in front of the last slash. -/
def directory (path : String) : String :=
  let head := (path.toList.reverse.dropWhile (· ≠ '/')).reverse
  if head.all (· = '/') then String.ofList head
  else String.ofList (head.reverse.dropWhile (· = '/')).reverse

/-- The normal path from the root, given the current directory. -/
def absolute (current path : String) : String :=
  normalize (append current path)

/-- The path by which a disk knows a file, given the current directory: from the root, without `..`
and with one slash in front. -/
def onDisk (current path : String) : String :=
  "/" ++ Text.join '/' (components (append current path))

def dropSlashes (path : String) : String :=
  String.ofList (path.toList.dropWhile (· = '/'))

/-- The normal relative path climbs out of the directory that it starts in. -/
def climbs (path : String) : Bool :=
  path = ".." || path.toList.take 3 = ['.', '.', '/']

/-- The names on a path: what stands between its slashes. -/
def names (path : String) : List String :=
  (Text.split '/' path).filter (· ≠ "")

/-- The number of names that two rows of names have in common in front. -/
def sharedNames : List String → List String → Nat
  | a :: as, b :: bs => if a = b then sharedNames as bs + 1 else 0
  | _, _ => 0

/-- The path that leads from a directory to another path, given the current directory: up to the
names that both have in common in front, and down from there. -/
def relative (current start path : String) : String :=
  let start := names (absolute current start)
  let path := names (absolute current path)
  let shared := sharedNames start path
  let steps := List.replicate (start.length - shared) ".." ++ path.drop shared
  if steps.isEmpty then "." else Text.join '/' steps

/-- The path as programs show it: without empty components and `.`, but with every `..`. -/
def tidy (path : String) : String :=
  let front := List.replicate (leadingSlashes path.toList) '/'
  let kept := (Text.split '/' path).filter fun component => component ≠ "" && component ≠ "."
  let text := front ++ Text.joinChars '/' (kept.map String.toList)
  if text.isEmpty then "." else String.ofList text

end SchemaForms.Path
