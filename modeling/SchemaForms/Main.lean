import SchemaForms.CommandLine.Run

/-!
# The program

The commands are pure, so the program finds out what they read by running them: it starts with an
empty disk, reads the first path that was asked for and is not known yet, and runs the command
again, until all that it asked for is known. Texts are spelled anew where they come in, and plain
where they go out. The console prints mark-up without its styles.
-/

namespace SchemaForms.CommandLine

def readDisk (path : String) : IO (Except DiskFault Octets) := do
  if path.toList.contains '\x00' then return .error .nullInPath
  try
    let bytes ← IO.FS.readBinFile (Text.plainText path)
    return .ok bytes.toList
  catch
    | .permissionDenied .. => return .error .denied
    | .inappropriateType _ code _ =>
      let isDirectory := code.toNat = DiskFault.isDirectory.number
      return .error (if isDirectory then .isDirectory else .notDirectory)
    | _ => return .error .notFound

def readEnvironment : IO Environment := do
  Settings.names.filterMapM fun name => do
    return (← IO.getEnv name).map fun value => (name, Text.spellText value)

def noClient : HttpClient :=
  fun _ => .error "the network is not available"

/-- Mark-up without its tags; a backslash in front of a bracket vanishes. -/
def dropTags (inTag : Bool) : List Char → List Char
  | [] => []
  | '\\' :: '[' :: rest => if inTag then dropTags true rest else '[' :: dropTags false rest
  | '[' :: rest => dropTags true rest
  | c :: rest => if inTag then dropTags (c ≠ ']') rest else c :: dropTags false rest

/-- A row of cells, each filled up to the width of its column. -/
def tableLine (left middle right : String) (fill : Char) (widths : List Nat)
    (cells : List String) : String :=
  let padded := List.zipWith (fun width cell => cell ++ "".pushn fill (width - cell.length))
    widths cells
  left ++ middle.intercalate padded ++ right ++ "\n"

/-- A table with heavy lines around its head and light ones around its rows. -/
def plainTable (head : List String) (rows : List (List String)) : String :=
  let cells := (head :: rows).map fun row => row.map fun cell => " " ++ cell ++ " "
  let widths := cells.foldl (fun widths row => List.zipWith max widths (row.map String.length))
    (head.map fun _ => 0)
  let blank := head.map fun _ => ""
  tableLine "┏" "┳" "┓" '━' widths blank ++ tableLine "┃" "┃" "┃" ' ' widths (cells.headD []) ++
    tableLine "┡" "╇" "┩" '━' widths blank ++
    String.join (cells.tail.map (tableLine "│" "│" "│" ' ' widths)) ++
    tableLine "└" "┴" "┘" '─' widths blank

/-- The console of a terminal without styles, on which tables have plain cells. -/
def plainConsole : Console where
  escape text := text.replace "[" "\\["
  print markup := .ok (String.ofList (dropTags false markup.toList) ++ "\n")
  table head rows := .ok (plainTable head rows)

/-- Run a command until all paths that it reads are known. -/
partial def settle (arguments : List String) (current : String) (environment : Environment)
    (known : List (String × Except DiskFault Octets)) : IO Outcome := do
  let world : World := {
    disk := fun path => (known.lookup path).getD (.error .notFound)
    current := current
    environment := environment
    client := noClient
    console := plainConsole }
  let outcome := runArguments arguments world
  match outcome.reads.find? fun path => (known.lookup path).isNone with
  | none => return outcome
  | some path => settle arguments current environment ((path, ← readDisk path) :: known)

end SchemaForms.CommandLine

open SchemaForms.CommandLine in
def main (arguments : List String) : IO UInt32 := do
  let current := SchemaForms.Text.spellText (toString (← IO.currentDir))
  let spelled := arguments.map SchemaForms.Text.spellText
  let outcome ← settle spelled current (← readEnvironment) []
  IO.print (SchemaForms.Text.plainText outcome.output)
  IO.eprint (SchemaForms.Text.plainText outcome.errors)
  if let some failure := outcome.failure then
    IO.eprintln (SchemaForms.Text.plainText failure.message)
  return outcome.exitCode.toUInt32
