import SchemaForms.Json.Basic

/-!
# Values in memory

In memory an object or an array is a cell with an address, and a value refers to it by that. Several
values may refer to one cell, and a change of the cell is seen through all of them. Stored JSON
values have a cell of their own for each of their objects and arrays; reading follows the references.
-/

namespace SchemaForms

/-- A JSON value that is neither an array nor an object. -/
inductive Atom where
  | null
  | bool (b : Bool)
  | int (n : Int)
  | double (x : Binary64)
  | str (s : String)
deriving DecidableEq, Repr

def Atom.toJson : Atom → Json
  | .null => .null
  | .bool b => .bool b
  | .int n => .int n
  | .double x => .double x
  | .str s => .str s

namespace Memory

inductive Value where
  | atom (atom : Atom)
  | ref (address : Nat)
deriving DecidableEq, Repr

inductive Cell where
  | arr (elements : List Value)
  | obj (members : List (String × Value))
deriving DecidableEq, Repr

end Memory

/-- Cells, whose addresses are their places in the list. -/
abbrev Memory := List Memory.Cell

namespace Memory

/-- Give the first pair with the given name a value, or put such a pair at the end. -/
def setNamed {α : Type} : List (String × α) → String → α → List (String × α)
  | [], key, value => [(key, value)]
  | (name, old) :: rest, key, value =>
    if name = key then (name, value) :: rest else (name, old) :: setNamed rest key value

def setAllNamed {α : Type} (pairs updates : List (String × α)) : List (String × α) :=
  updates.foldl (fun pairs update => setNamed pairs update.1 update.2) pairs

def members? (memory : Memory) : Value → Option (List (String × Value))
  | .atom _ => none
  | .ref address =>
    match memory[address]? with
    | some (.obj members) => some members
    | _ => none

mutual

/-- Store a value: what refers to it, and the memory then. -/
def store : Json → Memory → Value × Memory
  | .null, memory => (.atom .null, memory)
  | .bool b, memory => (.atom (.bool b), memory)
  | .int n, memory => (.atom (.int n), memory)
  | .double x, memory => (.atom (.double x), memory)
  | .str s, memory => (.atom (.str s), memory)
  | .arr elements, memory =>
    let (values, memory) := storeElements elements memory
    (.ref memory.length, memory ++ [.arr values])
  | .obj members, memory =>
    let (values, memory) := storeMembers members memory
    (.ref memory.length, memory ++ [.obj values])

/-- Store one value after another. -/
def storeElements : List Json → Memory → List Value × Memory
  | [], memory => ([], memory)
  | element :: rest, memory =>
    let (value, memory) := store element memory
    let (values, memory) := storeElements rest memory
    (value :: values, memory)

/-- Store the values of members, one after another. -/
def storeMembers : List (String × Json) → Memory → List (String × Value) × Memory
  | [], memory => ([], memory)
  | (key, member) :: rest, memory =>
    let (value, memory) := store member memory
    let (values, memory) := storeMembers rest memory
    ((key, value) :: values, memory)

end

/-- Read a value whose parts are nested to a given depth at most. -/
def readWithin : Nat → Memory → Value → Option Json
  | _, _, .atom atom => some atom.toJson
  | 0, _, .ref _ => none
  | depth + 1, memory, .ref address =>
    match memory[address]? with
    | some (.arr elements) => (elements.mapM (readWithin depth memory)).map .arr
    | some (.obj members) =>
      (members.mapM fun member =>
        (readWithin depth memory member.2).map fun value => (member.1, value)).map .obj
    | none => none

/-- Read a value. Only one that contains itself is nested deeper than there are cells. -/
def read? (memory : Memory) (value : Value) : Option Json :=
  readWithin memory.length memory value

end Memory

end SchemaForms
