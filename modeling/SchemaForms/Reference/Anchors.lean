import SchemaForms.Dialect
import SchemaForms.Pointer

/-!
# Anchors

An object gives itself a name by its `$anchor` member. Anchors are collected from a whole document,
an object before what lies in it, but not from within vendor extensions. No name may be given
twice.
-/

namespace SchemaForms

/-- The names of a document's anchors, each with the path of the object that has it. -/
abbrev AnchorTable := List (String × String)

namespace AnchorTable

def find? (anchors : AnchorTable) (name : String) : Option String :=
  (List.find? (fun anchor => anchor.1 = name) anchors).map (·.2)

end AnchorTable

namespace Anchors

/-- The name that an object gives itself, if it is not blank. -/
def own? (members : Members) : Option String :=
  match Members.get? members "$anchor" with
  | some (.str s) => if Text.trim s = "" then none else some (Text.trim s)
  | _ => none

mutual

/-- The anchors of a value at a path, in the order in which they are met. -/
def declared (path : String) : Json → AnchorTable
  | .obj members =>
    ((own? members).toList.map fun name => (name, path)) ++ declaredMembers path members
  | .arr elements => declaredElements path 0 elements
  | _ => []

/-- The anchors of the elements of an array, the first of which has the given index. -/
def declaredElements (path : String) (index : Nat) : List Json → AnchorTable
  | [] => []
  | value :: rest =>
    declared (Pointer.join path [toString index]) value ++ declaredElements path (index + 1) rest

def declaredMembers (path : String) : List (String × Json) → AnchorTable
  | [] => []
  | (key, value) :: rest =>
    (if Dialect.isVendorExtension key then [] else declared (Pointer.join path [key]) value) ++
      declaredMembers path rest

end

/-- Add an anchor to a table that does not have its name yet. -/
def add (location : String) (anchors : AnchorTable) (anchor : String × String) :
    Except Error AnchorTable :=
  match AnchorTable.find? anchors anchor.1 with
  | some _ => .error (.schema (.reference (.duplicateAnchor anchor.1)) (location ++ anchor.2))
  | none => .ok (anchors ++ [anchor])

/-- The anchors of a value, unless two have one name. -/
def index (value : Json) (location path : String) : Except Error AnchorTable :=
  (declared path value).foldlM (add location) []

end Anchors

end SchemaForms
