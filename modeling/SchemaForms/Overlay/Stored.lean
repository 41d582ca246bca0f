import SchemaForms.Memory
import SchemaForms.Overlay

/-!
# Overlays in memory

An overlay that is used for several documents stays in memory between the uses. An extension that
replaces a member is not copied: the tree then refers to the object of the overlay itself. An
extension that is merged is copied, but only its outermost object. So an override whose path leads
through an extension that was put there before changes the overlay, and a later use finds it changed.
-/

namespace SchemaForms

open Memory

/-- An override whose extensions are in memory. -/
structure StoredOverride where
  path : String
  extensions : List (String × Value)

abbrev StoredOverlay := List StoredOverride

namespace StoredOverlay

def store : List Override → Memory → StoredOverlay × Memory
  | [], memory => ([], memory)
  | override :: rest, memory =>
    let (extensions, memory) := storeMembers override.extensions memory
    let (stored, memory) := store rest memory
    (⟨override.path, extensions⟩ :: stored, memory)

/-- The address of the object at the end of a row of tokens. -/
def find (memory : Memory) : List String → Value → Except Overlay.TargetFault Nat
  | [], .ref address =>
    match memory[address]? with
    | some (.obj _) => .ok address
    | _ => .error (.overlay .targetNotObject)
  | [], .atom _ => .error (.overlay .targetNotObject)
  | token :: rest, .ref address =>
    match memory[address]? with
    | some (.obj members) =>
      match members.lookup token with
      | some value => find memory rest value
      | none => .error (.overlay .pathNotFound)
    | some (.arr elements) =>
      match Pointer.index token elements.length with
      | .error fault => .error (.digits fault)
      | .ok found =>
        match found.bind (elements[·]?) with
        | some value => find memory rest value
        | none => .error (.overlay .pathNotFound)
    | none => .error (.overlay .pathNotFound)
  | _ :: _, .atom _ => .error (.overlay .pathNotFound)

/-- Put one extension into the object at an address. A merged one is a new object. -/
def putExtension (target : Nat) (memory : Memory) (extension : String × Value) : Memory :=
  let (key, value) := extension
  let members := (members? memory (.ref target)).getD []
  if Overlay.isMerged key then
    let present := ((members.lookup key).bind (members? memory)).getD []
    let updates := (members? memory value).getD []
    memory.set target (.obj (setNamed members key (.ref memory.length))) ++
      [.obj (setAllNamed present updates)]
  else memory.set target (.obj (setNamed members key value))

def applyOverride (override : StoredOverride) (root : Value) (memory : Memory) :
    Except Error Memory :=
  match Overlay.pathTokens override.path with
  | .error fault => .error (Overlay.error fault override.path)
  | .ok tokens =>
    match find memory tokens root with
    | .error fault => .error (fault.error override.path)
    | .ok target => .ok (override.extensions.foldl (putExtension target) memory)

/-- Apply overrides in order: the memory behind them, and the error of the one that failed. -/
def applyOverrides : StoredOverlay → Value → Memory → Memory × Option Error
  | [], _, memory => (memory, none)
  | override :: rest, root, memory =>
    match applyOverride override root memory with
    | .ok memory => applyOverrides rest root memory
    | .error e => (memory, some e)

/-- Apply an overlay to the tree below a value; an empty tree is left alone. -/
def apply (overlay : StoredOverlay) (root : Value) (memory : Memory) : Memory × Option Error :=
  if members? memory root = some [] then (memory, none) else applyOverrides overlay root memory

end StoredOverlay

end SchemaForms
