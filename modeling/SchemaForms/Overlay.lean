import SchemaForms.Dialect
import SchemaForms.Pointer

/-!
# Overlays

An overlay is a document that changes the extensions of a schema tree. Each of its overrides names
an object by a pointer and carries extension members for it. The objects `x-formgen` and `x-admin`
are merged into the ones that the target has; members with a longer name of that kind replace the
target's.

Overrides are applied in order. When one fails, those before it have taken effect.

Here an overlay is a value. `StoredOverlay` is one that is kept in memory and shares its objects with
the trees it is applied to; its first use is the same.
-/

namespace SchemaForms

/-- Extension members for the object at a path. -/
structure Override where
  path : String
  extensions : Members
deriving DecidableEq, Repr

structure Overlay where
  overrides : List Override := []
deriving DecidableEq, Repr

namespace Overlay

def dialect : String := "x-ui-overlay/v1"

/-- Extensions that are objects and are merged. -/
def mergedKeys : List String := ["x-formgen", "x-admin"]

/-- The beginnings of the names of extensions that are replaced. -/
def singleValueBeginnings : List String := ["x-formgen-", "x-admin-"]

/-- An extension that is merged. -/
def isMerged (key : String) : Bool :=
  mergedKeys.contains key

/-- An extension that is replaced. -/
def isSingleValue (key : String) : Bool :=
  singleValueBeginnings.any fun beginning => beginning.toList.isPrefixOf key.toList

def error (fault : OverlayFault) (path : String) : Error :=
  .schema (.overlay fault) path

/-- The extensions that an override's members carry, for the object at a path. -/
def readExtensions (path : String) : Members → Except Error Members
  | [] => .ok []
  | (key, value) :: rest =>
    if isMerged key then
      match value with
      | .obj _ => (readExtensions path rest).map ((key, value) :: ·)
      | _ => .error (error (.extensionNotObject key) path)
    else if isSingleValue key then (readExtensions path rest).map ((key, value) :: ·)
    else readExtensions path rest

/-- The override that an element of the overlay's list writes. -/
def readOverride (index : Nat) (value : Json) : Except Error Override :=
  match value with
  | .obj members =>
    let path := Text.trim (Members.text members "path")
    if path = "" then .error (error (.overrideWithoutPath index) "")
    else (readExtensions path members).map fun extensions => ⟨path, extensions⟩
  | _ => .error (error (.overrideNotObject index) "")

/-- The overrides that the elements of the overlay's list write, the first of which has the given
index. An override without extensions is left out. -/
def readOverrides (index : Nat) : List Json → Except Error (List Override)
  | [] => .ok []
  | value :: rest => do
    let override ← readOverride index value
    let others ← readOverrides (index + 1) rest
    return if override.extensions.isEmpty then others else override :: others

def ofJson (value : Json) : Except Error Overlay :=
  match value with
  | .obj members =>
    let named := Text.dropFinal '#' (Text.trim (Members.text members "$schema"))
    if named = "" then .error (error .noDialect "")
    else if named ≠ dialect then .error (error (.unsupported named) "")
    else match Members.get? members "overrides" with
      | none => .ok {}
      | some (.arr elements) => (readOverrides 0 elements).map Overlay.mk
      | some _ => .error (error .overridesNotArray "")
  | _ => .error (error .notObject "")

/-- The overlay that was read as JSON, or the reason why it was not. -/
def ofRead (read : Except Json.ReadFault Json) : Except Error Overlay :=
  match read with
  | .error fault => .error (.ofRead (fun fault => .overlay (.unreadable fault)) "" fault)
  | .ok value => ofJson value

def ofOctets (raw : Octets) : Except Error Overlay :=
  if (Dialect.trimOctets raw).isEmpty then .error (error .empty "") else ofRead (Json.ofOctets raw)

def ofText (text : String) : Except Error Overlay :=
  if Text.trim text = "" then .error (error .empty "") else ofRead (Json.ofText text)

/-- The tokens of an override's path, which may begin with `#`. The empty path and a single slash
mean the root. -/
def pathTokens (path : String) : Except OverlayFault (List String) :=
  let pointer := Text.dropLeading '#' (Text.trim path)
  if pointer = "" || pointer = "/" then .ok []
  else if Text.startsWith '/' pointer then .ok (Pointer.tokens pointer)
  else .error .notPointer

inductive TargetFault where
  | overlay (fault : OverlayFault)
  /-- A token has too many digits for an index. -/
  | digits (fault : Text.DigitFault)
deriving DecidableEq, Repr

def TargetFault.error (path : String) : TargetFault → Error
  | .overlay fault => Overlay.error fault path
  | .digits fault => .digits fault

/-- The members of the object at the end of a row of tokens. -/
def find : List String → Json → Except TargetFault Members
  | [], .obj members => .ok members
  | [], _ => .error (.overlay .targetNotObject)
  | token :: rest, .obj members =>
    match Members.get? members token with
    | some value => find rest value
    | none => .error (.overlay .pathNotFound)
  | token :: rest, .arr elements =>
    match Pointer.index token elements.length with
    | .error fault => .error (.digits fault)
    | .ok found =>
      match found.bind (elements[·]?) with
      | some value => find rest value
      | none => .error (.overlay .pathNotFound)
  | _ :: _, _ => .error (.overlay .pathNotFound)

/-- Change the members of the object at the end of a row of tokens. -/
def edit (change : Members → Members) : List String → Json → Except TargetFault Json
  | [], .obj members => .ok (.obj (change members))
  | [], _ => .error (.overlay .targetNotObject)
  | token :: rest, .obj members =>
    match Members.get? members token with
    | some value => (edit change rest value).map fun value => .obj (Members.set members token value)
    | none => .error (.overlay .pathNotFound)
  | token :: rest, .arr elements =>
    match Pointer.index token elements.length with
    | .error fault => .error (.digits fault)
    | .ok none => .error (.overlay .pathNotFound)
    | .ok (some index) =>
      match elements[index]? with
      | some value => (edit change rest value).map fun value => .arr (elements.set index value)
      | none => .error (.overlay .pathNotFound)
  | _ :: _, _ => .error (.overlay .pathNotFound)

/-- The members of the object that an override's path means. -/
def target (root : Json) (path : String) : Except Error Members :=
  match pathTokens path with
  | .error fault => .error (error fault path)
  | .ok tokens => (find tokens root).mapError (TargetFault.error path)

def applyExtension (members : Members) (extension : String × Json) : Members :=
  let (key, value) := extension
  if isMerged key then
    let present := ((Members.get? members key).bind Json.members?).getD []
    let updates := (value.members?).getD []
    Members.set members key (.obj (Members.setAll present updates))
  else Members.set members key value

def applyOverride (override : Override) (root : Json) : Except Error Json :=
  match pathTokens override.path with
  | .error fault => .error (error fault override.path)
  | .ok tokens =>
    (edit (override.extensions.foldl applyExtension) tokens root).mapError
      (TargetFault.error override.path)

/-- Apply overrides in order: the tree behind them, and the error of the one that failed. -/
def applyOverrides : List Override → Json → Json × Option Error
  | [], root => (root, none)
  | override :: rest, root =>
    match applyOverride override root with
    | .ok root => applyOverrides rest root
    | .error e => (root, some e)

/-- Apply an overlay to a tree; an empty tree is left alone. -/
def apply (overlay : Overlay) (root : Json) : Json × Option Error :=
  match root with
  | .obj [] => (root, none)
  | _ => applyOverrides overlay.overrides root

def applied (overlay : Overlay) (root : Json) : Except Error Json :=
  match overlay.apply root with
  | (root, none) => .ok root
  | (_, some e) => .error e

end Overlay

end SchemaForms
