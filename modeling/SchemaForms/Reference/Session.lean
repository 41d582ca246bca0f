import SchemaForms.Reference.Anchors
import SchemaForms.Reference.Options
import SchemaForms.Reference.Origin
import SchemaForms.Reference.Sandbox
import SchemaForms.Source.Creation
import SchemaForms.Uri.Join

/-!
# Sessions

A session resolves the references of one root document. It keeps every document that it has read,
so that each is fetched once, and it knows which references are being expanded, one inside the
other. `Session.load` fetches a document, `Session.locate` finds what a reference denotes.

A loader is asked with the sources of the earlier requests, so that a reply may depend on them; a
loader that does not look at them is a function of the source.
-/

namespace SchemaForms

/-- How documents are fetched: the reply to a request, given the earlier requests in order. -/
abbrev Loader := List Source → Source → Except Error Document

/-- A document of a session. -/
structure Entry where
  origin : Origin
  kind : SourceKind
  data : Members
  anchors : AnchorTable
deriving Repr

namespace Entry

def key (entry : Entry) : String := entry.origin.key

def location (entry : Entry) : String := entry.origin.location

def directory (entry : Entry) : String := entry.origin.directory

end Entry

/-- The references being expanded, innermost first, with the set of their keys. -/
structure Trail where
  stack : List String := []
  opened : List String := []
deriving DecidableEq, Repr

namespace Trail

/-- The key belongs to a reference that is being expanded. -/
def contains (trail : Trail) (key : String) : Bool :=
  trail.opened.contains key

def depth (trail : Trail) : Nat :=
  trail.stack.length

/-- Begin to expand a reference. -/
def push (trail : Trail) (key : String) : Trail where
  stack := key :: trail.stack
  opened := if trail.opened.contains key then trail.opened else key :: trail.opened

/-- End the expansion of the innermost reference. -/
def pop (trail : Trail) : Trail :=
  match trail.stack with
  | [] => trail
  | key :: rest => ⟨rest, trail.opened.filter (· ≠ key)⟩

/-- The keys are distinct and the set holds just them. -/
def Sound (trail : Trail) : Prop :=
  trail.stack.Nodup ∧ ∀ key, key ∈ trail.opened ↔ key ∈ trail.stack

/-- Beginning and ending the expansion of a reference that is not being expanded changes
nothing. -/
theorem pop_push {trail : Trail} {key : String} (h : trail.contains key = false) :
    (trail.push key).pop = trail := by
  have hk : key ∉ trail.opened := by simpa [contains] using h
  have hf : trail.opened.filter (· ≠ key) = trail.opened := by
    rw [List.filter_eq_self]
    intro other hm
    simpa using fun he : other = key => hk (he ▸ hm)
  have hc : trail.opened.contains key = false := h
  have hcons : (key :: trail.opened).filter (· ≠ key) = trail.opened := by
    rw [List.filter_cons_of_neg (by simp), hf]
  unfold pop push
  rw [hc]
  exact congrArg (Trail.mk trail.stack) hcons

end Trail

/-- What a session has read and is doing. -/
structure SessionState where
  /-- The documents read, in the order in which they were read. -/
  cache : List Entry := []
  /-- The root document, once there is one. -/
  root : Option Entry := none
  /-- The requests to the loader, failed ones included, in order. -/
  requests : List Source := []
  trail : Trail := {}
deriving Repr

namespace SessionState

def find? (state : SessionState) (key : String) : Option Entry :=
  state.cache.find? fun entry => entry.key = key

/-- Put a document into a list, in the place of the one with its key if there is one. -/
def storeIn (entry : Entry) : List Entry → List Entry
  | [] => [entry]
  | head :: rest => if head.key = entry.key then entry :: rest else head :: storeIn entry rest

def store (state : SessionState) (entry : Entry) : SessionState :=
  { state with cache := storeIn entry state.cache }

/-- The directory of the root document; before there is one, the given directory. -/
def rootDirectory (state : SessionState) (fallback : String) : String :=
  (state.root.map Entry.directory).getD fallback

end SessionState

/-- The step of a session: it may change the session, and fail. -/
abbrev Run := ExceptT Error (StateM SessionState)

/-- What stays the same during a session. -/
structure Session where
  loader : Option Loader := none
  options : ResolveOptions := {}
  /-- The current directory, from which relative file paths start. -/
  current : String := "/"
  /-- Stop at a reference that is being expanded already. -/
  detectsCycles : Bool := true

namespace Session

/-- The document has more octets than are allowed. -/
def checkSize (session : Session) (document : Document) (location : String) : Except Error Unit :=
  if session.options.maxDocumentSize < document.size then
    .error (.schema (.limit (.documentSize document.size)) location)
  else .ok ()

/-- The session's entry for a document that a reference led to. -/
def accept (session : Session) (kind : SourceKind) (origin : Origin) (document : Document) :
    Except Error Entry := do
  session.checkSize document origin.location
  let data ← Dialect.parse document.raw origin.location
  Dialect.validate data origin.location
  let anchors ← Anchors.index (.obj data) origin.location "#"
  return ⟨origin, kind, data, anchors⟩

/-- Begin a session with its root document. The payload is what the document holds. -/
def openRoot (session : Session) (document : Document) (payload : Json) : Run Entry := do
  let data ← match payload with
    | .obj members => pure members
    | _ => throw (.schema (.reference .payloadNotObject) document.location)
  let origin := Origin.ofSource session.current document.source
  session.checkSize document origin.location
  let anchors ← Anchors.index payload origin.location "#"
  let entry : Entry := ⟨origin, document.kind, data, anchors⟩
  modify fun state => { state.store entry with root := some entry }
  return entry

/-- Ask the loader, and note the request. -/
def request (loader : Loader) (source : Source) : Run Document := do
  let state ← get
  set { state with requests := state.requests ++ [source] }
  loader state.requests source

/-- The document at a source: the one that the session has, or else what the loader fetches. -/
def load (session : Session) (source : Source) : Run Entry := do
  let origin := Origin.ofSource session.current source
  let state ← get
  match state.find? origin.key with
  | some entry => return entry
  | none =>
    if session.options.maxDocuments ≤ state.cache.length then
      throw (.schema (.limit (.documents session.options.maxDocuments)) origin.location)
    match session.loader with
    | none => throw (.schema (.load .noLoader) origin.location)
    | some loader =>
      let document ← request loader source
      let entry ← session.accept source.kind origin document
      modify (·.store entry)
      return entry

/-- The source of a reference with the `file` scheme. -/
def fileSource (session : Session) (state : SessionState) (entry : Entry)
    (path ref place : String) : Except Error Source :=
  if session.options.allowTraversal then .ok (Source.ofFile path)
  else match state.root with
    | some root =>
      if root.kind = .file then do
        let directory := if entry.kind = .file then entry.directory else root.directory
        let path ← Sandbox.cleanFile session.options session.current root.directory directory path
          ref place
        return Source.ofFile path
      else .error (Sandbox.escape ref place)
    | none => .error (Sandbox.escape ref place)

def relativeSource (session : Session) (state : SessionState) (entry : Entry)
    (ref place : String) : Except Error Source :=
  let root := state.rootDirectory entry.directory
  let path := Text.percentDecode ref
  match entry.kind with
  | .file => do
    let path ← Sandbox.cleanFile session.options session.current root entry.directory path ref place
    return Source.ofFile path
  | .fs => do
    let name ← Sandbox.cleanName session.options root entry.directory path ref place
    return Source.ofName name
  | .url =>
    if session.options.allowHttp then
      match Uri.join entry.location ref with
      | .error fault => .error (.url fault)
      | .ok url => (Source.ofUrl url).mapError .source
    else .error (.schema (.httpDisabled ref) place)

/-- The source that a reference from a document names. `path` is the reference without its
fragment. -/
def sourceOf (session : Session) (state : SessionState) (entry : Entry)
    (ref path place : String) : Except Error Source :=
  match Uri.parse path with
  | .error _ => .error (.schema (.reference (.invalid ref)) place)
  | .ok uri =>
    if uri.scheme = "http" || uri.scheme = "https" then
      if session.options.allowHttp then (Source.ofUrl path).mapError .source
      else .error (.schema (.httpDisabled ref) place)
    else if uri.scheme = "file" then
      session.fileSource state entry (Text.percentDecode uri.path) ref place
    else if uri.scheme ≠ "" then
      .error (.schema (.reference (.unsupportedScheme uri.scheme)) place)
    else session.relativeSource state entry path place

end Session

/-- The value at a pointer; the empty pointer and `#` mean the root. -/
def resolvePointer (root : Json) (pointer place : String) : Except Error Json :=
  if pointer = "" || pointer = "#" then .ok root
  else if !Text.startsWith '/' pointer then
    .error (.schema (.reference (.invalidPointer pointer)) place)
  else match Pointer.walk root pointer with
    | .ok value => .ok value
    | .error (.digits fault) => .error (.digits fault)
    | .error _ => .error (.schema (.reference (.pointerNotFound pointer)) place)

/-- What a fragment denotes in a document, with its path: the root, the value at a pointer, or the
object with an anchor. -/
def Entry.fragment (entry : Entry) (fragment place : String) : Except Error (String × Json) :=
  let fragment := Text.dropLeading '#' fragment
  if fragment = "" then .ok ("#", .obj entry.data)
  else if Text.startsWith '/' fragment then
    (resolvePointer (.obj entry.data) fragment place).map fun value => ("#" ++ fragment, value)
  else match entry.anchors.find? fragment with
    | none => .error (.schema (.reference (.anchorNotFound fragment entry.location)) place)
    | some path =>
      let pointer := Text.dropLeading '#' path
      if pointer = "" then .ok ("#", .obj entry.data)
      else (resolvePointer (.obj entry.data) pointer place).map fun value => (path, value)

/-- What a reference denotes: a document of the session, a path in it, and the value there. -/
structure Target where
  entry : Entry
  path : String
  value : Json

/-- What the reference is known by while it is expanded. -/
def Target.key (target : Target) : String :=
  target.entry.key ++ target.path

/-- What a reference from a document denotes. A reference without a path stays in the document. -/
def Session.locate (session : Session) (entry : Entry) (ref place : String) : Run Target := do
  let (path, fragment) := Text.cut '#' ref
  if path = "" then
    let (path, value) ← entry.fragment (fragment.getD "") place
    return ⟨entry, path, value⟩
  else
    let state ← get
    let source ← session.sourceOf state entry ref path place
    let entry ← session.load source
    let (path, value) ← entry.fragment (fragment.getD "") place
    return ⟨entry, path, value⟩

end SchemaForms
