import Mathlib.Data.List.DropRight
import SchemaForms.Proofs.Path.Spellings
import SchemaForms.Proofs.Session.Cache
import SchemaForms.Proofs.Session.Lifted
import SchemaForms.Proofs.Session.Stack
import SchemaForms.Proofs.Session.Transparency

/-!
# One file, one document

A file or a resource can be referred to in many ways, from different directories and with different
spellings. What a relative reference reaches is a row of names, and documents of one row have one
key: so whichever way the document is named, it is fetched once, and a reference that reaches the
names of the root document leads to the root itself.

There is one exception. Two slashes in front of a path from the root of the disk are kept in its
normal form, and with it in the key. A file that is named with one slash in front and with two is two
documents.
-/

namespace SchemaForms.Session

variable {session : Session} {entry root : Entry} {state : SessionState} {ref place : String}

/-- The reference names another document by a path: it has no scheme. -/
def isRelative (ref : String) : Bool :=
  documentPart ref ≠ "" && match Uri.parse (documentPart ref) with
    | .ok uri => uri.scheme = ""
    | .error _ => false

/-- The path of such a reference, with its percent escapes decoded. -/
def pathOf (ref : String) : String :=
  Text.percentDecode (documentPart ref)

/-- The names that a reference from a document reaches. -/
def leadsTo (entry : Entry) (ref : String) : List String :=
  Path.reached entry.directory (pathOf ref)

/-- The path that a reference from a document names has two slashes in front. -/
def doubles (entry : Entry) (ref : String) : Bool :=
  Path.isDoubled (Path.append entry.directory (pathOf ref))

def keyNamed (session : Session) (state : SessionState) (entry : Entry) (ref place : String) :
    Except Error String :=
  (session.sourceOf state entry ref (documentPart ref) place).map fun source =>
    (session.originOf source).key

/-- The location of a document on the disk or inside a loader's root. -/
def locationOf (kind : SourceKind) (doubled : Bool) (steps : List String) : String :=
  if kind = .file then Path.fileOf doubled steps else Path.nameOf steps

/-- What the keys of the documents of a kind begin with. -/
def keyFront : SourceKind → String
  | .file => "file:"
  | .fs => "fs:"
  | .url => "url:"

/-- The key of a document on the disk or inside a loader's root. -/
def keyOf (kind : SourceKind) (doubled : Bool) (steps : List String) : String :=
  keyFront kind ++ locationOf kind doubled steps

theorem documentPart_ne_empty (relative : isRelative ref = true) : documentPart ref ≠ "" := by
  unfold isRelative at relative
  rw [Bool.and_eq_true, decide_eq_true_eq] at relative
  exact relative.1

theorem sourceOf_of_isRelative (relative : isRelative ref = true) :
    session.sourceOf state entry ref (documentPart ref) place =
      session.relativeSource state entry (documentPart ref) place := by
  unfold isRelative at relative
  rw [Bool.and_eq_true] at relative
  obtain ⟨-, plain⟩ := relative
  unfold sourceOf
  cases parsed : Uri.parse (documentPart ref) with
  | error fault =>
      rw [parsed] at plain
      cases plain
  | ok uri =>
      rw [parsed, decide_eq_true_eq] at plain
      simp [plain]

/-- A document on the disk or inside a loader's root, and the names of its path. -/
structure Stands (entry : Entry) (doubled : Bool) (steps : List String) : Prop where
  passed : Path.Passed (decide (entry.kind = .file)) steps.reverse
  location : entry.location = locationOf entry.kind doubled steps
  key : entry.key = keyOf entry.kind doubled steps
  directory : entry.directory = locationOf entry.kind doubled steps.dropLast

/-- The source of a file or of a resource tells where the document stands. -/
theorem stands_of_origin {location : String} (current : Path.isAbsolute session.current = true)
    (here : entry.kind ≠ .url) (origin : entry.origin = session.originOf ⟨entry.kind, location⟩) :
    ∃ doubled steps, Stands entry doubled steps := by
  cases kind : entry.kind with
  | url => exact absurd kind here
  | file =>
      have rooted := Path.isAbsolute_append current location
      have passed := Path.passed_components (Path.append session.current location)
      have plain := Path.plain_components (Path.append session.current location)
      rw [rooted] at passed
      have text : Path.absolute session.current location = _ := Path.normalize_of_absolute rooted
      rw [kind] at origin
      simp only [originOf, Origin.ofSource, text, Path.directory_fileOf plain] at origin
      refine ⟨Path.isDoubled (Path.append session.current location), _,
        by simpa [kind] using passed, ?_, ?_, ?_⟩
      · rw [Entry.location, origin, kind, locationOf, if_pos rfl]
      · rw [Entry.key, origin, kind, keyOf, locationOf, if_pos rfl, keyFront]
      · rw [Entry.directory, origin, kind, locationOf, if_pos rfl]
  | fs =>
      have relative := Path.isAbsolute_dropSlashes location
      have passed := Path.passed_components (Path.dropSlashes location)
      have plain := Path.plain_components (Path.dropSlashes location)
      rw [relative] at passed
      have text : Path.normalize (Path.dropSlashes location) =
        Path.nameOf (Path.components (Path.dropSlashes location)) :=
          Path.normalize_of_relative relative
      rw [kind] at origin
      simp only [originOf, Origin.ofSource, text, Path.directory_nameOf plain] at origin
      refine ⟨false, _, by simpa [kind] using passed, ?_, ?_, ?_⟩
      · rw [Entry.location, origin, kind, locationOf, if_neg (by decide)]
      · rw [Entry.key, origin, kind, keyOf, locationOf, if_neg (by decide), keyFront]
      · rw [Entry.directory, origin, kind, locationOf, if_neg (by decide)]

namespace Stands

variable {doubled : Bool} {steps : List String}

theorem plain (h : Stands entry doubled steps) : ∀ name ∈ steps, Path.Plain name :=
  fun name mem => h.passed.plain name (List.mem_reverse.mpr mem)

/-- Files start at the root of the disk, and resources inside the loader's root. -/
theorem isAbsolute_directory (h : Stands entry doubled steps) :
    Path.isAbsolute entry.directory = decide (entry.kind = .file) := by
  have plain : ∀ name ∈ steps.dropLast, Path.Plain name := fun name mem =>
    h.plain name (List.dropLast_subset _ mem)
  rw [h.directory, locationOf]
  split
  · rename_i file
    rw [Path.isAbsolute_fileOf plain, decide_eq_true file]
  · rename_i other
    rw [Path.isAbsolute_nameOf plain, decide_eq_false other]

theorem components_locationOf {kind : SourceKind}
    (passed : Path.Passed (decide (kind = .file)) steps.reverse) :
    Path.components (locationOf kind doubled steps) = steps := by
  rw [locationOf]
  split
  · rename_i file
    exact Path.components_fileOf (by simpa [file] using passed)
  · rename_i other
    exact Path.components_nameOf (by simpa [other] using passed)

theorem components_location (h : Stands entry doubled steps) :
    Path.components entry.location = steps := by
  rw [h.location, components_locationOf h.passed]

theorem components_directory (h : Stands entry doubled steps) :
    Path.components entry.directory = steps.dropLast := by
  rw [h.directory, components_locationOf]
  rw [← List.tail_reverse]
  exact h.passed.tail

end Stands

/-- The file at a path from the root is known by the normal path. -/
theorem key_ofFile (session : Session) {path : String} (rooted : Path.isAbsolute path = true) :
    (session.originOf (Source.ofFile (Path.normalize path))).key =
      keyOf .file (Path.isDoubled path) (Path.components path) := by
  simp only [originOf, Origin.ofSource, Source.ofFile]
  rw [Path.normalize_normalize, Path.absolute_of_isAbsolute (Path.isAbsolute_normalize rooted),
    Path.normalize_normalize, Path.normalize_of_absolute rooted, keyOf, locationOf, if_pos rfl,
    keyFront]

/-- The resource of a clean name is known by what the name reaches. -/
theorem key_ofName (session : Session) (path : String) (doubled : Bool) :
    (session.originOf (Source.ofName (Path.dropSlashes (Path.normalize path)))).key =
      keyOf .fs doubled (Path.components path) := by
  have twice (text : String) :
      Path.dropSlashes (Path.dropSlashes text) = Path.dropSlashes text := by
    simp [Path.dropSlashes, List.dropWhile_idempotent]
  simp only [originOf, Origin.ofSource, Source.ofName]
  rw [twice, Path.normalize_dropSlashes_normalize, keyOf, locationOf, if_neg (by decide), keyFront]

/-- The sandbox of a session with the given root document lets pass what reaches these names. -/
def LetsPass (session : Session) (root : Entry) (steps : List String) : Prop :=
  session.options.allowTraversal = true ∨
    steps.head? ≠ some ".." ∧ Path.components root.directory <+: steps

instance (session : Session) (root : Entry) (steps : List String) :
    Decidable (session.LetsPass root steps) :=
  inferInstanceAs (Decidable (_ ∨ _ ∧ _))

/-- What the names reached by a relative reference come to: the key of the document with these
names, unless the sandbox keeps them out. -/
theorem keyNamed_eq {doubled doubled' : Bool} {steps steps' : List String}
    (rooted : state.root = some root) (base : Stands root doubled steps)
    (stands : Stands entry doubled' steps') (kind : entry.kind = root.kind)
    (here : root.kind ≠ .url) (relative : isRelative ref = true) :
    session.keyNamed state entry ref place =
      if session.LetsPass root (leadsTo entry ref)
      then .ok (keyOf root.kind (doubles entry ref) (leadsTo entry ref))
      else .error (Sandbox.escape (documentPart ref) place) := by
  have above : state.rootDirectory entry.directory = root.directory := by
    rw [SessionState.rootDirectory, rooted]
    rfl
  have start := stands.isAbsolute_directory
  have start' := base.isAbsolute_directory
  rw [keyNamed, sourceOf_of_isRelative relative]
  simp only [relativeSource, above, kind]
  cases rootKind : root.kind with
  | url => exact absurd rootKind here
  | file =>
      rw [kind, rootKind, decide_eq_true rfl] at start
      rw [rootKind, decide_eq_true rfl] at start'
      have whole := Path.isAbsolute_append start (pathOf ref)
      have key := key_ofFile session whole
      have level : (leadsTo entry ref).head? ≠ some ".." := by
        intro up
        apply Path.up_not_mem_components whole
        rw [Path.components_append]
        exact List.mem_of_head? up
      rw [Path.components_append] at key
      rw [← pathOf, Sandbox.cleanFile_eq start' start, ← leadsTo]
      by_cases passes : session.LetsPass root (leadsTo entry ref)
      · rw [if_pos passes, if_pos (passes.imp_right And.right)]
        exact congrArg Except.ok key
      · rw [if_neg passes, if_neg (fun h => passes (h.imp_right fun below => ⟨level, below⟩))]
        rfl
  | fs =>
      rw [rootKind, decide_eq_false (by decide)] at start'
      have key := key_ofName session (Path.append entry.directory (pathOf ref))
        (doubles entry ref)
      rw [Path.components_append] at key
      rw [← pathOf, Sandbox.cleanName_eq start', ← leadsTo]
      by_cases passes : session.LetsPass root (leadsTo entry ref)
      · rw [if_pos passes, if_pos (show _ ∨ _ ∧ _ from passes)]
        exact congrArg Except.ok key
      · rw [if_neg passes, if_neg (show ¬(_ ∨ _ ∧ _) from passes)]
        rfl

/-- What a reference from a document reaches could be left of a path to a document of its kind. -/
theorem Stands.passed_leadsTo {doubled : Bool} {steps : List String}
    (h : Stands entry doubled steps) (ref : String) :
    Path.Passed (decide (entry.kind = .file)) (leadsTo entry ref).reverse := by
  have start := h.isAbsolute_directory
  rw [leadsTo, ← Path.components_append]
  by_cases file : entry.kind = .file
  · rw [decide_eq_true file] at start ⊢
    have passed := Path.passed_components (Path.append entry.directory (pathOf ref))
    rwa [Path.isAbsolute_append start] at passed
  · rw [decide_eq_false file]
    exact Path.passed_false_components _

/-- Only the keys of files depend on whether two slashes are in front. -/
theorem keyOf_congr {kind : SourceKind} {doubled doubled' : Bool} (steps : List String)
    (front : kind = .file → doubled = doubled') :
    keyOf kind doubled steps = keyOf kind doubled' steps := by
  by_cases file : kind = .file
  · rw [front file]
  · rw [keyOf, keyOf, locationOf, locationOf, if_neg file, if_neg file]

/-- A key tells the names of its document, and of a file whether two slashes are in front of them. -/
theorem keyOf_inj {kind : SourceKind} {doubled doubled' : Bool} {steps steps' : List String}
    (passed : Path.Passed (decide (kind = .file)) steps.reverse)
    (passed' : Path.Passed (decide (kind = .file)) steps'.reverse)
    (same : keyOf kind doubled steps = keyOf kind doubled' steps') :
    steps = steps' ∧ (kind = .file → doubled = doubled') := by
  have location : locationOf kind doubled steps = locationOf kind doubled' steps' :=
    (String.append_right_inj _).mp same
  refine ⟨?_, ?_⟩
  · have behind : Path.components (locationOf kind doubled steps) = steps :=
      Stands.components_locationOf passed
    rw [← behind, location, Stands.components_locationOf passed']
  · intro file
    simp only [locationOf, if_pos file] at location
    exact (Path.fileOf_inj (fun name mem => passed.plain name (List.mem_reverse.mpr mem))
      (fun name mem => passed'.plain name (List.mem_reverse.mpr mem)) location).1

/-- A target that has been found is in the document of the key that the reference names. -/
theorem keyNamed_of_locate {target : Target} {after : SessionState}
    (elsewhere : documentPart ref ≠ "")
    (run : (session.locate entry ref place).outcome state = (.ok target, after)) :
    ∃ key, session.keyNamed state entry ref place = .ok key ∧ after.root = state.root ∧
      after.find? key = some target.entry := by
  rw [locate_eq, if_neg elsewhere] at run
  obtain ⟨source, named, run⟩ :=
    Run.outcome_lift_bind_eq_ok.mp (Run.outcome_get_bind_eq_ok.mp run)
  obtain ⟨other, middle, loaded, read⟩ := Run.outcome_bind_eq_ok.mp run
  rw [Run.outcome_lift, Prod.mk.injEq] at read
  obtain ⟨read, rfl⟩ := read
  obtain ⟨done, found⟩ := (session.load_fetching source state).ok loaded
  refine ⟨(session.originOf source).key, ?_, done.1, ?_⟩
  · rw [keyNamed, named]
    rfl
  · rw [found, entry_of_target read]

/-- A reference to a document that the session has is read in it, and nothing is requested. -/
theorem locate_of_keyNamed {key : String} {other : Entry} (elsewhere : documentPart ref ≠ "")
    (named : session.keyNamed state entry ref place = .ok key)
    (found : state.find? key = some other) :
    (session.locate entry ref place).outcome state =
      (other.target (fragmentPart ref) place, state) := by
  obtain ⟨source, leads, rfl⟩ := except_map_eq_ok.mp named
  rw [locate_eq, if_neg elsewhere, Run.outcome_bind, Run.outcome_get]
  simp only [leads, Run.outcome_bind, Run.outcome_lift, load_of_find? found]

/-- A reference that is kept out by the sandbox is not followed. -/
theorem locate_of_escape {error : Error} (elsewhere : documentPart ref ≠ "")
    (kept : session.keyNamed state entry ref place = .error error) :
    (session.locate entry ref place).outcome state = (.error error, state) := by
  rw [locate_eq, if_neg elsewhere, Run.outcome_get_bind_eq_error, Run.outcome_lift_bind_eq_error]
  refine .inl ⟨?_, rfl⟩
  rw [keyNamed] at kept
  cases named : session.sourceOf state entry ref (documentPart ref) place with
  | ok source =>
      rw [named] at kept
      cases kept
  | error fault =>
      rw [named] at kept
      rw [Except.error.inj kept]

/-- Every document that was not there at first is known by a source of its kind. -/
theorem Log.sourced {before : SessionState} {requests : List Source} {cache : List Entry}
    (h : session.Log before requests cache) :
    ∀ entry ∈ cache, entry ∈ before.cache ∨
      ∃ location, entry.origin = session.originOf ⟨entry.kind, location⟩ := by
  induction h with
  | start => exact fun entry mem => .inl mem
  | refused _ _ ih => exact ih
  | @accepted requests cache source new _ asks ih =>
      intro entry mem
      obtain earlier | now := List.mem_append.mp mem
      · exact ih entry earlier
      · obtain rfl := List.mem_singleton.mp now
        obtain ⟨loader, -, reply⟩ := asks.replied
        obtain ⟨document, -, accepts⟩ := reply_eq_ok.mp reply
        refine .inr ⟨source.location, ?_⟩
        rw [accepts.origin, accepts.kind]

section Sessions

variable {document : Document} {payload : Json}

/-- Every document of a session stands somewhere, if it is a file or a resource. -/
theorem Opens.stands (opens : session.Opens document payload root)
    (current : Path.isAbsolute session.current = true) {row : List Call}
    (mem : entry ∈ (session.calls (.opened root) row).cache) (here : entry.kind ≠ .url) :
    ∃ doubled steps, Stands entry doubled steps := by
  obtain first | ⟨location, origin⟩ := (session.log_calls (.opened root) row).sourced entry mem
  · obtain rfl := List.mem_singleton.mp first
    have origin : entry.origin = session.originOf ⟨entry.kind, document.source.location⟩ := by
      rw [opens.origin, opens.kind]
      rfl
    exact stands_of_origin current here origin
  · exact stands_of_origin current here origin

/-- The root of a session is found by its key, whatever the session has been used for. -/
theorem rooted_calls (session : Session) (root : Entry) (row : List Call) :
    (session.calls (.opened root) row).root = some root ∧
      (session.calls (.opened root) row).find? root.key = some root := by
  have grows := session.grows_calls (.opened root) row
  have first : (SessionState.opened root).find? root.key = some root :=
    SessionState.find?_of_mem (List.nodup_singleton root.key) (List.mem_singleton_self root)
  exact ⟨grows.root, SessionState.find?_of_prefix grows.cache first⟩

/-- A relative reference from a document of the session that is of the root's kind. -/
structure Refers (root : Entry) (state : SessionState) (entry : Entry) (ref : String) : Prop where
  document : entry ∈ state.cache
  kind : entry.kind = root.kind
  relative : isRelative ref = true

/-- What becomes of two references that are to lead to one document. -/
structure Meet (session : Session) (state : SessionState) (entry : Entry) (ref : String)
    (entry' : Entry) (ref' : String) : Prop where
  /-- They name the document by one key, or the sandbox keeps both of them out. -/
  key : (∃ key, ∀ place, session.keyNamed state entry ref place = .ok key ∧
      session.keyNamed state entry' ref' place = .ok key) ∨
    session.options.allowTraversal = false ∧ ∀ place,
      session.keyNamed state entry ref place =
        .error (Sandbox.escape (documentPart ref) place) ∧
      session.keyNamed state entry' ref' place =
        .error (Sandbox.escape (documentPart ref') place)
  /-- Once the first one has been followed, the second one is read in the same document without a
  request, in whatever way the session has been used in between. -/
  once : ∀ (place place' : String) (target : Target) (after : SessionState) (more : List Call),
    (session.locate entry ref place).outcome state = (.ok target, after) →
      (session.locate entry' ref' place').outcome (session.calls after more) =
        (target.entry.target (fragmentPart ref') place', session.calls after more)

/-- The root is a resource outside of the directory of its loader, and there is a sandbox. -/
def Outside (session : Session) (root : Entry) : Prop :=
  session.options.allowTraversal = false ∧ root.kind = .fs ∧
    (Path.components root.location).head? = some ".."

instance (session : Session) (root : Entry) : Decidable (session.Outside root) :=
  inferInstanceAs (Decidable (_ ∧ _ ∧ _))

variable {row : List Call}

/-- The key named by a relative reference from a document of the root's kind. -/
theorem Refers.keyNamed_eq (refers : Refers root (session.calls (.opened root) row) entry ref)
    (opens : session.Opens document payload root)
    (current : Path.isAbsolute session.current = true) (here : root.kind ≠ .url)
    (rooted : state.root = some root) (place : String) :
    session.keyNamed state entry ref place =
      if session.LetsPass root (leadsTo entry ref)
      then .ok (keyOf root.kind (doubles entry ref) (leadsTo entry ref))
      else .error (Sandbox.escape (documentPart ref) place) := by
  obtain ⟨-, known⟩ := session.rooted_calls root row
  obtain ⟨_, _, base⟩ := opens.stands current (SessionState.mem_of_find? known) here
  obtain ⟨_, _, stands⟩ := opens.stands current refers.document (refers.kind ▸ here)
  exact Session.keyNamed_eq rooted base stands refers.kind here refers.relative

/-- References that reach the same names, with as many slashes in front if they are to files, lead to
one document. -/
theorem Refers.meet {entry' : Entry} {ref' : String}
    (refers : Refers root (session.calls (.opened root) row) entry ref)
    (refers' : Refers root (session.calls (.opened root) row) entry' ref')
    (opens : session.Opens document payload root)
    (current : Path.isAbsolute session.current = true) (here : root.kind ≠ .url)
    (same : leadsTo entry ref = leadsTo entry' ref')
    (front : root.kind = .file → doubles entry ref = doubles entry' ref') :
    session.Meet (session.calls (.opened root) row) entry ref entry' ref' := by
  obtain ⟨rooted, -⟩ := session.rooted_calls root row
  have named (place : String) := refers.keyNamed_eq opens current here rooted place
  have named' {state : SessionState} (rooted : state.root = some root) (place : String) :=
    refers'.keyNamed_eq opens current here rooted place
  simp only [← same, ← keyOf_congr _ front] at named'
  refine ⟨?_, ?_⟩
  · by_cases passes : session.LetsPass root (leadsTo entry ref)
    · simp only [if_pos passes] at named named'
      exact .inl ⟨_, fun place => ⟨named place, named' rooted place⟩⟩
    · simp only [if_neg passes] at named named'
      have closed : session.options.allowTraversal = false := by
        simpa using fun lifted => passes (.inl lifted)
      exact .inr ⟨closed, fun place => ⟨named place, named' rooted place⟩⟩
  · intro place place' target after more run
    obtain ⟨key, own, stays, found⟩ :=
      keyNamed_of_locate (documentPart_ne_empty refers.relative) run
    have grows := session.grows_calls after more
    have rooted' := grows.root.trans (stays.trans rooted)
    refine locate_of_keyNamed (documentPart_ne_empty refers'.relative) ?_
      (SessionState.find?_of_prefix grows.cache found)
    rw [named place] at own
    rw [named' rooted' place']
    split at own
    · rename_i passes
      rw [if_pos passes, own]
    · cases own

/-- References with one key reach the same names, with as many slashes in front if they are to
files. -/
theorem Refers.apart {entry' : Entry} {ref' key place place' : String}
    (refers : Refers root (session.calls (.opened root) row) entry ref)
    (refers' : Refers root (session.calls (.opened root) row) entry' ref')
    (opens : session.Opens document payload root)
    (current : Path.isAbsolute session.current = true) (here : root.kind ≠ .url)
    (named : session.keyNamed (session.calls (.opened root) row) entry ref place = .ok key)
    (named' : session.keyNamed (session.calls (.opened root) row) entry' ref' place' = .ok key) :
    leadsTo entry ref = leadsTo entry' ref' ∧
      (root.kind = .file → doubles entry ref = doubles entry' ref') := by
  obtain ⟨rooted, -⟩ := session.rooted_calls root row
  obtain ⟨_, _, stands⟩ := opens.stands current refers.document (refers.kind ▸ here)
  obtain ⟨_, _, stands'⟩ := opens.stands current refers'.document (refers'.kind ▸ here)
  rw [refers.keyNamed_eq opens current here rooted] at named
  rw [refers'.keyNamed_eq opens current here rooted] at named'
  split at named
  · split at named'
    · have own := stands.passed_leadsTo ref
      have own' := stands'.passed_leadsTo ref'
      rw [refers.kind] at own
      rw [refers'.kind] at own'
      exact keyOf_inj own own' (Except.ok.inj (named.trans named'.symm))
    · cases named'
  · cases named

/-- The sandbox lets pass what reaches the root, unless the root is a resource outside. -/
theorem Stands.letsPass_iff {doubled : Bool} {steps : List String}
    (base : Stands root doubled steps) (here : root.kind ≠ .url) :
    session.LetsPass root steps ↔ ¬ session.Outside root := by
  have below : Path.components root.directory <+: steps := by
    rw [base.components_directory]
    exact List.dropLast_prefix steps
  have level : root.kind = .file → steps.head? ≠ some ".." := by
    intro file up
    have free := (base.passed.up_first (List.mem_reverse.mpr (List.mem_of_head? up))).1
    rw [file] at free
    cases free
  unfold LetsPass Outside
  rw [base.components_location]
  cases kind : root.kind with
  | url => exact absurd kind here
  | file => simp [level kind, below]
  | fs => simp [below, imp_iff_not_or]

/-- A reference that reaches the names of the root leads to the root. -/
theorem Refers.home (refers : Refers root (session.calls (.opened root) row) entry ref)
    (opens : session.Opens document payload root)
    (current : Path.isAbsolute session.current = true) (here : root.kind ≠ .url)
    (same : leadsTo entry ref = Path.components root.location)
    (front : root.kind = .file → doubles entry ref = Path.isDoubled root.location)
    (place : String) :
    (session.locate entry ref place).outcome (session.calls (.opened root) row) =
      (if session.Outside root then .error (Sandbox.escape (documentPart ref) place)
        else root.target (fragmentPart ref) place, session.calls (.opened root) row) := by
  obtain ⟨rooted, known⟩ := session.rooted_calls root row
  obtain ⟨doubled, steps, base⟩ :=
    opens.stands current (SessionState.mem_of_find? known) here
  have elsewhere := documentPart_ne_empty refers.relative
  have named := refers.keyNamed_eq opens current here rooted place
  rw [same, base.components_location] at named
  by_cases outside : session.Outside root
  · rw [if_neg (fun passes => (base.letsPass_iff here).mp passes outside)] at named
    rw [if_pos outside]
    exact locate_of_escape elsewhere named
  · have written : root.kind = .file → doubles entry ref = doubled := by
      intro file
      rw [front file, base.location, locationOf, if_pos file]
      exact Path.isDoubled_fileOf base.plain
    rw [if_pos ((base.letsPass_iff here).mpr outside), keyOf_congr steps written, ← base.key]
      at named
    rw [if_neg outside]
    exact locate_of_keyNamed elsewhere named known

end Sessions

/-- What the spelling of relative references comes to at a time in the life of a session: only what
they reach matters, and of a file whether two slashes are in front. -/
structure OneDocument (session : Session) (root : Entry) (state : SessionState) : Prop where
  meet : ∀ entry entry' ref ref', Refers root state entry ref → Refers root state entry' ref' →
    leadsTo entry ref = leadsTo entry' ref' →
      (root.kind = .file → doubles entry ref = doubles entry' ref') →
        session.Meet state entry ref entry' ref'
  apart : ∀ entry entry' ref ref', Refers root state entry ref → Refers root state entry' ref' →
    ∀ place place' key, session.keyNamed state entry ref place = .ok key →
      session.keyNamed state entry' ref' place' = .ok key →
        leadsTo entry ref = leadsTo entry' ref' ∧
          (root.kind = .file → doubles entry ref = doubles entry' ref')
  /-- What reaches the root is the root, and nothing is requested for it. -/
  home : ∀ entry ref, Refers root state entry ref →
    leadsTo entry ref = Path.components root.location →
      (root.kind = .file → doubles entry ref = Path.isDoubled root.location) →
        ∀ place, (session.locate entry ref place).outcome state =
          (if session.Outside root then .error (Sandbox.escape (documentPart ref) place)
            else root.target (fragmentPart ref) place, state)

/-- One file, one document. In whatever way a session is used, relative references from documents of
the root's kind that reach the same names lead to one document, and those that reach the names of the
root lead to the root, up to two slashes in front of the path of a file. A run makes at most one
request for a document, and none for the root. -/
theorem one_document (loader : Option Loader) (options : ResolveOptions) (current : String)
    (absolute : Path.isAbsolute current = true) (document : Document) (payload : Json)
    (root : Entry) (start : SessionState) :
    let session : Session := { loader := loader, options := options.effective, current := current }
    (session.openRoot document payload).outcome {} = (.ok root, start) → root.kind ≠ .url →
    (∀ row : List Call, session.OneDocument root (session.calls start row)) ∧
    let last := (session.runRoot document payload).2
    last = session.calls start [.resolve root payload "#" {}] ∧
      ∀ key, last.requests.countP (fun source => (session.originOf source).key = key) ≤
        if key = root.key then 0 else 1 := by
  intro session opened here
  obtain ⟨opens, rfl⟩ := opens_of_openRoot opened
  refine ⟨?_, ?_⟩
  · intro row
    constructor
    · intro entry entry' ref ref' refers refers'
      exact refers.meet refers' opens absolute here
    · intro entry entry' ref ref' refers refers' place place' key
      exact refers.apart refers' opens absolute here
    · intro entry ref refers
      exact refers.home opens absolute here
  · intro last
    refine ⟨?_, ?_⟩
    · rw [show last = _ from ends_of_opens opens, ← Expansion.Frame.outcome_root, ← opens.held]
      rfl
    · intro key
      have space : 0 < session.options.maxDocuments := options.positive_effective.2.1
      have once := List.nodup_iff_count_le_one.mp
        (session.distinct_requests document payload space).1 key
      have asked : (last.requests.map fun source => (session.originOf source).key).count key =
          last.requests.countP fun source => (session.originOf source).key = key := by
        rw [List.count, List.countP_map]
        rfl
      rw [List.count_cons, asked, ← opens.origin] at once
      split
      · rename_i own
        rw [own, Entry.key, beq_self_eq_true, if_pos rfl] at once
        rw [own, Entry.key]
        omega
      · omega

namespace Sample

/-- A document that refers to another one by its name, and in another way. -/
def spelled (again : String) : Members :=
  [("properties",
    .obj [("a", .obj [("$ref", .str "n.json")]), ("b", .obj [("$ref", .str again)])])]

def slashed : Loader :=
  Loader.ofFetch (Fetch.fromTable
    [("/forms/n.json", SchemaForms.Sample.titled "N"),
      ("//forms/n.json", SchemaForms.Sample.titled "N")])

def filed : Session where
  loader := some slashed
  options := ResolveOptions.effective {}

def filedRoot (again : String) : Entry where
  origin := filed.originOf SchemaForms.Sample.file.source
  kind := .file
  data := spelled again
  anchors := []

end Sample

/-- A file is referred to by its name and in another way, and then the root. -/
theorem one_document_sample :
    let root := Sample.filedRoot "/./forms//n.json"
    Path.isAbsolute "/" = true ∧ root.kind ≠ .url ∧
      (Sample.filed.openRoot SchemaForms.Sample.file (.obj root.data)).outcome {} =
        (.ok root, .opened root) ∧
      ∃ target after,
        (Sample.filed.locate root "n.json" "").outcome (.opened root) = (.ok target, after) ∧
        (Sample.filed.locate root "/./forms//n.json" "").outcome after =
          (target.entry.target "" "", after) ∧
        (Sample.filed.locate root "../forms/root.json" "").outcome (.opened root) =
          (root.target "" "", .opened root) := by
  intro root
  have rooted : Path.isAbsolute "/" = true := by decide
  have here : root.kind ≠ .url := by decide
  have opened : (Sample.filed.openRoot SchemaForms.Sample.file (.obj root.data)).outcome {} =
      (.ok root, .opened root) := rfl
  obtain ⟨one, -⟩ := one_document (some Sample.slashed) {} "/" rooted SchemaForms.Sample.file
    (.obj root.data) root (.opened root) opened here
  have refers (ref : String) (relative : isRelative ref = true) :
      Refers root (Sample.filed.calls (.opened root) []) root ref :=
    ⟨List.mem_singleton_self root, rfl, relative⟩
  have first := refers "n.json" (by decide +kernel)
  have again := refers "/./forms//n.json" (by decide +kernel)
  have back := refers "../forms/root.json" (by decide +kernel)
  have found : ((Sample.filed.locate root "n.json" "").outcome (.opened root)).1.toOption.isSome =
      true := by decide +kernel
  refine ⟨rooted, here, opened, ?_⟩
  generalize run : (Sample.filed.locate root "n.json" "").outcome (.opened root) = ended at found
  obtain ⟨ended, after⟩ := ended
  cases ended with
  | error => cases found
  | ok target =>
      have meet := (one []).meet root root _ _ first again (by decide +kernel)
        (fun _ => by decide +kernel)
      refine ⟨target, after, rfl, meet.once "" "" target after [] run, ?_⟩
      exact (one []).home root _ back (by decide +kernel) (fun _ => by decide +kernel) ""

/-- A file that is referred to with one slash in front and with two is two documents, and is fetched
twice. -/
theorem two_documents :
    let again := "/%2Fforms/n.json"
    let root := Sample.filedRoot again
    (Sample.filed.openRoot SchemaForms.Sample.file (.obj root.data)).outcome {} =
        (.ok root, .opened root) ∧
      Refers root (.opened root) root "n.json" ∧ Refers root (.opened root) root again ∧
      leadsTo root "n.json" = leadsTo root again ∧
      Sample.filed.keyNamed (.opened root) root "n.json" "" = .ok "file:/forms/n.json" ∧
      Sample.filed.keyNamed (.opened root) root again "" = .ok "file://forms/n.json" ∧
      (Sample.filed.runRoot SchemaForms.Sample.file (.obj root.data)).2.requests =
        [⟨.file, "/forms/n.json"⟩, ⟨.file, "//forms/n.json"⟩] := by
  intro again root
  refine ⟨rfl, ⟨List.mem_singleton_self root, rfl, ?_⟩, ⟨List.mem_singleton_self root, rfl, ?_⟩,
    ?_, ?_, ?_, ?_⟩
  · decide +kernel
  · decide +kernel
  · decide +kernel
  · exact eq_ok_of_toOption (by decide +kernel)
  · exact eq_ok_of_toOption (by decide +kernel)
  · decide +kernel

end SchemaForms.Session
