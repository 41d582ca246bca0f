import SchemaForms.Proofs.Expansion.SelfContained
import SchemaForms.Proofs.Path.Sandbox
import SchemaForms.Proofs.Session.Locate
import SchemaForms.Proofs.Session.Root

/-!
# Requests stay in the sandbox

Unless traversal is allowed, every request of a run is one that the sandbox of the root document
permits. Documents may be reached over others of different kinds, each with a directory of its own;
what carries through is that files are only ever met if the root is a file, and resources only if it
is a resource.
-/

namespace SchemaForms

/-- The requests that the sandbox of a root document permits, given the current directory. The path
of a file has the names of the root's directory in front, both taken from the root of the disk, and
so has the clean name of a resource, in which no name goes up. -/
inductive Permits (options : ResolveOptions) (current : String) (root : Source) : Source → Prop
  | url {location : String} (http : options.allowHttp = true) :
      Permits options current root ⟨.url, location⟩
  | file {location : String} (kind : root.kind = .file)
      (below : Path.names (Path.absolute current (Origin.ofSource current root).directory) <+:
        Path.names (Origin.ofSource current ⟨.file, location⟩).location) :
      Permits options current root ⟨.file, location⟩
  | fs {location : String} (kind : root.kind = .fs)
      (level : ".." ∉ Path.names (Origin.ofSource current ⟨.fs, location⟩).location)
      (below : (Origin.ofSource current root).directory = "." ∨
        Path.names (Origin.ofSource current root).directory <+:
          Path.names (Origin.ofSource current ⟨.fs, location⟩).location) :
      Permits options current root ⟨.fs, location⟩

/-- Only a URL, or a kind of source that is the root's, is permitted. -/
theorem Permits.kind {options : ResolveOptions} {current : String} {root source : Source}
    (h : Permits options current root source) : source.kind = .url ∨ source.kind = root.kind := by
  cases h with
  | url => exact .inl rfl
  | file kind => exact .inr kind.symm
  | fs kind => exact .inr kind.symm

theorem Source.eq_of_ofUrl {url : String} {source : Source} (h : ofUrl url = .ok source) :
    source = ⟨.url, url⟩ := by
  unfold ofUrl at h
  split at h
  · cases h
  · split at h
    · cases h
    · split at h
      · cases h
      · exact (Except.ok.inj h).symm

namespace Session

variable {session : Session} {state : SessionState} {root entry : Entry} {base source : Source}
variable {ref path place candidate : String}

/-- A file is permitted if it has passed the sandbox of a root that is a file. -/
theorem cleanFile_permits {directory : String} (closed : session.options.allowTraversal = false)
    (kind : base.kind = .file)
    (passes : Sandbox.cleanFile session.options session.current (session.originOf base).directory
      directory path ref place = .ok candidate) :
    Permits session.options session.current base (Source.ofFile candidate) := by
  obtain ⟨normal, below⟩ := Sandbox.names_of_cleanFile closed passes
  rw [Source.ofFile, normal]
  exact .file kind below

/-- A resource is permitted if it has passed the sandbox of a root that is a resource. -/
theorem cleanName_permits {directory : String} (closed : session.options.allowTraversal = false)
    (kind : base.kind = .fs)
    (passes : Sandbox.cleanName session.options (session.originOf base).directory directory path
      ref place = .ok candidate) :
    Permits session.options session.current base (Source.ofName candidate) := by
  obtain ⟨baseKind, location⟩ := base
  obtain rfl : baseKind = .fs := kind
  have normal := Origin.directory_fs session.current location
  rw [← ofSource_eq_originOf] at passes
  generalize directoryOf : (Origin.ofSource session.current ⟨.fs, location⟩).directory = root
    at normal passes
  have named := Sandbox.names_of_cleanName closed normal passes
  refine .fs rfl ?_ ?_
  · simp only [Origin.ofSource]
    exact named.1
  · rw [directoryOf]
    simp only [Origin.ofSource]
    exact named.2

theorem fileSource_permits (closed : session.options.allowTraversal = false)
    (rooted : state.root = some root) (origin : root.origin = session.originOf base)
    (kind : root.kind = base.kind)
    (named : session.fileSource state entry path ref place = .ok source) :
    Permits session.options session.current base source := by
  simp only [fileSource, closed, rooted] at named
  split at named
  · cases ‹false = true›
  · split at named
    · rename_i isFile
      obtain ⟨candidate, passes, same⟩ := except_bind_eq_ok.mp named
      obtain rfl := Except.ok.inj same
      rw [Entry.directory, origin] at passes
      exact cleanFile_permits closed (kind ▸ isFile) passes
    · cases named

theorem relativeSource_permits (closed : session.options.allowTraversal = false)
    (rooted : state.root = some root) (origin : root.origin = session.originOf base)
    (like : entry.kind = .url ∨ entry.kind = base.kind)
    (named : session.relativeSource state entry ref place = .ok source) :
    Permits session.options session.current base source := by
  have above : state.rootDirectory entry.directory = (session.originOf base).directory := by
    rw [SessionState.rootDirectory, rooted, ← origin]
    rfl
  simp only [relativeSource, above] at named
  split at named
  · rename_i isFile
    obtain ⟨candidate, passes, same⟩ := except_bind_eq_ok.mp named
    obtain rfl := Except.ok.inj same
    exact cleanFile_permits closed (by simpa [isFile, eq_comm] using like) passes
  · rename_i isName
    obtain ⟨candidate, passes, same⟩ := except_bind_eq_ok.mp named
    obtain rfl := Except.ok.inj same
    exact cleanName_permits closed (by simpa [isName, eq_comm] using like) passes
  · split at named
    · rename_i http
      split at named
      · cases named
      · rw [Source.eq_of_ofUrl (except_mapError_eq_ok.mp named)]
        exact .url http
    · cases named

/-- Whatever a document refers to is permitted if the document itself is of a kind that is. -/
theorem sourceOf_permits (closed : session.options.allowTraversal = false)
    (rooted : state.root = some root) (origin : root.origin = session.originOf base)
    (kind : root.kind = base.kind) (like : entry.kind = .url ∨ entry.kind = base.kind)
    (named : session.sourceOf state entry ref path place = .ok source) :
    Permits session.options session.current base source := by
  unfold sourceOf at named
  split at named
  · cases named
  · split at named
    · split at named
      · rename_i http
        rw [Source.eq_of_ofUrl (except_mapError_eq_ok.mp named)]
        exact .url http
      · cases named
    · split at named
      · exact fileSource_permits closed rooted origin kind named
      · split at named
        · cases named
        · exact relativeSource_permits closed rooted origin like named

/-- The invariant of a session that is kept in the sandbox of its root document. -/
structure Sandboxed (session : Session) (base : Source) (state : SessionState) : Prop where
  rooted : ∃ root, state.root = some root ∧ root.origin = session.originOf base ∧
    root.kind = base.kind
  permitted : ∀ request ∈ state.requests,
    Permits session.options session.current base request
  kinds : ∀ entry ∈ state.cache, entry.kind = .url ∨ entry.kind = base.kind

theorem Opens.sandboxed {document : Document} {payload : Json}
    (h : session.Opens document payload root) :
    session.Sandboxed document.source (.opened root) where
  rooted := ⟨root, rfl, h.origin, h.kind⟩
  permitted := by simp [SessionState.opened]
  kinds := by
    intro entry mem
    rw [List.mem_singleton.mp mem]
    exact .inr h.kind

/-- Loading a permitted source keeps the session in the sandbox. -/
theorem load_sandboxed (permits : Permits session.options session.current base source) :
    (Effect.keeping (session.Sandboxed base)).Meets (session.load source) state fun _ other =>
      session.Sandboxed base state → other.kind = .url ∨ other.kind = base.kind := by
  have asked (h : session.Sandboxed base state) :
      session.Sandboxed base (state.requested source) := by
    refine ⟨h.rooted, ?_, h.kinds⟩
    intro request mem
    obtain earlier | now := List.mem_append.mp mem
    · exact h.permitted request earlier
    · rw [List.mem_singleton.mp now]
      exact permits
  apply load_meets
  intro ended ends
  cases ends with
  | found found => exact ⟨id, fun h => h.kinds _ (SessionState.mem_of_find? found)⟩
  | full | noLoader => exact id
  | refused => exact asked
  | accepted asks =>
      obtain ⟨loader, -, reply⟩ := asks.replied
      obtain ⟨document, -, accepts⟩ := reply_eq_ok.mp reply
      have like : _ = SourceKind.url ∨ _ = base.kind := accepts.kind ▸ permits.kind
      refine ⟨fun h => ⟨h.rooted, (asked h).permitted, ?_⟩, fun _ => like⟩
      intro entry mem
      rw [asks.cache] at mem
      obtain earlier | now := List.mem_append.mp mem
      · exact h.kinds entry earlier
      · rw [List.mem_singleton.mp now]
        exact like

/-- What is found of targets in a sandboxed session: they are in documents of permitted kinds. -/
theorem finds_sandboxed (closed : session.options.allowTraversal = false) (base : Source) :
    Expansion.Finds (Effect.keeping (session.Sandboxed base))
      (fun state entry => session.Sandboxed base state ∧
        (entry.kind = .url ∨ entry.kind = base.kind))
      (fun _ _ _ _ _ => True) session where
  ignoresTrail := ⟨fun _ _ h => ⟨h.rooted, h.permitted, h.kinds⟩,
    fun keeps _ h => ⟨(keeps h).rooted, (keeps h).permitted, (keeps h).kinds⟩⟩
  keep good done := ⟨done good.1, good.2⟩
  lasting _ _ := trivial
  locate := by
    rintro entry node ref place state ⟨sandboxed, like⟩ -
    apply locate_meets
    · intro _ target read
      rw [entry_of_target read]
      exact ⟨⟨sandboxed, like⟩, trivial⟩
    · intro _ source named
      obtain ⟨root, rooted, origin, kind⟩ := sandboxed.rooted
      have permits := sourceOf_permits closed rooted origin kind like named
      apply (load_sandboxed permits).mono
      intro after other kept like target read
      rw [entry_of_target read]
      exact ⟨⟨kept sandboxed, like sandboxed⟩, trivial⟩

/-- A run that has begun with its root document ends in the sandbox of that document. -/
theorem runRoot_sandboxed (closed : session.options.allowTraversal = false) (document : Document)
    (payload : Json) :
    (session.runRoot document payload).2.requests = [] ∨
      session.Sandboxed document.source (session.runRoot document payload).2 := by
  obtain ⟨error, failed⟩ | ⟨root, opens, ended, -⟩ := session.runRoot_ends document payload
  · rw [failed]
    exact .inl rfl
  · have start := opens.sandboxed
    have meets : (Effect.keeping (session.Sandboxed document.source)).Meets
        (session.resolveNode root payload "#") (.opened root) _ :=
      Expansion.resolveNode_meets (finds_sandboxed closed document.source) ⟨start, .inr opens.kind⟩
    rw [ended]
    exact .inr (meets.kept start)

/-- Every request of a run is one that the sandbox of its root document permits, however the
references to it are written and in whatever document they stand. -/
theorem requests_permitted (session : Session) (document : Document) (payload : Json)
    (closed : session.options.allowTraversal = false) :
    ∀ request ∈ (session.runRoot document payload).2.requests,
      Permits session.options session.current document.source request := by
  obtain ⟨error, failed⟩ | ⟨root, opens, ended, -⟩ := session.runRoot_ends document payload
  · simp [failed]
  · have start := opens.sandboxed
    have meets : (Effect.keeping (session.Sandboxed document.source)).Meets
        (session.resolveNode root payload "#") (.opened root) _ :=
      Expansion.resolveNode_meets (finds_sandboxed closed document.source) ⟨start, .inr opens.kind⟩
    rw [ended]
    exact (meets.kept start).permitted

theorem requests_permitted_sample :
    ⟨.fs, "forms/n.json"⟩ ∈ (Sample.session.runRoot Sample.root Sample.payload).2.requests ∧
      Permits Sample.session.options "/" Sample.root.source ⟨.fs, "forms/n.json"⟩ := by
  have requested : ⟨.fs, "forms/n.json"⟩ ∈
      (Sample.session.runRoot Sample.root Sample.payload).2.requests := by decide +kernel
  exact ⟨requested, requests_permitted Sample.session Sample.root Sample.payload rfl _ requested⟩

end Session

end SchemaForms
