import Mathlib.Data.List.Nodup
import Mathlib.Data.List.Perm.Subperm
import SchemaForms.Proofs.Session.Effect

/-!
# What loading a document does

There are five ways for a request for a document to end, and `load_ends` lists them all, with the
session that each leaves. Only one of them, the acceptance of a reply, changes the documents of the
session, and it puts one more behind them.

`SessionState.Grows` is what every step of a session does to its documents: none is ever lost or
changed, so a document that has been found once is found ever after.
-/

namespace SchemaForms

namespace SessionState

def requested (state : SessionState) (source : Source) : SessionState :=
  { state with requests := state.requests ++ [source] }

theorem find?_eq_none_iff {state : SessionState} {key : String} :
    state.find? key = none ↔ key ∉ state.cache.map Entry.key := by
  unfold find?
  rw [List.find?_eq_none]
  simp

theorem key_of_find? {state : SessionState} {key : String} {entry : Entry}
    (h : state.find? key = some entry) : entry.key = key := by
  simpa using List.find?_some h

theorem mem_of_find? {state : SessionState} {key : String} {entry : Entry}
    (h : state.find? key = some entry) : entry ∈ state.cache :=
  List.mem_of_find?_eq_some h

theorem key_mem_of_find? {state : SessionState} {key : String} {entry : Entry}
    (h : state.find? key = some entry) : key ∈ state.cache.map Entry.key := by
  rw [← key_of_find? h]
  exact List.mem_map_of_mem (mem_of_find? h)

/-- If no two documents have one key, each is found by its own. -/
theorem find?_of_mem {state : SessionState} {entry : Entry}
    (nodup : (state.cache.map Entry.key).Nodup) (mem : entry ∈ state.cache) :
    state.find? entry.key = some entry := by
  cases found : state.find? entry.key with
  | none => exact absurd (List.mem_map_of_mem mem) (find?_eq_none_iff.mp found)
  | some other =>
      have same := List.inj_on_of_nodup_map nodup (mem_of_find? found) mem (key_of_find? found)
      rw [same]

/-- Keys stay distinct if a document with a new one comes to stand behind the others. -/
theorem distinct_concat {cache : List Entry} {entry : Entry}
    (distinct : (cache.map Entry.key).Nodup) (missing : entry.key ∉ cache.map Entry.key) :
    ((cache ++ [entry]).map Entry.key).Nodup := by
  have keys : (cache ++ [entry]).map Entry.key = (cache.map Entry.key).concat entry.key := by simp
  rw [keys]
  exact distinct.concat missing

/-- There are fewer documents than in a session that has all of their keys and another one. -/
theorem length_lt_of_missing {few many : SessionState} {key : String} {entry : Entry}
    (distinct : (few.cache.map Entry.key).Nodup)
    (keys : few.cache.map Entry.key ⊆ many.cache.map Entry.key)
    (missing : few.find? key = none) (found : many.find? key = some entry) :
    few.cache.length < many.cache.length := by
  rw [find?_eq_none_iff] at missing
  have all : key :: few.cache.map Entry.key ⊆ many.cache.map Entry.key :=
    List.cons_subset.mpr ⟨key_mem_of_find? found, keys⟩
  have fewer := (List.subperm_of_subset (List.nodup_cons.mpr ⟨missing, distinct⟩) all).length_le
  simp only [List.length_cons, List.length_map] at fewer
  omega

theorem storeIn_of_not_mem {entry : Entry} {entries : List Entry}
    (h : entry.key ∉ entries.map Entry.key) : storeIn entry entries = entries ++ [entry] := by
  induction entries with
  | nil => rfl
  | cons head rest ih =>
      simp only [List.map_cons, List.mem_cons, not_or] at h
      rw [storeIn, if_neg (Ne.symm h.1), ih h.2, List.cons_append]

/-- A document with a new key comes to stand behind all others. -/
theorem store_cache {state : SessionState} {entry : Entry}
    (h : state.find? entry.key = none) : (state.store entry).cache = state.cache ++ [entry] :=
  storeIn_of_not_mem (find?_eq_none_iff.mp h)

theorem find?_store {state : SessionState} {entry : Entry}
    (h : state.find? entry.key = none) : (state.store entry).find? entry.key = some entry := by
  unfold find? at h ⊢
  rw [store_cache h, List.find?_append, h]
  simp

/-- A document that has been found once is found ever after. -/
theorem find?_of_prefix {before after : SessionState} (h : before.cache <+: after.cache)
    {key : String} {entry : Entry} (found : before.find? key = some entry) :
    after.find? key = some entry := by
  obtain ⟨rest, eq⟩ := h
  unfold find? at found ⊢
  rw [← eq, List.find?_append, found]
  rfl

/-- The second session has all documents that the first one has, and perhaps more. -/
structure Grows (before after : SessionState) : Prop where
  cache : before.cache <+: after.cache
  root : after.root = before.root

theorem Grows.refl (state : SessionState) : Grows state state :=
  ⟨List.prefix_refl _, rfl⟩

theorem Grows.trans {first second third : SessionState} (h : Grows first second)
    (h' : Grows second third) : Grows first third :=
  ⟨h.cache.trans h'.cache, h'.root.trans h.root⟩

end SessionState

namespace Session

variable {session : Session}

def originOf (session : Session) (source : Source) : Origin :=
  Origin.ofSource session.current source

theorem ofSource_eq_originOf (session : Session) (source : Source) :
    Origin.ofSource session.current source = session.originOf source := rfl

/-- What the reply to a request is worth: an entry, or the error of the loader or of the reply. -/
def reply (session : Session) (loader : Loader) (earlier : List Source) (source : Source) :
    Except Error Entry :=
  loader earlier source >>= session.accept source.kind (session.originOf source)

theorem checkSize_eq_ok {document : Document} {location : String} :
    session.checkSize document location = .ok () ↔
      document.size ≤ session.options.maxDocumentSize := by
  unfold checkSize
  split <;> simp_all

/-- The document has become the entry: it is not too large, writes an object that declares the
supported dialect, and has no anchor twice. -/
structure Accepts (session : Session) (kind : SourceKind) (origin : Origin) (document : Document)
    (entry : Entry) : Prop where
  size : document.size ≤ session.options.maxDocumentSize
  parsed : Dialect.parse document.raw origin.location = .ok entry.data
  dialect : Dialect.validate entry.data origin.location = .ok ()
  anchors : Anchors.index (.obj entry.data) origin.location "#" = .ok entry.anchors
  origin : entry.origin = origin
  kind : entry.kind = kind

theorem accept_eq_ok {kind : SourceKind} {origin : Origin} {document : Document} {entry : Entry} :
    session.accept kind origin document = .ok entry ↔
      session.Accepts kind origin document entry := by
  unfold accept
  simp only [except_bind_eq_ok]
  constructor
  · rintro ⟨_, size, data, parsed, _, dialect, anchors, indexed, built⟩
    obtain rfl := Except.ok.inj built
    exact ⟨checkSize_eq_ok.mp size, parsed, dialect, indexed, rfl, rfl⟩
  · rintro ⟨size, parsed, dialect, indexed, rfl, rfl⟩
    exact ⟨(), checkSize_eq_ok.mpr size, _, parsed, (), dialect, _, indexed, rfl⟩

theorem reply_eq_ok {loader : Loader} {earlier : List Source} {source : Source} {entry : Entry} :
    session.reply loader earlier source = .ok entry ↔
      ∃ document, loader earlier source = .ok document ∧
        session.Accepts source.kind (session.originOf source) document entry := by
  simp only [reply, except_bind_eq_ok, accept_eq_ok]

theorem key_of_reply {loader : Loader} {earlier : List Source} {source : Source} {entry : Entry}
    (h : session.reply loader earlier source = .ok entry) :
    entry.key = (session.originOf source).key := by
  obtain ⟨document, -, accepts⟩ := reply_eq_ok.mp h
  rw [Entry.key, accepts.origin]

/-- The loader is asked for a source, with the documents and requests that there are, and what it
replies is worth the given result. -/
structure Asks (session : Session) (requests : List Source) (cache : List Entry) (source : Source)
    (result : Except Error Entry) : Prop where
  missing : (session.originOf source).key ∉ cache.map Entry.key
  space : cache.length < session.options.maxDocuments
  replied : ∃ loader, session.loader = some loader ∧
    session.reply loader requests source = result

theorem Asks.key {requests : List Source} {cache : List Entry} {source : Source} {entry : Entry}
    (h : session.Asks requests cache source (.ok entry)) :
    entry.key = (session.originOf source).key := by
  obtain ⟨loader, -, reply⟩ := h.replied
  exact key_of_reply reply

/-- A document that is new to the session comes to stand behind all others. -/
theorem Asks.cache {state : SessionState} {source : Source} {entry : Entry}
    (h : session.Asks state.requests state.cache source (.ok entry)) :
    ((state.requested source).store entry).cache = state.cache ++ [entry] := by
  have missing := h.missing
  rw [← h.key, ← SessionState.find?_eq_none_iff] at missing
  exact SessionState.store_cache missing

/-- The ways in which loading a document can end. -/
inductive LoadEnds (session : Session) (source : Source) (state : SessionState) :
    Except Error Entry × SessionState → Prop
  | found {entry : Entry} (found : state.find? (session.originOf source).key = some entry) :
      LoadEnds session source state (.ok entry, state)
  | full (missing : state.find? (session.originOf source).key = none)
      (full : session.options.maxDocuments ≤ state.cache.length) :
      LoadEnds session source state
        (.error (.schema (.limit (.documents session.options.maxDocuments))
          (session.originOf source).location), state)
  | noLoader (missing : state.find? (session.originOf source).key = none)
      (none : session.loader = none) :
      LoadEnds session source state
        (.error (.schema (.load .noLoader) (session.originOf source).location), state)
  | refused {error : Error}
      (asks : session.Asks state.requests state.cache source (.error error)) :
      LoadEnds session source state (.error error, state.requested source)
  | accepted {entry : Entry}
      (asks : session.Asks state.requests state.cache source (.ok entry)) :
      LoadEnds session source state (.ok entry, (state.requested source).store entry)

theorem outcome_request (loader : Loader) (source : Source) (state : SessionState) :
    (request loader source).outcome state =
      (loader state.requests source, state.requested source) := rfl

theorem load_ends (session : Session) (source : Source) (state : SessionState) :
    LoadEnds session source state ((session.load source).outcome state) := by
  unfold load
  rw [Run.outcome_bind, Run.outcome_get]
  simp only
  split
  · rename_i entry found
    exact .found found
  · rename_i missing
    split
    · rename_i full
      exact .full missing full
    · rename_i space
      rw [Nat.not_le] at space
      split
      · rename_i none
        exact .noLoader missing none
      · rename_i loader some
        have asks {result : Except Error Entry}
            (reply : session.reply loader state.requests source = result) :
            session.Asks state.requests state.cache source result :=
          ⟨SessionState.find?_eq_none_iff.mp missing, space, loader, some, reply⟩
        simp only [Run.outcome_bind, outcome_request, ofSource_eq_originOf]
        cases replied : loader state.requests source with
        | error error =>
            exact .refused (asks (by rw [reply, replied]; rfl))
        | ok document =>
            simp only [Run.outcome_lift]
            cases taken : session.accept source.kind (session.originOf source) document with
            | error error => exact .refused (asks (by rw [reply, replied]; exact taken))
            | ok entry => exact .accepted (asks (by rw [reply, replied]; exact taken))

/-- A document that the session has is not asked for again. -/
theorem load_of_find? {source : Source} {state : SessionState} {entry : Entry}
    (h : state.find? (session.originOf source).key = some entry) :
    (session.load source).outcome state = (.ok entry, state) := by
  unfold load
  rw [Run.outcome_bind, Run.outcome_get]
  simp only [ofSource_eq_originOf, h]
  rfl

/-- What holds of all ends of loading a document holds of the loading. -/
theorem load_meets {effect : Effect} {source : Source} {state : SessionState}
    {post : SessionState → Entry → Prop}
    (h : ∀ ended, session.LoadEnds source state ended → effect.Allows state post ended) :
    effect.Meets (session.load source) state post :=
  Effect.meets_of_allows (h _ (session.load_ends source state))

end Session

end SchemaForms
