import SchemaForms.Proofs.Expansion.SelfContained
import SchemaForms.Proofs.Session.Log
import SchemaForms.Proofs.Session.Root

/-!
# The documents of a session

Whatever is done with a session after its root has been opened is on record, so that what holds of
all records holds of its documents: they are bounded in number and each is found by its key, has
been vetted, and stays. In a single run the requests are for distinct documents as well.
-/

namespace SchemaForms.Session

variable {session : Session}

/-- A use of a session whose root has been opened: a document is loaded, or a node of a document is
resolved, inside references that are being expanded. -/
inductive Call where
  | load (source : Source)
  | resolve (entry : Entry) (node : Json) (path : String) (trail : Trail)

/-- The session after a call, whether it has succeeded or failed. -/
def call (session : Session) (state : SessionState) : Call → SessionState
  | .load source => ((session.load source).outcome state).2
  | .resolve entry node path trail =>
    ((session.resolveNode entry node path).outcome { state with trail := trail }).2

/-- The session after a row of calls. -/
def calls (session : Session) (state : SessionState) (row : List Call) : SessionState :=
  row.foldl session.call state

theorem log_call (session : Session) (state : SessionState) (call : Call) :
    session.Log state (session.call state call).requests (session.call state call).cache := by
  cases call with
  | load source => exact Log.of_meets (session.load_fetching source state)
  | resolve entry node path trail =>
      have same : session.Log state { state with trail := trail }.requests
        { state with trail := trail }.cache := .start
      exact same.trans
        (Log.of_meets (Expansion.resolveNode_meets (finds_fetching session) trivial))

theorem log_calls (session : Session) (state : SessionState) (row : List Call) :
    session.Log state (session.calls state row).requests (session.calls state row).cache := by
  induction row generalizing state with
  | nil => exact .start
  | cons call row ih => exact (session.log_call state call).trans (ih (session.call state call))

theorem calls_append (session : Session) (state : SessionState) (row more : List Call) :
    session.calls state (row ++ more) = session.calls (session.calls state row) more :=
  List.foldl_append

/-- What holds of the documents of a session with the given root. The loader's reply to a request
may depend on the earlier requests. -/
structure CacheSound (session : Session) (root : Entry) (state : SessionState) : Prop where
  bounded : state.cache.length ≤ session.options.maxDocuments
  rooted : state.find? root.key = some root
  /-- A document is found by its key, and is the root or has come as a reply and been vetted. -/
  vetted : ∀ entry ∈ state.cache, state.find? entry.key = some entry ∧
    (entry = root ∨ ∃ loader earlier source later document,
      session.loader = some loader ∧ state.requests = earlier ++ source :: later ∧
        loader earlier source = .ok document ∧ session.Vetted source document entry)
  /-- The root is not requested, and nothing is requested that a request has brought. -/
  once : ∀ earlier source later, state.requests = earlier ++ source :: later →
    (session.originOf source).key ≠ root.key ∧
      ∀ loader entry, session.loader = some loader →
        session.reply loader earlier source = .ok entry →
          state.find? entry.key = some entry ∧
            ∀ other ∈ later, (session.originOf other).key ≠ entry.key

/-- What stays from one time in the life of a session to a later one: the documents there are, and
that they are not requested again. -/
structure Keeps (session : Session) (now later : SessionState) : Prop where
  documents : ∀ key entry, now.find? key = some entry → later.find? key = some entry
  requests : ∃ new, later.requests = now.requests ++ new ∧
    ∀ source ∈ new, now.find? (session.originOf source).key = none

theorem Log.cacheSound {root : Entry} {state : SessionState}
    (h : session.Log (.opened root) state.requests state.cache)
    (space : 0 < session.options.maxDocuments) : session.CacheSound root state := by
  have nodup := h.nodup (List.nodup_singleton root.key)
  have first : root ∈ state.cache := h.keeps.subset (List.mem_singleton_self root)
  refine ⟨h.bounded space, SessionState.find?_of_mem nodup first, ?_, ?_⟩
  · intro entry mem
    refine ⟨SessionState.find?_of_mem nodup mem, ?_⟩
    exact (h.vetted entry mem).imp_left List.mem_singleton.mp
  · intro earlier source later split
    obtain ⟨new, eq, missing⟩ := h.added
    constructor
    · have requested : source ∈ [] ++ new := by
        rw [← show state.requests = [] ++ new from eq, split]
        simp
      simpa [SessionState.opened] using missing source requested
    · intro loader entry some reply
      obtain ⟨mem, others⟩ := h.once some reply List.nil_prefix split
      exact ⟨SessionState.find?_of_mem nodup mem, others⟩

theorem Log.keeps_of {now later : SessionState} (h : session.Log now later.requests later.cache) :
    session.Keeps now later where
  documents _ _ := SessionState.find?_of_prefix h.keeps
  requests := by
    obtain ⟨new, eq, missing⟩ := h.added
    refine ⟨new, eq, ?_⟩
    intro source mem
    exact SessionState.find?_eq_none_iff.mpr (missing source mem)

theorem cache_of_load_error {source : Source} {state after : SessionState} {error : Error}
    (run : (session.load source).outcome state = (.error error, after)) :
    after.cache = state.cache := by
  have ends := session.load_ends source state
  rw [run] at ends
  cases ends <;> rfl

/-- While nothing has been requested in vain, the keys of the documents are those of the root and of
the requests. -/
theorem Fetched.keys {root : Entry} {requests : List Source} {cache : List Entry}
    (h : session.Fetched (.opened root) requests cache) :
    cache.map Entry.key = root.key :: requests.map fun source => (session.originOf source).key := by
  induction h with
  | start => rfl
  | accepted _ asks ih =>
      rw [List.map_append, ih, List.map_append, List.map_singleton, asks.key]
      rfl

/-- The requests of a step of a run are for distinct documents, none of them the root, and with the
root they are not more than the session may have. Only the last one may have been in vain. -/
theorem distinct_of_fetching {α : Type} {step : Run α} {root : Entry}
    {post : SessionState → α → Prop} (space : 0 < session.options.maxDocuments)
    (h : session.fetching.Meets step (.opened root) post) :
    (root.key :: (step.outcome (.opened root)).2.requests.map fun source =>
        (session.originOf source).key).Nodup ∧
      (step.outcome (.opened root)).2.requests.length + 1 ≤ session.options.maxDocuments := by
  have count {requests : List Source} {cache : List Entry}
      (fetched : session.Fetched (.opened root) requests cache) :
      requests.length + 1 = cache.length := by
    have keys := congrArg List.length fetched.keys
    simpa using keys.symm
  have distinct {requests : List Source} {cache : List Entry}
      (fetched : session.Fetched (.opened root) requests cache) :
      (root.key :: requests.map fun source => (session.originOf source).key).Nodup := by
    rw [← fetched.keys]
    exact (Log.of_fetched fetched).nodup (List.nodup_singleton root.key)
  have all {requests : List Source} {cache : List Entry}
      (fetched : session.Fetched (.opened root) requests cache) :
      (root.key :: requests.map fun source => (session.originOf source).key).Nodup ∧
        requests.length + 1 ≤ session.options.maxDocuments := by
    rw [count fetched]
    exact ⟨distinct fetched, (Log.of_fetched fetched).bounded space⟩
  cases run : step.outcome (.opened root) with
  | mk ended after =>
      cases ended with
      | ok value => exact all (h.ok run).1.2
      | error fault =>
          obtain ⟨-, fetched | ⟨requests, source, error, eq, fetched, asks⟩⟩ := h.error run
          · exact all fetched
          · have missing := asks.missing
            have space := asks.space
            rw [fetched.keys] at missing
            rw [← count fetched] at space
            rw [eq, List.map_append, List.map_singleton, ← List.cons_append,
              ← List.concat_eq_append, List.length_append, List.length_singleton]
            exact ⟨(distinct fetched).concat missing, space⟩

/-- The requests of a run are for distinct documents, none of them the root. -/
theorem distinct_requests (session : Session) (document : Document) (payload : Json)
    (space : 0 < session.options.maxDocuments) :
    ((session.originOf document.source).key :: (session.runRoot document payload).2.requests.map
        fun source => (session.originOf source).key).Nodup ∧
      (session.runRoot document payload).2.requests.length + 1 ≤ session.options.maxDocuments := by
  obtain ⟨error, failed⟩ | ⟨root, opens, ended, -⟩ := session.runRoot_ends document payload
  · rw [failed]
    exact ⟨List.nodup_singleton _, space⟩
  · rw [ended, ← opens.origin]
    exact distinct_of_fetching space
      (Expansion.resolveNode_meets (finds_fetching session) trivial)

/-- What a session has read. After its root has been opened and in whatever way it is used then, its
documents are bounded in number and vetted, each is found by its own key, and none is lost, changed
or requested again. A load that fails leaves them as they are. A single run makes distinct requests,
none of them for the root, and fewer than there may be documents. -/
theorem documents_kept (loader : Option Loader) (options : ResolveOptions) (current : String) :
    let session : Session := { loader := loader, options := options.effective, current := current }
    (∀ (document : Document) (payload : Json) (root : Entry) (start : SessionState),
      (session.openRoot document payload).outcome {} = (.ok root, start) →
        ∀ row more : List Call, session.CacheSound root (session.calls start row) ∧
          session.Keeps (session.calls start row) (session.calls start (row ++ more))) ∧
    (∀ (source : Source) (state after : SessionState) (error : Error),
      (session.load source).outcome state = (.error error, after) → after.cache = state.cache) ∧
    ∀ (document : Document) (payload : Json),
      let requests := (session.runRoot document payload).2.requests
      requests.length ≤ session.options.maxDocuments - 1 ∧
        (requests.map fun source => (session.originOf source).key).Nodup ∧
        ∀ source ∈ requests,
          (session.originOf source).key ≠ (session.originOf document.source).key := by
  intro session
  have space : 0 < session.options.maxDocuments := options.positive_effective.2.1
  refine ⟨?_, fun source state after error => cache_of_load_error, ?_⟩
  · intro document payload root start run row more
    obtain ⟨-, rfl⟩ := opens_of_openRoot run
    rw [calls_append]
    exact ⟨(session.log_calls _ row).cacheSound space, (session.log_calls _ more).keeps_of⟩
  · intro document payload requests
    obtain ⟨nodup, bounded⟩ := session.distinct_requests document payload space
    rw [List.nodup_cons] at nodup
    refine ⟨Nat.le_sub_one_of_lt bounded, nodup.2, ?_⟩
    intro source mem same
    exact nodup.1 (same ▸ List.mem_map_of_mem mem)

theorem documents_kept_sample :
    ∃ root start error after,
      (Sample.session.openRoot Sample.root Sample.payload).outcome {} = (.ok root, start) ∧
        Sample.session.CacheSound root (Sample.session.calls start
          [.load ⟨.fs, "none.json"⟩, .resolve root Sample.payload "#" {}]) ∧
        (Sample.session.load ⟨.fs, "none.json"⟩).outcome {} = (.error error, after) ∧
        after.cache = [] := by
  have kept := documents_kept (some Sample.loader) {} "/"
  have opens : ((Sample.session.openRoot Sample.root Sample.payload).outcome
      {}).1.toOption.isSome = true := by decide +kernel
  have fails : ((Sample.session.load ⟨.fs, "none.json"⟩).outcome {}).1.toOption.isNone = true := by
    decide +kernel
  generalize run : (Sample.session.openRoot Sample.root Sample.payload).outcome {} = opened at opens
  generalize load : (Sample.session.load ⟨.fs, "none.json"⟩).outcome {} = ended at fails
  obtain ⟨opened, start⟩ := opened
  obtain ⟨ended, after⟩ := ended
  cases opened with
  | error => cases opens
  | ok root =>
      cases ended with
      | ok => cases fails
      | error error =>
          exact ⟨root, start, error, after, rfl, (kept.1 _ _ root start run _ []).1, rfl,
            kept.2.1 _ _ after error load⟩

end SchemaForms.Session
