import SchemaForms.Proofs.Session.Fetched
import SchemaForms.Proofs.Session.Root

/-!
# Stricter sessions

A session becomes stricter by smaller limits, by fewer permissions, or by the check for cycles. All
of these only ever stop a run: `Lockstep` says of two steps, of a strict session and a lax one, that
they come to the same unless the strict one stops with an error that is the strict session's own.

If the lax step succeeds where the strict one has stopped, then what it has read by then, or reads
later, shows why: `Lockstep` carries a condition on sessions that tells.
-/

namespace SchemaForms

namespace Session

/-- The first session is the second one with smaller limits or fewer permissions, or with the check
for cycles. -/
structure Stricter (strict lax : Session) : Prop where
  loader : strict.loader = lax.loader
  current : strict.current = lax.current
  traversal : strict.options.allowTraversal = lax.options.allowTraversal
  http : strict.options.allowHttp = true → lax.options.allowHttp = true
  size : strict.options.maxDocumentSize ≤ lax.options.maxDocumentSize
  documents : strict.options.maxDocuments ≤ lax.options.maxDocuments
  depth : strict.options.maxDepth ≤ lax.options.maxDepth
  cycles : lax.detectsCycles = true → strict.detectsCycles = true

/-- The errors with which only the strict session stops a run. -/
inductive Bars (strict lax : Session) : Error → Prop
  | size {size : Nat} {location : String}
      (less : strict.options.maxDocumentSize < lax.options.maxDocumentSize) :
      Bars strict lax (.schema (.limit (.documentSize size)) location)
  | documents {location : String} (less : strict.options.maxDocuments < lax.options.maxDocuments) :
      Bars strict lax (.schema (.limit (.documents strict.options.maxDocuments)) location)
  | depth {place : String} (less : strict.options.maxDepth < lax.options.maxDepth) :
      Bars strict lax (.schema (.limit (.depth strict.options.maxDepth)) place)
  | http {ref place : String} (off : strict.options.allowHttp = false)
      (on : lax.options.allowHttp = true) : Bars strict lax (.schema (.httpDisabled ref) place)
  | cycle {ref place : String} (on : strict.detectsCycles = true)
      (off : lax.detectsCycles = false) : Bars strict lax (.schema (.cycle ref) place)

/-- The document is the loader's reply to one of the requests of a session. -/
def Loads (session : Session) (state : SessionState) (document : Document) : Prop :=
  ∃ loader earlier source later, session.loader = some loader ∧
    state.requests = earlier ++ source :: later ∧ loader earlier source = .ok document

/-- What has been read is too much for the strict session, or needs what only the lax one may do. -/
inductive Exceeds (strict lax : Session) (library : SessionState) : Prop
  | size {document : Document} (loads : lax.Loads library document)
      (more : strict.options.maxDocumentSize < document.size)
  | documents (more : strict.options.maxDocuments < library.cache.length)
  | http (off : strict.options.allowHttp = false) (on : lax.options.allowHttp = true)
  | cycle (on : strict.detectsCycles = true) (off : lax.detectsCycles = false)

variable {strict lax : Session} {needs needs' : SessionState → Prop} {state : SessionState}
variable {α β : Type}

/-- From a state the strict step comes to what the lax one comes to, or it stops with an error of
its own. If the lax step succeeds then, whatever has been read after it meets the condition. -/
structure Lockstep (strict lax : Session) (needs : SessionState → Prop) (state : SessionState)
    (step step' : Run α) : Prop where
  fetches : lax.fetching.Meets step' state fun _ _ => True
  agrees : step.outcome state = step'.outcome state ∨
    ∃ error stopped, step.outcome state = (.error error, stopped) ∧ strict.Bars lax error ∧
      ∀ value after library, step'.outcome state = (.ok value, after) →
        lax.fetching.done after library → needs library

namespace Lockstep

variable {step step' : Run α}

theorem same (fetches : lax.fetching.Meets step state fun _ _ => True) :
    Lockstep strict lax needs state step step :=
  ⟨fetches, .inl rfl⟩

/-- The strict session stops where the lax one does something. -/
theorem stop {error : Error} (fetches : lax.fetching.Meets step' state fun _ _ => True)
    (bars : strict.Bars lax error)
    (shows : ∀ value after library, step'.outcome state = (.ok value, after) →
      lax.fetching.done after library → needs library) :
    Lockstep strict lax needs state (throw error) step' :=
  ⟨fetches, .inr ⟨error, state, rfl, bars, shows⟩⟩

theorem pure (value : α) : Lockstep strict lax needs state (Pure.pure value) (Pure.pure value) :=
  same (Effect.meets_pure trivial)

theorem throw (error : Error) :
    Lockstep strict lax needs state (MonadExcept.throw error : Run α) (MonadExcept.throw error) :=
  same (Effect.meets_throw error)

theorem lift (result : Except Error α) :
    Lockstep strict lax needs state (liftM result) (liftM result) :=
  same (Effect.meets_lift fun _ _ => trivial)

/-- The condition may be weakened, for sessions that are later than the state. -/
theorem mono (h : Lockstep strict lax needs state step step')
    (imp : ∀ library, lax.fetching.done state library → needs library → needs' library) :
    Lockstep strict lax needs' state step step' := by
  refine ⟨h.fetches, h.agrees.imp_right ?_⟩
  rintro ⟨error, stopped, run, bars, shows⟩
  refine ⟨error, stopped, run, bars, ?_⟩
  intro value after library succeeds later
  have done := (h.fetches.ok succeeds).1
  exact imp library (lax.fetching.trans done later) (shows value after library succeeds later)

/-- One step after another: the second steps have to agree only where the first lax one leads. -/
theorem bind {next next' : α → Run β} (h : Lockstep strict lax needs state step step')
    (h' : ∀ value middle, step'.outcome state = (.ok value, middle) →
      Lockstep strict lax needs middle (next value) (next' value)) :
    Lockstep strict lax needs state (step >>= next) (step' >>= next') := by
  constructor
  · apply Effect.Meets.bind
    apply Effect.meets_of_outcome
    · intro value middle run
      exact ⟨(h.fetches.ok run).1, (h' value middle run).fetches⟩
    · intro error after run
      exact h.fetches.error run
  · obtain same | ⟨error, stopped, run, bars, shows⟩ := h.agrees
    · rw [Run.outcome_bind, Run.outcome_bind, same]
      cases ended : step'.outcome state with
      | mk result middle =>
          cases result with
          | error fault => exact .inl rfl
          | ok value =>
              obtain same | ⟨error, stopped, run, bars, shows⟩ := (h' value middle ended).agrees
              · exact .inl same
              · exact .inr ⟨error, stopped, run, bars, shows⟩
    · refine .inr ⟨error, stopped, by rw [Run.outcome_bind, run], bars, ?_⟩
      intro result after library succeeds later
      obtain ⟨value, middle, first, rest⟩ := Run.outcome_bind_eq_ok.mp succeeds
      have done := ((h' value middle first).fetches.ok rest).1
      exact shows value middle library first (lax.fetching.trans done later)

theorem map {f : α → β} (h : Lockstep strict lax needs state step step') :
    Lockstep strict lax needs state (f <$> step) (f <$> step') := by
  rw [map_eq_pure_bind, map_eq_pure_bind]
  exact h.bind fun value _ _ => .pure (f value)

end Lockstep

theorem Fetched.requests {session : Session} {before : SessionState} {requests : List Source}
    {cache : List Entry} (h : session.Fetched before requests cache) :
    before.requests <+: requests := by
  induction h with
  | start => exact List.prefix_refl _
  | accepted _ _ ih => exact ih.trans (List.prefix_append _ _)

theorem Loads.later {session : Session} {library : SessionState} {document : Document}
    (h : session.Loads state document) (done : session.fetching.done state library) :
    session.Loads library document := by
  obtain ⟨loader, earlier, source, later, some, split, replied⟩ := h
  obtain ⟨more, eq⟩ := done.2.requests
  exact ⟨loader, earlier, source, later ++ more, some, by rw [← eq, split]; simp, replied⟩

/-- The strict session checks the size of a document as the lax one does, or finds it too large. -/
theorem Stricter.checkSize (h : strict.Stricter lax) (document : Document) (location : String) :
    strict.checkSize document location = lax.checkSize document location ∨
      (strict.checkSize document location =
          .error (.schema (.limit (.documentSize document.size)) location) ∧
        strict.options.maxDocumentSize < lax.options.maxDocumentSize ∧
        strict.options.maxDocumentSize < document.size) := by
  have le := h.size
  unfold Session.checkSize
  by_cases large : strict.options.maxDocumentSize < document.size
  · by_cases large' : lax.options.maxDocumentSize < document.size
    · simp [large, large']
    · exact .inr ⟨if_pos large, by omega, large⟩
  · rw [if_neg large, if_neg (by omega)]
    exact .inl rfl

theorem Stricter.reply (h : strict.Stricter lax) (loader : Loader) (earlier : List Source)
    (source : Source) :
    strict.reply loader earlier source = lax.reply loader earlier source ∨
      ∃ document location, loader earlier source = .ok document ∧
        strict.reply loader earlier source =
          .error (.schema (.limit (.documentSize document.size)) location) ∧
        strict.options.maxDocumentSize < lax.options.maxDocumentSize ∧
        strict.options.maxDocumentSize < document.size := by
  have origin : strict.originOf source = lax.originOf source := by rw [originOf, originOf, h.current]
  unfold Session.reply
  cases replied : loader earlier source with
  | error fault => exact .inl (by simp only [bind, Except.bind])
  | ok document =>
      simp only [bind, Except.bind, accept, origin]
      obtain same | ⟨large, less, more⟩ := h.checkSize document (lax.originOf source).location
      · exact .inl (by rw [same])
      · exact .inr ⟨document, (lax.originOf source).location, rfl, by rw [large], less, more⟩

/-- What loading a document that is not there comes to, by what there is to decide. -/
theorem load_of_missing {session : Session} {source : Source}
    (missing : state.find? (session.originOf source).key = none) :
    (session.load source).outcome state =
      if session.options.maxDocuments ≤ state.cache.length then
        (.error (.schema (.limit (.documents session.options.maxDocuments))
          (session.originOf source).location), state)
      else match session.loader with
        | none => (.error (.schema (.load .noLoader) (session.originOf source).location), state)
        | some loader =>
          match session.reply loader state.requests source with
          | .ok entry => (.ok entry, (state.requested source).store entry)
          | .error error => (.error error, state.requested source) := by
  unfold Session.load
  rw [Run.outcome_bind, Run.outcome_get]
  simp only [ofSource_eq_originOf, missing]
  split
  · rfl
  · cases session.loader with
    | none => rfl
    | some loader =>
        simp only [Run.outcome_bind, outcome_request, Session.reply]
        cases loader state.requests source with
        | error error => rfl
        | ok document =>
            simp only [Run.outcome_lift]
            cases taken : session.accept source.kind (session.originOf source) document with
            | error error => simp [taken, bind, Except.bind]
            | ok entry =>
                simp [taken, bind, Except.bind]
                rfl

theorem Stricter.load (h : strict.Stricter lax) (source : Source) (state : SessionState) :
    Lockstep strict lax (Exceeds strict lax) state (strict.load source) (lax.load source) := by
  have fetches : lax.fetching.Meets (lax.load source) state fun _ _ => True :=
    (lax.load_fetching source state).mono fun _ _ _ _ => trivial
  have origin : strict.originOf source = lax.originOf source := by rw [originOf, originOf, h.current]
  have finds : state.find? (strict.originOf source).key =
      state.find? (lax.originOf source).key := by rw [origin]
  refine ⟨fetches, ?_⟩
  cases has : state.find? (lax.originOf source).key with
  | some entry =>
      left
      rw [load_of_find? has, load_of_find? (finds.trans has)]
  | none =>
      have ends := lax.load_ends source state
      rw [load_of_missing (finds.trans has), origin]
      by_cases full : strict.options.maxDocuments ≤ state.cache.length
      · rw [if_pos full]
        by_cases less : strict.options.maxDocuments < lax.options.maxDocuments
        · refine .inr ⟨_, state, rfl, .documents less, ?_⟩
          intro entry after library succeeds later
          have more : after.cache.length = state.cache.length + 1 := by
            rw [succeeds] at ends
            cases ends with
            | found found => cases has.symm.trans found
            | accepted asks => rw [asks.cache, List.length_append, List.length_singleton]
          have grown := later.2.cache.length_le
          exact .documents (by omega)
        · left
          have equal : strict.options.maxDocuments = lax.options.maxDocuments :=
            Nat.le_antisymm h.documents (Nat.not_lt.mp less)
          rw [load_of_missing has, ← equal, if_pos full]
      · have space : ¬ lax.options.maxDocuments ≤ state.cache.length := by
          have le := h.documents
          omega
        rw [load_of_missing has, if_neg full, if_neg space, h.loader]
        cases some : lax.loader with
        | none => exact .inl rfl
        | some loader =>
            obtain same | ⟨document, location, replied, large, less, more⟩ :=
              h.reply loader state.requests source
            · left
              simp only [same]
            · simp only [large]
              refine .inr ⟨_, _, rfl, .size less, ?_⟩
              intro entry after library succeeds later
              have loads : lax.Loads after document := by
                refine ⟨loader, state.requests, source, [], some, ?_, replied⟩
                split at succeeds
                · rw [← (Prod.mk.inj succeeds).2]
                  rfl
                · cases succeeds
              exact .size (loads.later later) more

/-- The strict session finds the source of a reference that the lax one finds, or it may not go
there. -/
theorem Stricter.sourceOf (h : strict.Stricter lax) (state : SessionState) (entry : Entry)
    (ref path place : String) :
    strict.sourceOf state entry ref path place = lax.sourceOf state entry ref path place ∨
      strict.options.allowHttp = false ∧ lax.options.allowHttp = true ∧
        ∃ shown, strict.sourceOf state entry ref path place =
          .error (.schema (.httpDisabled shown) place) := by
  by_cases http : strict.options.allowHttp = lax.options.allowHttp
  · left
    simp only [Session.sourceOf, relativeSource, fileSource, Sandbox.cleanFile, Sandbox.cleanName,
      http, h.traversal, h.current]
  · have off : strict.options.allowHttp = false := by
      cases on : strict.options.allowHttp with
      | false => rfl
      | true => exact absurd (on.trans (h.http on).symm) http
    have on : lax.options.allowHttp = true := by
      cases other : lax.options.allowHttp with
      | true => rfl
      | false => exact absurd (off.trans other.symm) http
    have relative : strict.relativeSource state entry path place =
        lax.relativeSource state entry path place ∨ ∃ shown,
          strict.relativeSource state entry path place =
            .error (.schema (.httpDisabled shown) place) := by
      unfold relativeSource
      cases entry.kind with
      | file | fs => exact .inl (by simp only [Sandbox.cleanFile, Sandbox.cleanName, h.traversal,
          h.current])
      | url => exact .inr ⟨path, by simp only [off, Bool.false_eq_true, if_false]⟩
    have file : strict.fileSource = lax.fileSource := by
      funext state entry path ref place
      simp only [fileSource, Sandbox.cleanFile, h.traversal, h.current]
    unfold Session.sourceOf
    cases Uri.parse path with
    | error => exact .inl rfl
    | ok uri =>
        simp only [file]
        split
        · exact .inr ⟨off, on, ref, by rw [off, if_neg Bool.false_ne_true]⟩
        · split
          · exact .inl rfl
          · split
            · exact .inl rfl
            · exact relative.imp_right fun shown => ⟨off, on, shown⟩

theorem Stricter.locate (h : strict.Stricter lax) (entry : Entry) (ref place : String)
    (state : SessionState) :
    Lockstep strict lax (Exceeds strict lax) state (strict.locate entry ref place)
      (lax.locate entry ref place) := by
  rw [locate_eq, locate_eq]
  split
  · exact .lift _
  · refine .bind (.same (Effect.meets_get trivial)) ?_
    rintro _ _ ⟨⟩
    obtain same | ⟨off, on, shown, disabled⟩ :=
      h.sourceOf state entry ref (documentPart ref) place
    · rw [same]
      refine .bind (.lift _) ?_
      rintro source _ -
      refine .bind (h.load source _) ?_
      exact fun other _ _ => .lift _
    · rw [disabled]
      refine .stop ?_ (.http off on) fun _ _ _ _ _ => .http off on
      apply Effect.Meets.bind
      apply Effect.meets_lift
      intro source _
      apply Effect.Meets.bind
      apply (lax.load_fetching source _).mono
      intro after other _ _
      exact Effect.meets_lift fun _ _ => trivial

/-- The strict session opens a root document as the lax one does, or finds it too large. -/
theorem Stricter.openRoot (h : strict.Stricter lax) (document : Document) (payload : Json) :
    (strict.openRoot document payload).outcome {} = (lax.openRoot document payload).outcome {} ∨
      ∃ error, (strict.openRoot document payload).outcome {} = (.error error, {}) ∧
        strict.Bars lax error ∧ strict.options.maxDocumentSize < document.size := by
  cases payload with
  | obj members =>
      simp only [Session.openRoot, Run.outcome_bind, Run.outcome_pure, Run.outcome_lift, h.current]
      obtain same | ⟨large, less, more⟩ :=
        h.checkSize document (Origin.ofSource lax.current document.source).location
      · exact .inl (by rw [same])
      · rw [large]
        exact .inr ⟨_, rfl, .size less, more⟩
  | _ =>
      left
      simp only [Session.openRoot, Run.outcome_bind, Run.outcome_throw]

end Session

end SchemaForms
