import SchemaForms.Proofs.Expansion.Expanded
import SchemaForms.Proofs.Session.Locate

/-!
# What a run fetches

As long as a run goes on, each of its requests has brought one new document. A request that brings
none ends the run. `Fetched` is the record of the former, and `Session.fetching` the effect that
every step of a run has: more of the same if it succeeds, and at most one vain request behind that
if it fails.

What a reference denotes does not change by that. Once its target has been found it can be found
again, at any later time, with the documents that are there.
-/

namespace SchemaForms

namespace Session

/-- The requests and documents of a session after requests that have each brought a document. -/
inductive Fetched (session : Session) (before : SessionState) :
    List Source → List Entry → Prop
  | start : Fetched session before before.requests before.cache
  | accepted {requests : List Source} {cache : List Entry} {source : Source} {entry : Entry}
      (fetched : Fetched session before requests cache)
      (asks : session.Asks requests cache source (.ok entry)) :
      Fetched session before (requests ++ [source]) (cache ++ [entry])

theorem Fetched.trans {session : Session} {first second : SessionState}
    (h : session.Fetched first second.requests second.cache) {requests : List Source}
    {cache : List Entry} (h' : session.Fetched second requests cache) :
    session.Fetched first requests cache := by
  induction h' with
  | start => exact h
  | accepted _ asks ih => exact ih.accepted asks

/-- The effect of the steps of a run: documents are fetched, and a step that fails may have made one
more request, in vain. -/
def fetching (session : Session) : Effect where
  done before after :=
    after.root = before.root ∧ session.Fetched before after.requests after.cache
  failed before after := after.root = before.root ∧
    (session.Fetched before after.requests after.cache ∨
      ∃ requests source error, after.requests = requests ++ [source] ∧
        session.Fetched before requests after.cache ∧
        session.Asks requests after.cache source (.error error))
  refl _ := ⟨rfl, .start⟩
  trans first second := ⟨second.1.trans first.1, first.2.trans second.2⟩
  stop _ := ⟨rfl, .inl .start⟩
  after := by
    rintro first second third ⟨root, fetched⟩ ⟨root', more | vain⟩
    · exact ⟨root'.trans root, .inl (fetched.trans more)⟩
    · obtain ⟨requests, source, error, eq, more, asks⟩ := vain
      exact ⟨root'.trans root, .inr ⟨requests, source, error, eq, fetched.trans more, asks⟩⟩

theorem Fetched.cache {session : Session} {before : SessionState} {requests : List Source}
    {cache : List Entry} (h : session.Fetched before requests cache) : before.cache <+: cache := by
  induction h with
  | start => exact List.prefix_refl _
  | accepted _ _ ih => exact ih.trans (List.prefix_append _ _)

theorem grows_of_fetching {session : Session} {before after : SessionState}
    (h : session.fetching.done before after) : SessionState.Grows before after :=
  ⟨h.2.cache, h.1⟩

/-- Whether a step succeeds or fails, the documents that there are then have been fetched. -/
theorem fetched_of_meets {session : Session} {α : Type} {step : Run α} {state : SessionState}
    {post : SessionState → α → Prop}
    (h : session.fetching.Meets step state post) :
    (step.outcome state).2.root = state.root ∧
      ∃ requests, session.Fetched state requests (step.outcome state).2.cache := by
  cases run : step.outcome state with
  | mk result after =>
      cases result with
      | ok value =>
          obtain ⟨⟨root, fetched⟩, -⟩ := h.ok run
          exact ⟨root, _, fetched⟩
      | error error =>
          obtain ⟨root, fetched | ⟨_, _, _, _, fetched, _⟩⟩ := h.error run
          · exact ⟨root, _, fetched⟩
          · exact ⟨root, _, fetched⟩

/-- What has been read is kept, whether a step succeeds or fails. -/
theorem grows_of_meets {session : Session} {α : Type} {step : Run α} {state : SessionState}
    {post : SessionState → α → Prop}
    (h : session.fetching.Meets step state post) :
    SessionState.Grows state (step.outcome state).2 := by
  obtain ⟨root, requests, fetched⟩ := fetched_of_meets h
  exact ⟨fetched.cache, root⟩

theorem load_fetching (session : Session) (source : Source) (state : SessionState) :
    session.fetching.Meets (session.load source) state fun after other =>
      after.find? (session.originOf source).key = some other := by
  apply load_meets
  intro ended ends
  cases ends with
  | found found => exact ⟨session.fetching.refl state, found⟩
  | full | noLoader => exact session.fetching.stop state
  | refused asks => exact ⟨rfl, .inr ⟨_, _, _, rfl, .start, asks⟩⟩
  | accepted asks =>
      have missing := SessionState.find?_eq_none_iff.mpr asks.missing
      rw [← asks.key] at missing ⊢
      refine ⟨⟨rfl, ?_⟩, SessionState.find?_store missing⟩
      rw [asks.cache]
      exact .accepted .start asks

/-- The source that a reference names does not depend on what has been read besides the root. -/
theorem sourceOf_congr {session : Session} {before after : SessionState} (entry : Entry)
    (ref path place : String) (h : after.root = before.root) :
    session.sourceOf after entry ref path place = session.sourceOf before entry ref path place := by
  simp only [sourceOf, fileSource, relativeSource, SessionState.rootDirectory, h]

/-- The target of a reference is read in its document, or in one that the session has then. -/
theorem locate_fetching (session : Session) (entry : Entry) (ref place : String)
    (state : SessionState) :
    session.fetching.Meets (session.locate entry ref place) state fun after target =>
      ∃ other, (other = entry ∨ other ∈ after.cache) ∧
        other.target (fragmentPart ref) place = .ok target := by
  apply locate_meets
  · intro _ target read
    exact ⟨entry, .inl rfl, read⟩
  · intro _ source _
    apply (session.load_fetching source state).mono
    intro after other _ found target read
    exact ⟨other, .inr (SessionState.mem_of_find? found), read⟩

/-- A target that has been found is found again by any session that has all documents that there
were then, and finding it again does nothing. -/
theorem locate_again {session : Session} {entry : Entry} {ref place : String} {target : Target}
    {before after later : SessionState}
    (run : (session.locate entry ref place).outcome before = (.ok target, after))
    (grows : SessionState.Grows after later) :
    (session.locate entry ref place).outcome later = (.ok target, later) := by
  obtain ⟨done, -⟩ := (session.locate_fetching entry ref place before).ok run
  have grown := (grows_of_fetching done).trans grows
  rw [locate_eq] at run ⊢
  split at run
  · rename_i here
    rw [Run.outcome_lift, Prod.mk.injEq] at run
    rw [if_pos here, Run.outcome_lift, run.1]
  · rename_i elsewhere
    rw [if_neg elsewhere]
    obtain ⟨source, named, run⟩ :=
      Run.outcome_lift_bind_eq_ok.mp (Run.outcome_get_bind_eq_ok.mp run)
    obtain ⟨other, middle, loaded, read⟩ := Run.outcome_bind_eq_ok.mp run
    rw [Run.outcome_lift, Prod.mk.injEq] at read
    obtain ⟨read, rfl⟩ := read
    have found := SessionState.find?_of_prefix grows.cache
      ((session.load_fetching source before).ok loaded).2
    have named' : session.sourceOf later entry ref (documentPart ref) place = .ok source :=
      (session.sourceOf_congr entry ref (documentPart ref) place grown.root).trans named
    refine Run.outcome_get_bind_eq_ok.mpr ?_
    refine Run.outcome_lift_bind_eq_ok.mpr ⟨source, named', ?_⟩
    refine Run.outcome_bind_eq_ok.mpr ⟨other, later, load_of_find? found, ?_⟩
    rw [Run.outcome_lift, read]

/-- In the session, as it is, the reference of a node denotes the target: it is found, and finding
it does nothing. -/
def Denotes (session : Session) (state : SessionState) (entry : Entry) (node : Members)
    (place : String) (target : Target) : Prop :=
  ∃ ref, Expansion.refText node place = .ok ref ∧
    (session.locate entry ref place).outcome state = (.ok target, state)

theorem Denotes.unique {session : Session} {state : SessionState} {entry : Entry} {node : Members}
    {place : String} {target target' : Target} (h : session.Denotes state entry node place target)
    (h' : session.Denotes state entry node place target') : target = target' := by
  obtain ⟨ref, written, run⟩ := h
  obtain ⟨ref', written', run'⟩ := h'
  obtain rfl := Except.ok.inj (written.symm.trans written')
  exact Except.ok.inj (Prod.mk.inj (run.symm.trans run')).1

/-- What references denote does not change when more is fetched. -/
theorem Denotes.later {session : Session} {state later : SessionState} {entry : Entry}
    {node : Members} {place : String} {target : Target}
    (h : session.Denotes state entry node place target) (grows : SessionState.Grows state later) :
    session.Denotes later entry node place target := by
  obtain ⟨ref, written, run⟩ := h
  exact ⟨ref, written, locate_again run grows⟩

/-- Whatever the steps of a run find is what the references denote from then on. -/
theorem finds_fetching (session : Session) :
    Expansion.Finds session.fetching (fun _ _ => True) session.Denotes session where
  ignoresTrail := ⟨fun _ _ => ⟨rfl, .start⟩, fun failed _ => failed⟩
  keep _ _ := trivial
  lasting h done := h.later (grows_of_fetching done)
  locate {entry node ref place state} _ written := by
    apply Effect.meets_of_outcome
    · intro target after run
      obtain ⟨done, -⟩ := (session.locate_fetching entry ref place state).ok run
      have again := locate_again run ⟨List.prefix_refl _, rfl⟩
      exact ⟨done, trivial, ref, written, again⟩
    · intro error after run
      exact (session.locate_fetching entry ref place state).error run

end Session

namespace Expansion

/-- What a reference leads to is fetched, and no more is known of it here. -/
theorem follows_fetching (session : Session) (budget : Nat) (entry : Entry) :
    Follows session.fetching (fun _ => True) (fun _ _ _ _ => True)
      (expand.follow session entry (descent session budget)) where
  keep _ _ := trivial
  lasting _ _ := trivial
  meets node path state _ := by
    apply follow_meets
    intro ref written
    apply (session.locate_fetching entry ref _ state).mono
    intro middle target _ _ below merged allowed _ put
    cases budget with
    | zero => cases allowed
    | succ budget =>
        cases allowed
        have finds := Session.finds_fetching session
        apply nested_meets finds.ignoresTrail fun _ => trivial
        exact (expand_meets finds budget trivial).mono fun _ _ _ _ => trivial

end Expansion

end SchemaForms
