import SchemaForms.Proofs.Expansion.Walk

/-!
# What an expansion does

`Expanded found` relates a value of a document to what an expansion of it gives, when `found` says
what the references of a document denote. The budget bounds how deep references may be nested, as
it does in the expansion itself.

`expand_meets` is the one induction over the nested references of a run. It turns what is known of
finding a target into what is known of the whole expansion: its effect on the session, and that its
result is `Expanded`. Cycle detection only ever ends a run, so it does not show here.
-/

namespace SchemaForms

/-- An effect that says nothing of the references being expanded. -/
structure Effect.IgnoresTrail (effect : Effect) : Prop where
  done : ∀ state trail, effect.done state { state with trail := trail }
  failed : ∀ {state after}, effect.failed state after →
    ∀ trail, effect.failed state { after with trail := trail }

namespace Expansion

/-- The expansion of a target, if the budget allows another reference to be nested. -/
def descent (session : Session) : Nat → Option (Target → Json → Run Json)
  | 0 => none
  | budget + 1 => some fun target merged =>
      expand session budget target.entry .schema target.path merged

theorem expand_eq (session : Session) (budget : Nat) (entry : Entry) (place : Place) (path : String)
    (value : Json) :
    expand session budget entry place path value =
      walk (expand.follow session entry (descent session budget)) place path value := by
  cases budget <;> rfl

theorem outcome_nested {α : Type} (key : String) (step : Run α) (state : SessionState) :
    (nested key step).outcome state =
      ((step.outcome { state with trail := state.trail.push key }).1,
        let after := (step.outcome { state with trail := state.trail.push key }).2
        { after with trail := after.trail.pop }) := rfl

/-- A step below a reference succeeds if it does so with the reference being expanded. -/
theorem nested_eq_ok {α : Type} {key : String} {step : Run α} {state after : SessionState}
    {value : α} :
    (nested key step).outcome state = (.ok value, after) ↔
      ∃ ended, step.outcome { state with trail := state.trail.push key } = (.ok value, ended) ∧
        after = { ended with trail := ended.trail.pop } := by
  rw [outcome_nested]
  generalize step.outcome { state with trail := state.trail.push key } = run
  obtain ⟨result, ended⟩ := run
  constructor
  · intro h
    obtain ⟨rfl, rfl⟩ := Prod.mk.inj h
    exact ⟨ended, rfl, rfl⟩
  · rintro ⟨_, same, rfl⟩
    obtain ⟨rfl, rfl⟩ := Prod.mk.inj same
    rfl

/-- What it takes to follow a reference. -/
theorem follow_eq_ok {session : Session} {entry : Entry}
    {descend : Option (Target → Json → Run Json)} {node : Members} {path : String}
    {state after : SessionState} {result : Json} :
    (expand.follow session entry descend node path).outcome state = (.ok result, after) ↔
      ∃ ref target middle below merged,
        refText node (entry.location ++ path) = .ok ref ∧
        (session.locate entry ref (entry.location ++ path)).outcome state = (.ok target, middle) ∧
        descend = some below ∧
        (session.detectsCycles && middle.trail.contains target.key) = false ∧
        Reference.merge target.value node (entry.location ++ path) = .ok merged ∧
        (nested target.key (below target merged)).outcome middle = (.ok result, after) := by
  unfold expand.follow
  constructor
  · intro run
    obtain ⟨ref, written, run⟩ := Run.outcome_lift_bind_eq_ok.mp run
    obtain ⟨target, middle, located, run⟩ := Run.outcome_bind_eq_ok.mp run
    cases descend with
    | none => cases run
    | some below =>
        have run := Run.outcome_get_bind_eq_ok.mp run
        split at run
        · obtain ⟨_, _, impossible, -⟩ := Run.outcome_bind_eq_ok.mp run
          cases impossible
        · rename_i passes
          obtain ⟨merged, put, run⟩ := Run.outcome_lift_bind_eq_ok.mp run
          exact ⟨ref, target, middle, below, merged, written, located, rfl,
            eq_false_of_ne_true passes, put, run⟩
  · rintro ⟨ref, target, middle, below, merged, written, located, rfl, passes, put, run⟩
    refine Run.outcome_lift_bind_eq_ok.mpr ⟨ref, written, ?_⟩
    refine Run.outcome_bind_eq_ok.mpr ⟨target, middle, located, ?_⟩
    refine Run.outcome_get_bind_eq_ok.mpr ?_
    rw [passes, if_neg Bool.false_ne_true]
    exact Run.outcome_lift_bind_eq_ok.mpr ⟨merged, put, run⟩

/-- What is known of finding targets, for an effect that ignores the references being expanded. An
entry is good in a state if references may be made from it there. -/
structure Finds (effect : Effect) (good : SessionState → Entry → Prop)
    (found : SessionState → Entry → Members → String → Target → Prop) (session : Session) :
    Prop where
  ignoresTrail : effect.IgnoresTrail
  keep : ∀ {state after entry}, good state entry → effect.done state after → good after entry
  lasting : ∀ {state after entry node place target}, found state entry node place target →
    effect.done state after → found after entry node place target
  locate : ∀ {entry node ref place state}, good state entry → refText node place = .ok ref →
    effect.Meets (session.locate entry ref place) state fun after target =>
      good after target.entry ∧ found after entry node place target

/-- A value of a document at a path, and what an expansion of it gives if `found` says what the
references denote. -/
def Expanded (found : Entry → Members → String → Target → Prop) :
    Nat → Entry → String → Json → Json → Prop
  | 0, _, path, value, result => Walked (fun _ _ _ => False) .schema path value result
  | budget + 1, entry, path, value, result =>
      Walked (fun node path result => ∃ target merged,
        found entry node (entry.location ++ path) target ∧
        Reference.merge target.value node (entry.location ++ path) = .ok merged ∧
        Expanded found budget target.entry target.path merged result) .schema path value result

theorem Expanded.mono {found found' : Entry → Members → String → Target → Prop}
    (imp : ∀ entry node place target, found entry node place target →
      found' entry node place target) {budget : Nat} {entry : Entry} {path : String}
    {value result : Json} (h : Expanded found budget entry path value result) :
    Expanded found' budget entry path value result := by
  induction budget generalizing entry path value result with
  | zero => exact h
  | succ budget ih =>
      apply Walked.mono _ h
      rintro node path result ⟨target, merged, denoted, put, rest⟩
      exact ⟨target, merged, imp _ _ _ _ denoted, put, ih rest⟩

section Meets

variable {effect : Effect} {good : SessionState → Entry → Prop}
variable {found : SessionState → Entry → Members → String → Target → Prop} {session : Session}

/-- Nesting a step below a reference changes nothing for an effect that ignores the trail. -/
theorem nested_meets {α : Type} (ignores : effect.IgnoresTrail) {key : String} {step : Run α}
    {state : SessionState} {post : SessionState → α → Prop}
    (lasting : ∀ {after value trail}, post after value → post { after with trail := trail } value)
    (inner : effect.Meets step { state with trail := state.trail.push key } post) :
    effect.Meets (nested key step) state post := by
  have pushed := ignores.done state (state.trail.push key)
  apply Effect.meets_of_outcome
  · intro value after run
    rw [outcome_nested] at run
    obtain ⟨ended, rfl⟩ := Prod.mk.inj run
    obtain ⟨done, holds⟩ := inner.ok (Prod.ext ended rfl)
    exact ⟨effect.trans pushed (effect.trans done (ignores.done _ _)), lasting holds⟩
  · intro error after run
    rw [outcome_nested] at run
    obtain ⟨ended, rfl⟩ := Prod.mk.inj run
    exact effect.after pushed (ignores.failed (inner.error (Prod.ext ended rfl)) _)

/-- To follow a reference is to find its target and to expand that, with all that is known of the
target and of the members put into it. The check for cycles has let the target pass. -/
theorem follow_meets {entry : Entry} {descend : Option (Target → Json → Run Json)} {node : Members}
    {path : String} {state : SessionState} {post : SessionState → Json → Prop}
    (h : ∀ ref, refText node (entry.location ++ path) = .ok ref →
      effect.Meets (session.locate entry ref (entry.location ++ path)) state fun after target =>
        ∀ below merged, descend = some below →
          (session.detectsCycles && after.trail.contains target.key) = false →
          Reference.merge target.value node (entry.location ++ path) = .ok merged →
          effect.Meets (nested target.key (below target merged)) after post) :
    effect.Meets (expand.follow session entry descend node path) state post := by
  apply Effect.Meets.bind
  apply Effect.meets_lift
  intro ref written
  apply Effect.Meets.bind
  apply (h ref written).mono
  intro after target _ next
  cases descend with
  | none => exact Effect.meets_throw _
  | some below =>
      apply Effect.Meets.bind
      apply Effect.meets_get
      simp only
      split
      · exact Effect.Meets.bind (Effect.meets_throw _)
      · rename_i passes
        apply Effect.Meets.bind
        apply Effect.meets_lift
        intro merged put
        exact next below merged rfl (eq_false_of_ne_true passes) put

/-- The induction over nested references: an expansion has the effect of finding targets, and gives
what `Expanded` says. -/
theorem expand_meets (h : Finds effect good found session) (budget : Nat) {entry : Entry}
    {path : String} {value : Json} {state : SessionState} (ready : good state entry) :
    effect.Meets (expand session budget entry .schema path value) state fun after result =>
      Expanded (found after) budget entry path value result := by
  induction budget generalizing entry path value state with
  | zero =>
      rw [expand_eq]
      have follows : Follows effect (fun state => good state entry) (fun _ _ _ _ => False)
          (expand.follow session entry (descent session 0)) := by
        refine ⟨h.keep, fun given _ => given, ?_⟩
        intro node path state ready
        apply follow_meets
        intro ref written
        apply (h.locate ready written).mono
        intro after target _ _ below merged impossible
        cases impossible
      exact walk_meets follows value .schema path state ready
  | succ budget ih =>
      rw [expand_eq]
      have follows : Follows effect (fun state => good state entry)
          (fun state node path result => ∃ target merged,
            found state entry node (entry.location ++ path) target ∧
            Reference.merge target.value node (entry.location ++ path) = .ok merged ∧
            Expanded (found state) budget target.entry target.path merged result)
          (expand.follow session entry (descent session (budget + 1))) := by
        refine ⟨h.keep, ?_, ?_⟩
        · rintro state after node path result ⟨target, merged, denoted, put, rest⟩ done
          exact ⟨target, merged, h.lasting denoted done, put,
            rest.mono fun _ _ _ _ denoted => h.lasting denoted done⟩
        · intro node path state ready
          apply follow_meets
          intro ref written
          apply (h.locate ready written).mono
          rintro middle target - ⟨ready', denoted⟩ below merged eq - put
          cases eq
          have pushed := h.ignoresTrail.done middle (middle.trail.push target.key)
          apply nested_meets h.ignoresTrail
          · rintro after result trail ⟨target, merged, denoted, put, rest⟩
            have retold := h.ignoresTrail.done after trail
            exact ⟨target, merged, h.lasting denoted retold, put,
              rest.mono fun _ _ _ _ denoted => h.lasting denoted retold⟩
          · apply (ih (h.keep ready' pushed)).mono
            intro after result done rest
            exact ⟨target, merged, h.lasting (h.lasting denoted pushed) done, put, rest⟩
      exact walk_meets follows value .schema path state ready

/-- An expansion within the references that are being expanded already. -/
theorem resolveNode_meets (h : Finds effect good found session) {entry : Entry} {node : Json}
    {path : String} {state : SessionState} (ready : good state entry) :
    effect.Meets (session.resolveNode entry node path) state fun after result =>
      Expanded (found after) (session.budget state) entry path node result := by
  apply Effect.Meets.bind
  apply Effect.meets_get
  exact expand_meets h (session.budget state) ready

/-- The run of a root document: the root is opened, and its content is expanded from its path. -/
theorem resolveRoot_meets (h : Finds effect good found session) {document : Document}
    {payload : Json} {state : SessionState}
    (opened : effect.Meets (session.openRoot document payload) state good) :
    effect.Meets (session.resolveRoot document payload) state fun after tree =>
      ∃ root budget, Expanded (found after) budget root "#" (.obj root.data) (.obj tree) := by
  apply Effect.Meets.bind
  apply opened.mono
  intro middle root _ ready
  apply Effect.Meets.bind
  apply (resolveNode_meets h ready).mono
  intro after result _ expanded
  split
  · exact Effect.meets_pure ⟨root, session.budget middle, expanded⟩
  · exact Effect.meets_throw _

end Meets

end Expansion

end SchemaForms
