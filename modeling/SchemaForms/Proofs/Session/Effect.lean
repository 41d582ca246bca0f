import SchemaForms.Reference.Session

/-!
# Effects of session steps

A step of a session ends in a value or an error, and in either case in a state. An effect relates
the states before and after: one relation for steps that succeed, one for steps that fail. Both are
closed under doing one step after another, so an effect proved for the few steps that touch the
session holds of every run made of them.

`Effect.Meets` adds a postcondition on the value. Its rules follow the structure of a step; a proof
that uses them speaks of outcomes, never of how a step is put together.
-/

namespace SchemaForms

/-- A computation that may fail gives a value just if both of its parts do. -/
theorem except_bind_eq_ok {ε α β : Type} {first : Except ε α} {next : α → Except ε β} {result : β} :
    (first >>= next) = .ok result ↔ ∃ value, first = .ok value ∧ next value = .ok result := by
  cases first with
  | error fault => simp [bind, Except.bind]
  | ok value => simp [bind, Except.bind]

theorem except_map_eq_ok {ε α β : Type} {f : α → β} {first : Except ε α} {result : β} :
    first.map f = .ok result ↔ ∃ value, first = .ok value ∧ f value = result := by
  cases first <;> simp [Except.map]

theorem except_mapError_eq_ok {ε δ α : Type} {f : ε → δ} {result : Except ε α} {value : α} :
    result.mapError f = .ok value ↔ result = .ok value := by
  cases result with
  | error fault =>
      constructor
      · intro impossible
        cases impossible
      · intro impossible
        cases impossible
  | ok other =>
      constructor
      · intro same
        rw [Except.ok.inj same]
      · intro same
        rw [Except.ok.inj same]
        rfl

theorem except_mapError_eq_error {ε δ α : Type} {f : ε → δ} {result : Except ε α} {error : δ} :
    result.mapError f = .error error ↔ ∃ fault, result = .error fault ∧ f fault = error := by
  cases result with
  | error fault =>
      constructor
      · intro same
        exact ⟨fault, rfl, Except.error.inj same⟩
      · rintro ⟨_, ⟨⟩, rfl⟩
        rfl
  | ok value =>
      constructor
      · intro impossible
        cases impossible
      · rintro ⟨_, impossible, -⟩
        cases impossible

theorem eq_ok_of_toOption {ε α : Type} {result : Except ε α} {value : α}
    (h : result.toOption = some value) : result = .ok value := by
  cases result with
  | error fault => cases h
  | ok other => rw [Option.some.inj h]

variable {α β : Type}

namespace Run

def outcome (step : Run α) (state : SessionState) : Except Error α × SessionState :=
  step.run.run state

@[simp] theorem outcome_pure (value : α) (state : SessionState) :
    outcome (pure value) state = (.ok value, state) := rfl

@[simp] theorem outcome_throw (error : Error) (state : SessionState) :
    outcome (throw error : Run α) state = (.error error, state) := rfl

@[simp] theorem outcome_get (state : SessionState) :
    outcome get state = (.ok state, state) := rfl

@[simp] theorem outcome_lift (result : Except Error α) (state : SessionState) :
    outcome (liftM result) state = (result, state) := rfl

/-- A step that fails ends the run; after any other the run goes on in the state that it leaves. -/
theorem outcome_bind (step : Run α) (next : α → Run β) (state : SessionState) :
    outcome (step >>= next) state =
      match outcome step state with
      | (.ok value, after) => outcome (next value) after
      | (.error error, after) => (.error error, after) := by
  unfold outcome
  rw [ExceptT.run_bind, StateT.run_bind]
  obtain ⟨result, after⟩ := step.run.run state
  cases result <;> rfl

theorem outcome_map (f : α → β) (step : Run α) (state : SessionState) :
    outcome (f <$> step) state = ((outcome step state).1.map f, (outcome step state).2) := by
  unfold outcome
  rw [ExceptT.run_map, StateT.run_map]
  obtain ⟨result, after⟩ := step.run.run state
  cases result <;> rfl

/-- A run that succeeds consists of a step that succeeds and a rest that succeeds. -/
theorem outcome_bind_eq_ok {step : Run α} {next : α → Run β} {state after : SessionState}
    {result : β} :
    outcome (step >>= next) state = (.ok result, after) ↔
      ∃ value middle, outcome step state = (.ok value, middle) ∧
        outcome (next value) middle = (.ok result, after) := by
  rw [outcome_bind]
  constructor
  · intro h
    split at h
    · rename_i value middle first
      exact ⟨value, middle, first, h⟩
    · simp at h
  · rintro ⟨value, middle, first, rest⟩
    simp only [first, rest]

/-- A run that fails does so at its first step or behind it. -/
theorem outcome_bind_eq_error {step : Run α} {next : α → Run β} {state after : SessionState}
    {error : Error} :
    outcome (step >>= next) state = (.error error, after) ↔
      outcome step state = (.error error, after) ∨
        ∃ value middle, outcome step state = (.ok value, middle) ∧
          outcome (next value) middle = (.error error, after) := by
  rw [outcome_bind]
  cases outcome step state with
  | mk result middle =>
      cases result with
      | error fault => simp
      | ok value =>
          constructor
          · intro run
            exact .inr ⟨value, middle, rfl, run⟩
          · rintro (impossible | ⟨_, _, same, run⟩)
            · cases impossible
            · cases same
              exact run

theorem outcome_throw_eq_error {error fault : Error} {state after : SessionState} :
    outcome (throw fault : Run α) state = (.error error, after) ↔ fault = error ∧ state = after := by
  rw [outcome_throw, Prod.mk.injEq, Except.error.injEq]

/-- To look at the state is no step. -/
theorem outcome_get_bind_eq_ok {next : SessionState → Run β} {state after : SessionState}
    {result : β} :
    outcome (get >>= next) state = (.ok result, after) ↔
      outcome (next state) state = (.ok result, after) := by
  rw [outcome_bind, outcome_get]

/-- Nor is a computation that does not look at it. -/
theorem outcome_lift_bind_eq_ok {first : Except Error α} {next : α → Run β}
    {state after : SessionState} {result : β} :
    outcome (liftM first >>= next) state = (.ok result, after) ↔
      ∃ value, first = .ok value ∧ outcome (next value) state = (.ok result, after) := by
  rw [outcome_bind, outcome_lift]
  cases first with
  | ok value => simp
  | error fault => simp

theorem outcome_get_bind_eq_error {next : SessionState → Run β} {state after : SessionState}
    {error : Error} :
    outcome (get >>= next) state = (.error error, after) ↔
      outcome (next state) state = (.error error, after) := by
  rw [outcome_bind, outcome_get]

theorem outcome_lift_bind_eq_error {first : Except Error α} {next : α → Run β}
    {state after : SessionState} {error : Error} :
    outcome (liftM first >>= next) state = (.error error, after) ↔
      (first = .error error ∧ state = after) ∨
        ∃ value, first = .ok value ∧ outcome (next value) state = (.error error, after) := by
  rw [outcome_bind, outcome_lift]
  cases first <;> simp

theorem outcome_map_eq_ok {f : α → β} {step : Run α} {state after : SessionState} {result : β} :
    outcome (f <$> step) state = (.ok result, after) ↔
      ∃ value, outcome step state = (.ok value, after) ∧ f value = result := by
  rw [outcome_map]
  obtain ⟨ended, left⟩ := outcome step state
  cases ended with
  | ok value => simp [Except.map, and_comm, and_left_comm]
  | error => simp [Except.map]

end Run

/-- What a step may do to a session: how the states before and after it are related if it succeeds,
and how if it fails. -/
structure Effect where
  done : SessionState → SessionState → Prop
  failed : SessionState → SessionState → Prop
  refl : ∀ state, done state state
  trans : ∀ {first second third}, done first second → done second third → done first third
  stop : ∀ state, failed state state
  after : ∀ {first second third}, done first second → failed second third → failed first third

namespace Effect

variable {effect : Effect} {step : Run α} {state : SessionState}
variable {post post' : SessionState → α → Prop}

/-- The effect of keeping an invariant, whether a step succeeds or fails. -/
def keeping (invariant : SessionState → Prop) : Effect where
  done before after := invariant before → invariant after
  failed before after := invariant before → invariant after
  refl _ := id
  trans first second := second ∘ first
  stop _ := id
  after first second := second ∘ first

/-- The effect allows what a step has come to in the given state, and if that is a value, the value
and the state behind it satisfy the postcondition. -/
def Allows (effect : Effect) (state : SessionState) (post : SessionState → α → Prop) :
    Except Error α × SessionState → Prop
  | (.ok value, after) => effect.done state after ∧ post after value
  | (.error _, after) => effect.failed state after

/-- In the given state the step has the effect and establishes the postcondition. -/
def Meets (effect : Effect) (step : Run α) (state : SessionState)
    (post : SessionState → α → Prop) : Prop :=
  effect.Allows state post (step.outcome state)

theorem meets_of_allows (h : effect.Allows state post (step.outcome state)) :
    effect.Meets step state post := h

theorem Meets.ok {after : SessionState} {value : α} (h : effect.Meets step state post)
    (run : step.outcome state = (.ok value, after)) :
    effect.done state after ∧ post after value := by
  rw [Meets, run] at h
  exact h

theorem Meets.error {after : SessionState} {error : Error} (h : effect.Meets step state post)
    (run : step.outcome state = (.error error, after)) : effect.failed state after := by
  rw [Meets, run] at h
  exact h

/-- Prove the two cases of an outcome apart. -/
theorem meets_of_outcome
    (ok : ∀ value after, step.outcome state = (.ok value, after) →
      effect.done state after ∧ post after value)
    (error : ∀ error after, step.outcome state = (.error error, after) →
      effect.failed state after) : effect.Meets step state post := by
  rw [Meets]
  cases run : step.outcome state with
  | mk ended after =>
      cases ended with
      | ok value => exact ok value after run
      | error fault => exact error fault after run

/-- The postcondition may be weakened; that the step has had its effect is known then. -/
theorem Meets.mono (h : effect.Meets step state post)
    (imp : ∀ after value, effect.done state after → post after value → post' after value) :
    effect.Meets step state post' := by
  apply meets_of_outcome
  · intro value after run
    obtain ⟨done, holds⟩ := h.ok run
    exact ⟨done, imp after value done holds⟩
  · intro error after run
    exact h.error run

theorem meets_pure {value : α} (h : post state value) :
    effect.Meets (pure value) state post :=
  ⟨effect.refl state, h⟩

theorem meets_throw (error : Error) : effect.Meets (throw error : Run α) state post :=
  effect.stop state

theorem meets_lift {result : Except Error α} (h : ∀ value, result = .ok value → post state value) :
    effect.Meets (liftM result) state post := by
  cases result with
  | ok value => exact ⟨effect.refl state, h value rfl⟩
  | error => exact effect.stop state

theorem meets_get {post : SessionState → SessionState → Prop} (h : post state state) :
    effect.Meets get state post :=
  ⟨effect.refl state, h⟩

/-- One step after another: what is left to do is proved in the state that the first step leaves,
with the effect counted from the beginning. -/
theorem Meets.bind {next : α → Run β} {post : SessionState → β → Prop}
    (h : effect.Meets step state fun after value => effect.Meets (next value) after post) :
    effect.Meets (step >>= next) state post := by
  apply meets_of_outcome
  · intro result after run
    obtain ⟨value, middle, first, rest⟩ := Run.outcome_bind_eq_ok.mp run
    obtain ⟨done, holds⟩ := h.ok first
    obtain ⟨done', holds'⟩ := holds.ok rest
    exact ⟨effect.trans done done', holds'⟩
  · intro error after run
    rw [Run.outcome_bind] at run
    split at run
    · rename_i value middle first
      obtain ⟨done, holds⟩ := h.ok first
      exact effect.after done (holds.error run)
    · rename_i fault middle first
      obtain ⟨_, rfl⟩ := Prod.mk.inj run
      exact h.error first

theorem Meets.map {f : α → β} {post : SessionState → β → Prop}
    (h : effect.Meets step state fun after value => post after (f value)) :
    effect.Meets (f <$> step) state post := by
  apply meets_of_outcome
  · intro result after run
    obtain ⟨value, first, rfl⟩ := Run.outcome_map_eq_ok.mp run
    exact h.ok first
  · intro error after run
    rw [Run.outcome_map] at run
    cases first : step.outcome state with
    | mk ended middle =>
        rw [first] at run
        cases ended with
        | ok => simp [Except.map] at run
        | error fault =>
            obtain ⟨_, rfl⟩ := Prod.mk.inj run
            exact h.error first

/-- A step that keeps an invariant ends in a state where it holds, with a value or without. -/
theorem Meets.kept {invariant : SessionState → Prop} (h : (keeping invariant).Meets step state post)
    (start : invariant state) : invariant (step.outcome state).2 := by
  cases run : step.outcome state with
  | mk ended after =>
      cases ended with
      | ok value => exact (h.ok run).1 start
      | error fault => exact h.error run start

-- From here on a step is taken apart by the rules, not by running it.
attribute [irreducible] Meets

end Effect

end SchemaForms
