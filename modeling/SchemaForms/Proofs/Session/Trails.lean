import SchemaForms.Proofs.Expansion.Frames

/-!
# References that are being expanded

A session that checks for cycles pushes a key only if it is not there yet, and pops it when the
target has been expanded. So the keys are distinct, and an expansion leaves them as it has found
them, whether it succeeds or fails. In a frame they are the same whenever a reference is followed.

What a session reads, on the other hand, only grows, whether an expansion succeeds or fails: all
that has been read in a frame is there when the frame ends, and when those around it end.
-/

namespace SchemaForms

namespace Trail

theorem sound_empty : Sound {} :=
  ⟨List.nodup_nil, fun _ => Iff.rfl⟩

@[simp] theorem depth_push (trail : Trail) (key : String) :
    (trail.push key).depth = trail.depth + 1 := rfl

/-- The keys stay distinct if a new one is pushed. -/
theorem Sound.push {trail : Trail} {key : String} (h : trail.Sound)
    (new : trail.contains key = false) : (trail.push key).Sound := by
  have unopened : key ∉ trail.opened := by simpa [contains] using new
  refine ⟨List.nodup_cons.mpr ⟨fun mem => unopened ((h.2 key).mpr mem), h.1⟩, ?_⟩
  intro other
  rw [Trail.push, if_neg (by simpa using unopened)]
  simp only [List.mem_cons, h.2 other]

end Trail

namespace Session

/-- The effect of steps that leave the references being expanded as they were. -/
def restoring : Effect where
  done before after := after.trail = before.trail
  failed before after := after.trail = before.trail
  refl _ := rfl
  trans first second := second.trans first
  stop _ := rfl
  after first second := second.trans first

/-- Whatever such a step comes to, the references being expanded are those from before. -/
theorem trail_of_restoring {α : Type} {step : Run α} {state : SessionState}
    {post : SessionState → α → Prop} (h : restoring.Meets step state post) :
    (step.outcome state).2.trail = state.trail := by
  cases run : step.outcome state with
  | mk result after =>
      cases result with
      | ok value => exact (h.ok run).1
      | error error => exact h.error run

end Session

namespace Expansion

open Session

variable {session : Session}

theorem locate_restores (entry : Entry) (ref place : String) (state : SessionState) :
    restoring.Meets (session.locate entry ref place) state fun _ _ => True :=
  Effect.meets_of_outcome (fun _ _ run => ⟨trail_of_locate run, trivial⟩)
    fun _ _ run => trail_of_locate run

/-- A step below a reference that is not being expanded yet leaves the references being expanded as
they were, if it does so with this one among them. -/
theorem nested_restores {α : Type} {key : String} {step : Run α} {state : SessionState}
    (new : state.trail.contains key = false)
    (inner : restoring.Meets step { state with trail := state.trail.push key } fun _ _ => True) :
    restoring.Meets (nested key step) state fun _ _ => True := by
  have popped {after : SessionState} (kept : after.trail = state.trail.push key) :
      after.trail.pop = state.trail := by rw [kept, Trail.pop_push new]
  apply Effect.meets_of_outcome
  · intro value after run
    obtain ⟨ended, done, rfl⟩ := nested_eq_ok.mp run
    exact ⟨popped (inner.ok done).1, trivial⟩
  · intro error after run
    rw [outcome_nested] at run
    obtain ⟨failed, rfl⟩ := Prod.mk.inj run
    exact popped (inner.error (Prod.ext failed rfl))

/-- What a reference leads to leaves the references being expanded as they were, if its expansion
does so. -/
theorem follow_restores (checks : session.detectsCycles = true) {budget : Nat} {entry : Entry}
    (below : ∀ less entry path value state, budget = less + 1 →
      restoring.Meets (expand session less entry .schema path value) state fun _ _ => True)
    (node : Members) (path : String) (state : SessionState) :
    restoring.Meets (expand.follow session entry (descent session budget) node path) state
      fun _ _ => True := by
  apply follow_meets
  intro ref _
  apply (locate_restores entry ref _ state).mono
  intro middle target _ _ descend merged allowed passes _
  rw [checks, Bool.true_and] at passes
  cases budget with
  | zero => cases allowed
  | succ less =>
      cases allowed
      exact nested_restores passes (below less target.entry target.path merged _ rfl)

/-- A session that checks for cycles restores the references being expanded. -/
theorem expand_restores (checks : session.detectsCycles = true) (budget : Nat) (entry : Entry)
    (path : String) (value : Json) (state : SessionState) :
    restoring.Meets (expand session budget entry .schema path value) state fun _ _ => True := by
  induction budget using Nat.strongRecOn generalizing entry path value state with
  | ind budget ih =>
      rw [expand_eq]
      have follows : Follows restoring (fun _ => True) (fun _ _ _ _ => True)
          (expand.follow session entry (descent session budget)) := by
        refine ⟨fun _ _ => trivial, fun _ _ => trivial, ?_⟩
        intro node path state _
        apply follow_restores checks
        rintro less entry path value state rfl
        exact ih less less.lt_succ_self entry path value state
      exact (walk_meets follows value .schema path state trivial).mono fun _ _ _ _ => trivial

namespace Frame

variable {frame inner : Frame} {node : Members × String}
variable {earlier later : List (Members × String)} {state : SessionState}

/-- Following a reference of a frame leaves the references being expanded as they were. -/
theorem follow_trail (checks : session.detectsCycles = true) (frame : Frame)
    (node : Members × String) (state : SessionState) :
    restoring.Meets (frame.follow session node) state fun _ _ => True :=
  follow_restores checks
    (fun less entry path value state _ => expand_restores checks less entry path value state)
    node.1 node.2 state

/-- Wherever a frame stands, the references being expanded are those with which it began. -/
theorem Passes.trail (checks : session.detectsCycles = true)
    (h : frame.Passes session earlier later state) : state.trail = frame.state.trail :=
  ((followAll_meets (follow_trail checks frame) frame.state).ok h.followed).1

/-- A frame that a reference leads to begins with one key more, a new one, and may nest one reference
less. -/
theorem Enters.pushes (checks : session.detectsCycles = true)
    (passes : frame.Passes session earlier later state)
    (enters : frame.Enters session node state inner) :
    ∃ key, frame.state.trail.contains key = false ∧
      inner.state.trail = frame.state.trail.push key ∧ frame.budget = inner.budget + 1 := by
  have stands := passes.trail checks
  obtain ⟨budget, -, located, new, -⟩ := enters
  have same := (trail_of_locate located).trans stands
  rw [checks, Bool.true_and, same] at new
  refine ⟨_, new, ?_, budget⟩
  simp only [same]

/-- The references being expanded when a frame begins have distinct keys, and together with those that
it may still nest they are as many as the limit allows. -/
structure Balanced (session : Session) (frame : Frame) : Prop where
  sound : frame.state.trail.Sound
  budget : frame.state.trail.depth + frame.budget = session.options.maxDepth

theorem Balanced.enters (checks : session.detectsCycles = true) (h : frame.Balanced session)
    (passes : frame.Passes session earlier later state)
    (enters : frame.Enters session node state inner) : inner.Balanced session := by
  obtain ⟨key, new, pushed, less⟩ := enters.pushes checks passes
  have total := h.budget
  refine ⟨?_, ?_⟩
  · rw [pushed]
    exact h.sound.push new
  · rw [pushed, Trail.depth_push]
    omega

theorem Balanced.inside (checks : session.detectsCycles = true) {start : Frame}
    (h : start.Balanced session) (inside : Inside session start frame) : frame.Balanced session := by
  induction inside with
  | start => exact h
  | enters _ passes enters ih => exact ih.enters checks passes enters

theorem Balanced.depth_le (h : frame.Balanced session) :
    frame.state.trail.depth ≤ session.options.maxDepth := by
  have total := h.budget
  omega

theorem fetches (session : Session) (frame : Frame) :
    session.fetching.Meets (expand session frame.budget frame.entry .schema frame.path frame.value)
      frame.state fun _ _ => True :=
  (expand_meets (finds_fetching session) frame.budget trivial).mono fun _ _ _ _ => trivial

theorem followAll_fetches (session : Session) (frame : Frame) (nodes : List (Members × String))
    (state : SessionState) :
    session.fetching.Meets (followAll (frame.follow session) nodes) state fun _ _ => True := by
  apply followAll_meets
  intro node state
  exact (follows_fetching session frame.budget frame.entry).meets node.1 node.2 state trivial

/-- What there is when a frame ends is there when the frame around it ends. -/
theorem Enters.grows (enters : frame.Enters session node state inner)
    (passes : frame.Passes session earlier (node :: later) state) :
    SessionState.Grows (inner.outcome session).2 (frame.outcome session).2 := by
  have ended := congrArg Prod.snd (outcome_references session frame)
  rw [passes.split, followAll_append, Run.outcome_bind, passes.followed] at ended
  simp only [followAll, Run.outcome_bind, enters.outcome] at ended
  rw [← ended]
  cases run : inner.outcome session with
  | mk result last =>
      cases result with
      | error error => exact ⟨List.prefix_refl _, rfl⟩
      | ok value =>
          have grows := grows_of_meets (followAll_fetches session frame later
            { last with trail := last.trail.pop })
          exact ⟨grows.cache, grows.root⟩

end Frame

end Expansion

end SchemaForms
