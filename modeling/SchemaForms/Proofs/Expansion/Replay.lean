import SchemaForms.Proofs.Session.RefObjects
import SchemaForms.Proofs.Session.Trails

/-!
# Expanding a value again

An expansion that has succeeded can be repeated at any later time: all that it has read is there, so
repeating it reads nothing and comes to the same. Neither the path at which the value stands matters
nor, beyond the cycle check, what is being expanded around it. It is enough that nothing is open
which was not open then, and that the budget is not smaller.

`Replays` says this of one value. Along the walk it has to be known of each reference when it is
followed, and still at the end, so it speaks of all later states; `Session.reading` is the effect
under which it lasts.
-/

namespace SchemaForms

namespace Trail

/-- Every reference that is being expanded on the trail is being expanded on the other one too. -/
def Within (trail outer : Trail) : Prop :=
  ∀ key, trail.contains key = true → outer.contains key = true

variable {trail outer : Trail} {key other : String}

theorem contains_push : (trail.push key).contains other = true ↔
    other = key ∨ trail.contains other = true := by
  simp only [contains, push, List.contains_iff_mem]
  split
  · rename_i open'
    constructor
    · exact .inr
    · rintro (rfl | mem)
      · exact open'
      · exact mem
  · exact List.mem_cons

theorem Within.refl (trail : Trail) : trail.Within trail := fun _ => id

theorem Within.push (within : trail.Within outer) (key : String) :
    (trail.push key).Within (outer.push key) := by
  intro other mem
  exact contains_push.mpr ((contains_push.mp mem).imp_right (within other))

theorem within_push (trail : Trail) (key : String) : trail.Within (trail.push key) :=
  fun _ mem => contains_push.mpr (.inr mem)

/-- What is not open on the outer trail is not open on the inner one. -/
theorem Within.unopened (within : trail.Within outer) (h : outer.contains key = false) :
    trail.contains key = false := by
  rw [Bool.eq_false_iff] at h ⊢
  exact fun opened => h (within key opened)

end Trail

namespace Session

/-- The effect of steps that, if they succeed, lose nothing that has been read and leave the
references being expanded as they were. -/
def reading : Effect where
  done before after := SessionState.Grows before after ∧ after.trail = before.trail
  failed _ _ := True
  refl state := ⟨.refl state, rfl⟩
  trans first second := ⟨first.1.trans second.1, second.2.trans first.2⟩
  stop _ := trivial
  after _ _ := trivial

end Session

namespace Expansion

open Session

mutual

/-- A value that has been walked over is walked over again with the same result, at any path, if
each reference on the way comes to the same again and does nothing. -/
theorem walk_of_walked {again : Follow} {state : SessionState} :
    ∀ {place : Place} {path : String} {value result : Json},
      Walked (fun node _ result => ∀ path, (again node path).outcome state = (.ok result, state))
          place path value result →
        ∀ path, (walk again place path value).outcome state = (.ok result, state)
  | _, _, _, _, .kept keeps, path => by rw [walk_of_keeps keeps, Run.outcome_pure]
  | _, _, _, _, .reference has followed, path => by
      simp only [walk, if_pos has]
      exact followed path
  | _, _, _, _, .schema hasNot walked, path => by
      simp only [walk, hasNot, Bool.false_eq_true, if_false]
      exact Run.outcome_map_eq_ok.mpr ⟨_, walkMembers_of_walked walked path, rfl⟩
  | _, _, _, _, .schemaMap walked, path =>
      Run.outcome_map_eq_ok.mpr ⟨_, walkMembers_of_walked walked path, rfl⟩
  | _, _, _, _, .elements (.inl rfl) walked, path =>
      Run.outcome_map_eq_ok.mpr ⟨_, walkElements_of_walked walked path 0, rfl⟩
  | _, _, _, _, .elements (.inr rfl) walked, path =>
      Run.outcome_map_eq_ok.mpr ⟨_, walkElements_of_walked walked path 0, rfl⟩

theorem walkElements_of_walked {again : Follow} {state : SessionState} :
    ∀ {path : String} {index : Nat} {values results : List Json},
      WalkedElements (fun node _ result => ∀ path,
          (again node path).outcome state = (.ok result, state)) path index values results →
        ∀ path index, (walkElements again path index values).outcome state = (.ok results, state)
  | _, _, _, _, .nil, _, _ => rfl
  | _, _, _, _, .cons head tail, path, index =>
      Run.outcome_bind_eq_ok.mpr ⟨_, state, walk_of_walked head _,
        Run.outcome_bind_eq_ok.mpr ⟨_, state, walkElements_of_walked tail path (index + 1), rfl⟩⟩

theorem walkMembers_of_walked {again : Follow} {state : SessionState} :
    ∀ {placeOf : String → Place} {path : String} {values results : Members},
      WalkedMembers (fun node _ result => ∀ path,
          (again node path).outcome state = (.ok result, state)) placeOf path values results →
        ∀ path, (walkMembers again placeOf path values).outcome state = (.ok results, state)
  | _, _, _, _, .nil, _ => rfl
  | _, _, _, _, .cons head tail, path =>
      Run.outcome_bind_eq_ok.mpr ⟨_, state, walk_of_walked head _,
        Run.outcome_bind_eq_ok.mpr ⟨_, state, walkMembers_of_walked tail path, rfl⟩⟩

end

variable {session : Session} {entry : Entry} {budget : Nat}

/-- In any later state in which no more references are being expanded, a step with at least the
budget gives the result, at any path, and does nothing. -/
def Repeats (step : Nat → String → Run Json) (budget : Nat) (state : SessionState)
    (result : Json) : Prop :=
  ∀ later more path, SessionState.Grows state later → later.trail.Within state.trail →
    budget ≤ more → (step more path).outcome later = (.ok result, later)

/-- What can be repeated can still be repeated later. -/
theorem Repeats.later {step : Nat → String → Run Json} {state after : SessionState} {result : Json}
    (repeats : Repeats step budget state result) (done : reading.done state after) :
    Repeats step budget after result := by
  obtain ⟨grows, trail⟩ := done
  intro later more path grows' within
  rw [trail] at within
  exact repeats later more path (grows.trans grows') within

/-- The value can be expanded again. -/
def Replays (session : Session) (entry : Entry) (value : Json) : Nat → SessionState → Json → Prop :=
  Repeats fun budget path => expand session budget entry .schema path value

/-- A reference that has been followed can be followed again, if what it leads to can be expanded
again. -/
theorem follow_repeats (checks : session.detectsCycles = true)
    (below : ∀ less entry path value state, budget = less + 1 →
      reading.Meets (expand session less entry .schema path value) state
        (Replays session entry value less))
    (node : Members) (path : String) (state : SessionState) :
    reading.Meets (expand.follow session entry (descent session budget) node path) state
      (Repeats (fun budget path => expand.follow session entry (descent session budget) node path)
        budget) := by
  apply Effect.meets_of_outcome
  · intro result after run
    have done : reading.done state after := by
      have fetches := (follows_fetching session budget entry).meets node path state trivial
      have restores : restoring.Meets
          (expand.follow session entry (descent session budget) node path) state fun _ _ => True :=
        follow_restores checks (fun less entry path value state _ =>
          expand_restores checks less entry path value state) node path state
      exact ⟨grows_of_fetching (fetches.ok run).1, (restores.ok run).1⟩
    refine ⟨done, ?_⟩
    obtain ⟨ref, target, middle, _, merged, written, located, allowed, passes, put, run⟩ :=
      follow_eq_ok.mp run
    cases budget with
    | zero => cases allowed
    | succ less =>
        cases allowed
        obtain ⟨ended, inner, rfl⟩ := nested_eq_ok.mp run
        obtain ⟨⟨grown, opened⟩, replays⟩ := (below less _ _ _ _ rfl).ok inner
        have grown : SessionState.Grows middle ended := ⟨grown.cache, grown.root⟩
        have opened : ended.trail = middle.trail.push target.key := opened
        have stays : ended.trail.pop = middle.trail := done.2.trans (trail_of_locate located).symm
        rw [checks, Bool.true_and] at passes
        intro later more path' grows within enough
        have grows : SessionState.Grows ended later := ⟨grows.cache, grows.root⟩
        have within : later.trail.Within middle.trail := stays ▸ within
        have fresh := within.unopened passes
        obtain ⟨more, rfl⟩ : ∃ rest, more = rest + 1 := ⟨more - 1, by omega⟩
        refine follow_eq_ok.mpr ⟨ref, target, later, _, merged, ?_, ?_, rfl, ?_, ?_, ?_⟩
        · exact ok_of_toOption_eq (toOption_refText _ _ node) written
        · exact locate_again (locate_place _ located) (grown.trans grows)
        · rw [checks, Bool.true_and, fresh]
        · exact ok_of_toOption_eq (toOption_merge _ _ target.value node) put
        · have inner := replays { later with trail := later.trail.push target.key } more target.path
            ⟨grows.cache, grows.root⟩ (opened ▸ within.push target.key) (by omega)
          refine nested_eq_ok.mpr ⟨_, inner, ?_⟩
          rw [Trail.pop_push fresh]
  · intro error after _
    trivial

theorem expand_replays (checks : session.detectsCycles = true) (budget : Nat) (entry : Entry)
    (path : String) (value : Json) (state : SessionState) :
    reading.Meets (expand session budget entry .schema path value) state
      (Replays session entry value budget) := by
  induction budget using Nat.strongRecOn generalizing entry path value state with
  | ind budget ih =>
      rw [expand_eq]
      have follows : Follows reading (fun _ => True)
          (fun state node _ result => Repeats
            (fun budget path => expand.follow session entry (descent session budget) node path)
            budget state result)
          (expand.follow session entry (descent session budget)) := by
        refine ⟨fun _ _ => trivial, fun repeats done => repeats.later done, ?_⟩
        intro node path state _
        apply follow_repeats checks
        rintro less entry path value state rfl
        exact ih less less.lt_succ_self entry path value state
      apply (walk_meets follows value .schema path state trivial).mono
      intro after result _ walked later more path' grows within enough
      show (expand session more entry .schema path' value).outcome later = (.ok result, later)
      rw [expand_eq]
      apply walk_of_walked
      apply walked.mono
      intro node _ result repeats path
      exact repeats later more path grows within enough

end Expansion

end SchemaForms
