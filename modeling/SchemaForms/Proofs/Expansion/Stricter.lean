import SchemaForms.Proofs.Expansion.Completes
import SchemaForms.Proofs.Session.Stricter

/-!
# Expansions in stricter sessions

An expansion takes the same steps in a strict session as in a lax one until the strict session stops
it. Two walks are in lockstep if following each of the references is. Where the strict session stops
at its depth and the lax one goes on to succeed, the value does not complete within the budget.
-/

namespace SchemaForms

open Session

namespace Expansion

variable {strict lax : Session} {needs : SessionState → Prop}

section Walk

variable {follow follow' : Follow}

mutual

/-- Two walks are in lockstep if they are so at each reference of the value. -/
theorem walk_lockstep : ∀ (value : Json) (place : Place) (path : String),
    (∀ node ∈ references place path value, ∀ state,
      Lockstep strict lax needs state (follow node.1 node.2) (follow' node.1 node.2)) →
    ∀ state, Lockstep strict lax needs state (walk follow place path value)
      (walk follow' place path value)
  | .obj members, place, path, each => by
      intro state
      cases place with
      | schema =>
          by_cases isReference : Members.has members "$ref" = true
          · simp only [walk, references, if_pos isReference] at each ⊢
            exact each _ (List.mem_singleton_self _) state
          · simp only [walk, references, if_neg isReference] at each ⊢
            exact (walkMembers_lockstep members Place.ofMember path each state).map
      | schemaMap => exact (walkMembers_lockstep members (fun _ => .schema) path each state).map
      | schemaList | data => exact .pure _
  | .arr elements, place, path, each => by
      intro state
      cases place with
      | schema | schemaList => exact (walkElements_lockstep elements path 0 each state).map
      | schemaMap | data => exact .pure _
  | .null, place, _, _ => fun _ => by cases place <;> exact .pure _
  | .bool _, place, _, _ => fun _ => by cases place <;> exact .pure _
  | .int _, place, _, _ => fun _ => by cases place <;> exact .pure _
  | .double _, place, _, _ => fun _ => by cases place <;> exact .pure _
  | .str _, place, _, _ => fun _ => by cases place <;> exact .pure _

theorem walkElements_lockstep : ∀ (elements : List Json) (path : String) (index : Nat),
    (∀ node ∈ referencesOfElements path index elements, ∀ state,
      Lockstep strict lax needs state (follow node.1 node.2) (follow' node.1 node.2)) →
    ∀ state, Lockstep strict lax needs state (walkElements follow path index elements)
      (walkElements follow' path index elements)
  | [], _, _, _ => fun _ => .pure _
  | value :: rest, path, index, each => by
      intro state
      obtain ⟨head, tail⟩ := List.forall_mem_append.mp each
      refine .bind (walk_lockstep value .schema _ head state) fun _ middle _ => ?_
      refine .bind (walkElements_lockstep rest path (index + 1) tail middle) fun _ _ _ => ?_
      exact .pure _

theorem walkMembers_lockstep :
    ∀ (members : List (String × Json)) (placeOf : String → Place) (path : String),
    (∀ node ∈ referencesOfMembers placeOf path members, ∀ state,
      Lockstep strict lax needs state (follow node.1 node.2) (follow' node.1 node.2)) →
    ∀ state, Lockstep strict lax needs state (walkMembers follow placeOf path members)
      (walkMembers follow' placeOf path members)
  | [], _, _, _ => fun _ => .pure _
  | (key, value) :: rest, placeOf, path, each => by
      intro state
      obtain ⟨head, tail⟩ := List.forall_mem_append.mp each
      refine .bind (walk_lockstep value (placeOf key) _ head state) fun _ middle _ => ?_
      refine .bind (walkMembers_lockstep rest placeOf path tail middle) fun _ _ _ => ?_
      exact .pure _

end

end Walk

theorem nested_lockstep {α : Type} {key : String} {step step' : Run α} {state : SessionState}
    (h : Lockstep strict lax needs { state with trail := state.trail.push key } step step') :
    Lockstep strict lax needs state (nested key step) (nested key step') := by
  have ignores := (finds_fetching lax).ignoresTrail
  refine ⟨nested_meets ignores (fun _ => trivial) h.fetches, ?_⟩
  obtain same | ⟨error, stopped, run, bars, shows⟩ := h.agrees
  · exact .inl (by rw [outcome_nested, outcome_nested, same])
  · refine .inr ⟨error, _, by rw [outcome_nested, run], bars, ?_⟩
    intro value after library succeeds later
    obtain ⟨ended, inner, rfl⟩ := nested_eq_ok.mp succeeds
    exact shows value ended library inner
      (lax.fetching.trans (ignores.done ended ended.trail.pop) later)

/-- What two sessions do with a target that they have both found is in lockstep, if its expansions
are. Only the strict one may find that the target is being expanded already. -/
theorem target_lockstep (h : strict.Stricter lax) {node : Members} {ref place : String}
    {target : Target} {below below' : Json → Run Json} {state : SessionState}
    (exceeds : ∀ library, Exceeds strict lax library → needs library)
    (each : ∀ merged, Reference.merge target.value node place = .ok merged →
      Lockstep strict lax needs state (nested target.key (below merged))
        (nested target.key (below' merged))) :
    Lockstep strict lax needs state
      (do
        let now ← get
        if strict.detectsCycles && now.trail.contains target.key then
          throw (.schema (.cycle ref) place)
        let merged ← Reference.merge target.value node place
        nested target.key (below merged))
      (do
        let now ← get
        if lax.detectsCycles && now.trail.contains target.key then
          throw (.schema (.cycle ref) place)
        let merged ← Reference.merge target.value node place
        nested target.key (below' merged)) := by
  refine .bind (.same (Effect.meets_get trivial)) ?_
  rintro _ _ ⟨⟩
  have rest : Lockstep strict lax needs state
      (do
        let merged ← Reference.merge target.value node place
        nested target.key (below merged))
      (do
        let merged ← Reference.merge target.value node place
        nested target.key (below' merged)) := by
    refine .bind (.lift _) ?_
    intro merged middle put
    rw [Run.outcome_lift, Prod.mk.injEq] at put
    obtain ⟨put, rfl⟩ := put
    exact each merged put
  cases isOpen : state.trail.contains target.key with
  | false => simpa only [isOpen, Bool.and_false, Bool.false_eq_true, if_false] using rest
  | true =>
      cases on : strict.detectsCycles with
      | false =>
          have off : lax.detectsCycles = false := by
            cases other : lax.detectsCycles with
            | false => rfl
            | true => rw [← on, h.cycles other]
          simpa only [off, Bool.false_and, Bool.false_eq_true, if_false] using rest
      | true =>
          cases other : lax.detectsCycles with
          | true => exact ⟨Effect.Meets.bind (Effect.meets_throw _), .inl rfl⟩
          | false =>
              refine ⟨by simpa using rest.fetches, .inr ⟨_, state, rfl, .cycle on other, ?_⟩⟩
              exact fun _ _ library _ _ => exceeds library (.cycle on other)

/-- Two expansions are in lockstep, if the strict one has the smaller budget or the same one. -/
theorem expand_lockstep (h : strict.Stricter lax) {budget budget' : Nat} {entry : Entry}
    {path : String} {value : Json} (le : budget ≤ budget')
    (less : budget < budget' → strict.options.maxDepth < lax.options.maxDepth)
    (state : SessionState) :
    Lockstep strict lax (fun library => Exceeds strict lax library ∨
        ¬ Completes (lax.Denotes library) budget entry path value) state
      (expand strict budget entry .schema path value)
      (expand lax budget' entry .schema path value) := by
  induction budget generalizing budget' entry path value state with
  | zero =>
      rw [expand_eq, expand_eq]
      apply walk_lockstep
      intro node mem state
      unfold expand.follow
      refine .bind (.lift _) fun ref _ _ => ?_
      refine .bind ((h.locate entry ref _ _).mono fun _ _ => .inl) fun target found _ => ?_
      have incomplete (library : SessionState) :
          ¬ Completes (lax.Denotes library) 0 entry path value := by
        intro none
        rw [show references .schema path value = [] from none] at mem
        cases mem
      cases budget' with
      | zero =>
          by_cases limit : strict.options.maxDepth < lax.options.maxDepth
          · exact .stop (Effect.meets_throw _) (.depth limit) fun _ _ library _ _ =>
              .inr (incomplete library)
          · have same := Nat.le_antisymm h.depth (Nat.not_lt.mp limit)
            simpa only [descent, same] using Lockstep.throw _
      | succ more =>
          refine .stop ?_ (.depth (less more.succ_pos)) fun _ _ library _ _ =>
            .inr (incomplete library)
          apply Effect.Meets.bind
          apply Effect.meets_get
          split
          · exact Effect.Meets.bind (Effect.meets_throw _)
          · apply Effect.Meets.bind
            apply Effect.meets_lift
            intro merged _
            have finds := finds_fetching lax
            exact nested_meets finds.ignoresTrail (fun _ => trivial)
              ((expand_meets finds more trivial).mono fun _ _ _ _ => trivial)
  | succ budget ih =>
      obtain ⟨more, rfl⟩ : ∃ more, budget' = more + 1 := ⟨budget' - 1, by omega⟩
      rw [expand_eq, expand_eq]
      apply walk_lockstep
      intro node mem state
      unfold expand.follow
      refine .bind (.lift _) ?_
      intro ref middle written
      rw [Run.outcome_lift, Prod.mk.injEq] at written
      obtain ⟨written, rfl⟩ := written
      refine .bind ((h.locate entry ref _ state).mono fun _ _ => .inl) ?_
      intro target found located
      refine target_lockstep h (fun _ => .inl) ?_
      intro merged put
      apply nested_lockstep
      apply (ih (by omega) (fun lt => less (by omega)) _).mono
      intro library later
      -- What has been found is found in the library, so the value completes no sooner than this.
      refine Or.imp_right fun incomplete completes => incomplete ?_
      have ignores := (finds_fetching lax).ignoresTrail
      have grows := grows_of_fetching (lax.fetching.trans (ignores.done found _) later)
      have denotes : lax.Denotes library entry node.1 (entry.location ++ node.2) target :=
        ⟨ref, written, locate_again located grows⟩
      obtain ⟨target', merged', denotes', put', rest⟩ := completes node mem
      obtain rfl := denotes.unique denotes'
      obtain rfl := Except.ok.inj (put.symm.trans put')
      exact rest

end Expansion

namespace Session

variable {strict lax : Session} {document : Document} {payload : Json}

/-- What a run of the strict session would have to do and may not, if the lax one has come to a
tree: the root document is too large, or something that has been read is too much, or references are
nested too deep. -/
inductive Forbids (strict lax : Session) (document : Document) (payload : Json)
    (library : SessionState) : Prop
  | root (more : strict.options.maxDocumentSize < document.size)
  | read (exceeds : Exceeds strict lax library)
  | deep {root : Entry} (opens : lax.Opens document payload root)
      (incomplete : ¬ Expansion.Completes (lax.Denotes library) strict.options.maxDepth root "#"
        payload)

/-- What is left of a run once the root has been opened. -/
theorem Stricter.resolveNode (h : strict.Stricter lax) (entry : Entry) (node : Json) (path : String)
    (state : SessionState) :
    Lockstep strict lax (fun library => Exceeds strict lax library ∨
        ¬ Expansion.Completes (lax.Denotes library) (strict.budget state) entry path node) state
      (strict.resolveNode entry node path) (lax.resolveNode entry node path) := by
  refine .bind (.same (Effect.meets_get trivial)) ?_
  rintro _ _ ⟨⟩
  apply Expansion.expand_lockstep h (Nat.sub_le_sub_right h.depth _)
  intro less
  have bound : strict.options.maxDepth - state.trail.depth <
    lax.options.maxDepth - state.trail.depth := less
  omega

/-- The strict session comes to the same as the lax one, or stops with an error of its own; in that
case the lax one comes to a tree only by what is forbidden. -/
theorem Stricter.runRoot (h : strict.Stricter lax) (document : Document) (payload : Json) :
    strict.runRoot document payload = lax.runRoot document payload ∨
      ∃ error, (strict.runRoot document payload).1 = .error error ∧ strict.Bars lax error ∧
        ∀ tree, (lax.runRoot document payload).1 = .ok tree →
          Forbids strict lax document payload (lax.runRoot document payload).2 := by
  have runs (session : Session) : session.runRoot document payload =
      (session.resolveRoot document payload).outcome {} := rfl
  simp only [runs, Session.resolveRoot, Run.outcome_bind]
  obtain same | ⟨error, large, bars, more⟩ := h.openRoot document payload
  · rw [same]
    obtain ⟨error, failed⟩ | ⟨root, opens, opened⟩ := lax.openRoot_ends document payload
    · rw [failed]
      exact .inl rfl
    · simp only [opened, ← opens.held]
      obtain same | ⟨error, stopped, run, bars, shows⟩ :=
        (h.resolveNode root payload "#" (.opened root)).agrees
      · rw [same]
        exact .inl rfl
      · rw [run]
        refine .inr ⟨error, rfl, bars, ?_⟩
        intro tree ended
        cases succeeds : (lax.resolveNode root payload "#").outcome (.opened root) with
        | mk result after =>
            rw [succeeds] at ended
            cases result with
            | error fault => cases ended
            | ok value =>
                cases value with
                | obj members =>
                    obtain exceeds | incomplete :=
                      shows _ after after succeeds (lax.fetching.refl _)
                    · exact .read exceeds
                    · exact .deep opens incomplete
                | _ => cases ended
  · rw [large]
    exact .inr ⟨error, rfl, bars, fun _ _ => .root more⟩

end Session

end SchemaForms
