import SchemaForms.Proofs.Expansion.Expanded

/-!
# The references of a value

`references` lists the objects with references that a walk over a value comes to. What a walk does
beside following them is the same for all walks, so two walks can be told to agree by looking at
these objects only: `walk_again` carries one successful walk over to another way of following.
-/

namespace SchemaForms.Expansion

mutual

/-- The objects with references that a walk over a value comes to, in order, with their paths. -/
def references (place : Place) (path : String) : Json → List (Members × String)
  | .obj members =>
    match place with
    | .schema =>
      if Members.has members "$ref" then [(members, path)]
      else referencesOfMembers Place.ofMember path members
    | .schemaMap => referencesOfMembers (fun _ => .schema) path members
    | .schemaList => []
    | .data => []
  | .arr elements =>
    match place with
    | .schema => referencesOfElements path 0 elements
    | .schemaList => referencesOfElements path 0 elements
    | .schemaMap => []
    | .data => []
  | _ => []

/-- The objects in the elements of an array, the first of which has the given index. -/
def referencesOfElements (path : String) (index : Nat) : List Json → List (Members × String)
  | [] => []
  | value :: rest =>
    references .schema (Pointer.join path [toString index]) value ++
      referencesOfElements path (index + 1) rest

def referencesOfMembers (placeOf : String → Place) (path : String) :
    List (String × Json) → List (Members × String)
  | [] => []
  | (key, value) :: rest =>
    references (placeOf key) (Pointer.join path [key]) value ++
      referencesOfMembers placeOf path rest

end

theorem references_of_keeps {place : Place} {path : String} {value : Json}
    (h : keeps place value = true) : references place path value = [] := by
  cases value <;> cases place <;> simp_all [keeps, references]

section Walked

variable {follow : Members → String → Json → Prop}

mutual

/-- Each reference of a value that has been walked over has been followed. -/
theorem Walked.followed :
    ∀ {place : Place} {path : String} {value result : Json},
      Walked follow place path value result →
        ∀ found ∈ references place path value, ∃ result, follow found.1 found.2 result
  | _, _, _, _, .kept keeps => by simp [references_of_keeps keeps]
  | _, _, _, result, .reference has followed => by
      simp only [references, has, if_true, List.mem_singleton]
      rintro found rfl
      exact ⟨result, followed⟩
  | _, _, _, _, .schema hasNot walked => by
      simpa [references, hasNot] using walked.followed
  | _, _, _, _, .schemaMap walked => walked.followed
  | _, _, _, _, .elements (.inl rfl) walked => walked.followed
  | _, _, _, _, .elements (.inr rfl) walked => walked.followed

theorem WalkedElements.followed :
    ∀ {path : String} {index : Nat} {values results : List Json},
      WalkedElements follow path index values results →
        ∀ found ∈ referencesOfElements path index values, ∃ result, follow found.1 found.2 result
  | _, _, _, _, .nil => by simp [referencesOfElements]
  | _, _, _, _, .cons head tail =>
      List.forall_mem_append.mpr ⟨head.followed, tail.followed⟩

theorem WalkedMembers.followed :
    ∀ {placeOf : String → Place} {path : String} {values results : Members},
      WalkedMembers follow placeOf path values results →
        ∀ found ∈ referencesOfMembers placeOf path values, ∃ result, follow found.1 found.2 result
  | _, _, _, _, .nil => by simp [referencesOfMembers]
  | _, _, _, _, .cons head tail =>
      List.forall_mem_append.mpr ⟨head.followed, tail.followed⟩

end

end Walked

/-- If following a reference in the one way succeeds, from a good state and in one that is low
enough, then following it in the other way comes to the same, and the state is good again. -/
def AgreesOn (follow again : Follow) (good low : SessionState → Prop) (found : Members × String) :
    Prop :=
  ∀ state after result, good state → low after →
    (follow found.1 found.2).outcome state = (.ok result, after) →
      (again found.1 found.2).outcome state = (.ok result, after) ∧ good after

section Again

variable {effect : Effect} {follow again : Follow} {good low : SessionState → Prop}

theorem walk_again_of_keeps {place : Place} {path : String} {value result : Json}
    {state after : SessionState} (h : keeps place value = true) (ready : good state)
    (run : (walk follow place path value).outcome state = (.ok result, after)) :
    (walk again place path value).outcome state = (.ok result, after) ∧ good after := by
  rw [walk_of_keeps h, Run.outcome_pure] at run
  rw [walk_of_keeps h, Run.outcome_pure]
  refine ⟨run, ?_⟩
  rw [← (Prod.mk.inj run).2]
  exact ready

mutual

/-- A successful walk comes to the same if the references of the value are followed in another way
that agrees on each of them. -/
theorem walk_again
    (has : Follows effect (fun _ => True) (fun _ _ _ _ => True) follow)
    (lower : ∀ {state after}, effect.done state after → low after → low state) :
    ∀ (value : Json) (place : Place) (path : String),
      (∀ found ∈ references place path value, AgreesOn follow again good low found) →
      ∀ state after result, good state → low after →
        (walk follow place path value).outcome state = (.ok result, after) →
          (walk again place path value).outcome state = (.ok result, after) ∧ good after
  | .obj members, place, path, agree => by
      intro state after result ready ends run
      cases place with
      | schema =>
          by_cases isReference : Members.has members "$ref" = true
          · simp only [walk, references, if_pos isReference] at run agree ⊢
            exact agree _ (List.mem_singleton_self _) state after result ready ends run
          · simp only [walk, references, if_neg isReference] at run agree ⊢
            obtain ⟨results, inner, rfl⟩ := Run.outcome_map_eq_ok.mp run
            obtain ⟨same, ready'⟩ := walkMembers_again has lower members Place.ofMember path agree
              state after results ready ends inner
            exact ⟨Run.outcome_map_eq_ok.mpr ⟨results, same, rfl⟩, ready'⟩
      | schemaMap =>
          obtain ⟨results, inner, rfl⟩ := Run.outcome_map_eq_ok.mp run
          obtain ⟨same, ready'⟩ := walkMembers_again has lower members (fun _ => .schema) path agree
            state after results ready ends inner
          exact ⟨Run.outcome_map_eq_ok.mpr ⟨results, same, rfl⟩, ready'⟩
      | schemaList => exact walk_again_of_keeps rfl ready run
      | data => exact walk_again_of_keeps rfl ready run
  | .arr elements, place, path, agree => by
      intro state after result ready ends run
      cases place with
      | schema | schemaList =>
          obtain ⟨results, inner, rfl⟩ := Run.outcome_map_eq_ok.mp run
          obtain ⟨same, ready'⟩ := walkElements_again has lower elements path 0 agree
            state after results ready ends inner
          exact ⟨Run.outcome_map_eq_ok.mpr ⟨results, same, rfl⟩, ready'⟩
      | schemaMap => exact walk_again_of_keeps rfl ready run
      | data => exact walk_again_of_keeps rfl ready run
  | .null, place, _, _ => fun _ _ _ ready _ => walk_again_of_keeps (by cases place <;> rfl) ready
  | .bool _, place, _, _ => fun _ _ _ ready _ => walk_again_of_keeps (by cases place <;> rfl) ready
  | .int _, place, _, _ => fun _ _ _ ready _ => walk_again_of_keeps (by cases place <;> rfl) ready
  | .double _, place, _, _ =>
      fun _ _ _ ready _ => walk_again_of_keeps (by cases place <;> rfl) ready
  | .str _, place, _, _ => fun _ _ _ ready _ => walk_again_of_keeps (by cases place <;> rfl) ready

theorem walkElements_again
    (has : Follows effect (fun _ => True) (fun _ _ _ _ => True) follow)
    (lower : ∀ {state after}, effect.done state after → low after → low state) :
    ∀ (elements : List Json) (path : String) (index : Nat),
      (∀ found ∈ referencesOfElements path index elements, AgreesOn follow again good low found) →
      ∀ state after results, good state → low after →
        (walkElements follow path index elements).outcome state = (.ok results, after) →
          (walkElements again path index elements).outcome state = (.ok results, after) ∧ good after
  | [], path, index, _ => by
      intro state after results ready _ run
      refine ⟨run, ?_⟩
      rw [walkElements, Run.outcome_pure] at run
      rw [← (Prod.mk.inj run).2]
      exact ready
  | value :: rest, path, index, agree => by
      obtain ⟨head, tail⟩ := List.forall_mem_append.mp agree
      intro state after results ready ends run
      obtain ⟨result, middle, first, run⟩ := Run.outcome_bind_eq_ok.mp run
      obtain ⟨others, last, second, run⟩ := Run.outcome_bind_eq_ok.mp run
      rw [Run.outcome_pure, Prod.mk.injEq] at run
      obtain ⟨built, rfl⟩ := run
      have done := ((walkElements_meets has rest path (index + 1) middle trivial).ok second).1
      obtain ⟨first, ready⟩ := walk_again has lower value .schema _ head state middle result ready
        (lower done ends) first
      obtain ⟨second, ready⟩ := walkElements_again has lower rest path (index + 1) tail middle last
        others ready ends second
      refine ⟨Run.outcome_bind_eq_ok.mpr ⟨result, middle, first, ?_⟩, ready⟩
      exact Run.outcome_bind_eq_ok.mpr ⟨others, last, second, by rw [Run.outcome_pure, built]⟩

theorem walkMembers_again
    (has : Follows effect (fun _ => True) (fun _ _ _ _ => True) follow)
    (lower : ∀ {state after}, effect.done state after → low after → low state) :
    ∀ (members : List (String × Json)) (placeOf : String → Place) (path : String),
      (∀ found ∈ referencesOfMembers placeOf path members, AgreesOn follow again good low found) →
      ∀ state after results, good state → low after →
        (walkMembers follow placeOf path members).outcome state = (.ok results, after) →
          (walkMembers again placeOf path members).outcome state = (.ok results, after) ∧ good after
  | [], placeOf, path, _ => by
      intro state after results ready _ run
      refine ⟨run, ?_⟩
      rw [walkMembers, Run.outcome_pure] at run
      rw [← (Prod.mk.inj run).2]
      exact ready
  | (key, value) :: rest, placeOf, path, agree => by
      obtain ⟨head, tail⟩ := List.forall_mem_append.mp agree
      intro state after results ready ends run
      obtain ⟨result, middle, first, run⟩ := Run.outcome_bind_eq_ok.mp run
      obtain ⟨others, last, second, run⟩ := Run.outcome_bind_eq_ok.mp run
      rw [Run.outcome_pure, Prod.mk.injEq] at run
      obtain ⟨built, rfl⟩ := run
      have done := ((walkMembers_meets has rest placeOf path middle trivial).ok second).1
      obtain ⟨first, ready⟩ := walk_again has lower value (placeOf key) _ head state middle result
        ready (lower done ends) first
      obtain ⟨second, ready⟩ := walkMembers_again has lower rest placeOf path tail middle last
        others ready ends second
      refine ⟨Run.outcome_bind_eq_ok.mpr ⟨result, middle, first, ?_⟩, ready⟩
      exact Run.outcome_bind_eq_ok.mpr ⟨others, last, second, by rw [Run.outcome_pure, built]⟩

end

end Again

end SchemaForms.Expansion
