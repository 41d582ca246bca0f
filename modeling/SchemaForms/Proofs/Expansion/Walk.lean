import SchemaForms.Proofs.Session.Effect
import SchemaForms.Reference.Expansion

/-!
# What a walk does

`Walked follow` relates a value to what a walk over it may give, when `follow` relates the objects
with references to what they are expanded to. It says nothing of the session: a member, an element
and a value that is kept stay where they are, and only objects with references are replaced.

`walk_meets` ties the relation to the walk itself. It needs to know of each reference what following
it does to the session and gives, and concludes the same of the whole walk. The sessions of two
walks are then compared, or their results described, without the recursion of the walk.
-/

namespace SchemaForms.Expansion

/-- Nothing at this place of a value can hold a reference, so a walk keeps the value. -/
def keeps : Place → Json → Bool
  | .data, _ => true
  | .schema, .obj _ | .schema, .arr _ => false
  | .schemaMap, .obj _ => false
  | .schemaList, .arr _ => false
  | _, _ => true

theorem walk_of_keeps {follow : Follow} {place : Place} {path : String} {value : Json}
    (h : keeps place value = true) : walk follow place path value = pure value := by
  cases value <;> cases place <;> first | rfl | simp [keeps] at h

mutual

/-- A value at a place and a path, and what a walk over it may give. -/
inductive Walked (follow : Members → String → Json → Prop) : Place → String → Json → Json → Prop
  | kept {place : Place} {path : String} {value : Json} (h : keeps place value = true) :
      Walked follow place path value value
  | reference {path : String} {members : Members} {result : Json}
      (has : Members.has members "$ref" = true) (followed : follow members path result) :
      Walked follow .schema path (.obj members) result
  | schema {path : String} {members results : Members}
      (hasNot : Members.has members "$ref" = false)
      (walked : WalkedMembers follow Place.ofMember path members results) :
      Walked follow .schema path (.obj members) (.obj results)
  | schemaMap {path : String} {members results : Members}
      (walked : WalkedMembers follow (fun _ => .schema) path members results) :
      Walked follow .schemaMap path (.obj members) (.obj results)
  | elements {place : Place} {path : String} {elements results : List Json}
      (list : place = .schema ∨ place = .schemaList)
      (walked : WalkedElements follow path 0 elements results) :
      Walked follow place path (.arr elements) (.arr results)

/-- The elements of an array, the first of which has the given index. -/
inductive WalkedElements (follow : Members → String → Json → Prop) :
    String → Nat → List Json → List Json → Prop
  | nil {path : String} {index : Nat} : WalkedElements follow path index [] []
  | cons {path : String} {index : Nat} {value result : Json} {rest results : List Json}
      (head : Walked follow .schema (Pointer.join path [toString index]) value result)
      (tail : WalkedElements follow path (index + 1) rest results) :
      WalkedElements follow path index (value :: rest) (result :: results)

inductive WalkedMembers (follow : Members → String → Json → Prop) :
    (String → Place) → String → Members → Members → Prop
  | nil {placeOf : String → Place} {path : String} : WalkedMembers follow placeOf path [] []
  | cons {placeOf : String → Place} {path key : String} {value result : Json}
      {rest results : Members}
      (head : Walked follow (placeOf key) (Pointer.join path [key]) value result)
      (tail : WalkedMembers follow placeOf path rest results) :
      WalkedMembers follow placeOf path ((key, value) :: rest) ((key, result) :: results)

end

section Mono

variable {follow follow' : Members → String → Json → Prop}

mutual

theorem Walked.mono (imp : ∀ node path result, follow node path result → follow' node path result) :
    ∀ {place : Place} {path : String} {value result : Json},
      Walked follow place path value result → Walked follow' place path value result
  | _, _, _, _, .kept h => .kept h
  | _, _, _, _, .reference has followed => .reference has (imp _ _ _ followed)
  | _, _, _, _, .schema hasNot walked => .schema hasNot (walked.mono imp)
  | _, _, _, _, .schemaMap walked => .schemaMap (walked.mono imp)
  | _, _, _, _, .elements list walked => .elements list (walked.mono imp)

theorem WalkedElements.mono
    (imp : ∀ node path result, follow node path result → follow' node path result) :
    ∀ {path : String} {index : Nat} {values results : List Json},
      WalkedElements follow path index values results →
        WalkedElements follow' path index values results
  | _, _, _, _, .nil => .nil
  | _, _, _, _, .cons head tail => .cons (head.mono imp) (tail.mono imp)

theorem WalkedMembers.mono
    (imp : ∀ node path result, follow node path result → follow' node path result) :
    ∀ {placeOf : String → Place} {path : String} {values results : Members},
      WalkedMembers follow placeOf path values results →
        WalkedMembers follow' placeOf path values results
  | _, _, _, _, .nil => .nil
  | _, _, _, _, .cons head tail => .cons (head.mono imp) (tail.mono imp)

end

end Mono

theorem WalkedMembers.keys {follow : Members → String → Json → Prop} {placeOf : String → Place}
    {path : String} {members results : Members}
    (h : WalkedMembers follow placeOf path members results) :
    Members.keys results = Members.keys members := by
  induction members generalizing results with
  | nil =>
      cases h
      rfl
  | cons member rest ih =>
      cases h with
      | cons head tail => simpa [Members.keys] using ih tail

/-- What is known of following a reference: in a good state it has an effect, after which the state
is good again, and it gives a result that later steps leave valid. -/
structure Follows (effect : Effect) (good : SessionState → Prop)
    (gives : SessionState → Members → String → Json → Prop) (follow : Follow) : Prop where
  keep : ∀ {state after}, good state → effect.done state after → good after
  lasting : ∀ {state after node path result}, gives state node path result →
    effect.done state after → gives after node path result
  meets : ∀ node path state, good state →
    effect.Meets (follow node path) state fun after result => gives after node path result

section Meets

variable {effect : Effect} {good : SessionState → Prop}
variable {gives : SessionState → Members → String → Json → Prop} {follow : Follow}

mutual

/-- A walk has the effect of the references that it follows. -/
theorem walk_meets (h : Follows effect good gives follow) :
    ∀ (value : Json) (place : Place) (path : String) (state : SessionState), good state →
      effect.Meets (walk follow place path value) state fun after result =>
        Walked (gives after) place path value result
  | .obj members, place, path, state, ready => by
      cases place with
      | schema =>
          simp only [walk]
          split
          · rename_i has
            exact (h.meets members path state ready).mono fun _ _ _ given => .reference has given
          · rename_i hasNot
            exact ((walkMembers_meets h members Place.ofMember path state ready).mono
              fun _ _ _ walked => .schema (by simpa using hasNot) walked).map
      | schemaMap =>
          exact ((walkMembers_meets h members (fun _ => .schema) path state ready).mono
            fun _ _ _ walked => .schemaMap walked).map
      | schemaList => exact Effect.meets_pure (.kept rfl)
      | data => exact Effect.meets_pure (.kept rfl)
  | .arr elements, place, path, state, ready => by
      have walked := walkElements_meets h elements path 0 state ready
      cases place with
      | schema => exact (walked.mono fun _ _ _ walked => .elements (.inl rfl) walked).map
      | schemaList => exact (walked.mono fun _ _ _ walked => .elements (.inr rfl) walked).map
      | schemaMap => exact Effect.meets_pure (.kept rfl)
      | data => exact Effect.meets_pure (.kept rfl)
  | .null, place, _, _, _ => Effect.meets_pure (.kept (by cases place <;> rfl))
  | .bool _, place, _, _, _ => Effect.meets_pure (.kept (by cases place <;> rfl))
  | .int _, place, _, _, _ => Effect.meets_pure (.kept (by cases place <;> rfl))
  | .double _, place, _, _, _ => Effect.meets_pure (.kept (by cases place <;> rfl))
  | .str _, place, _, _, _ => Effect.meets_pure (.kept (by cases place <;> rfl))

theorem walkElements_meets (h : Follows effect good gives follow) :
    ∀ (elements : List Json) (path : String) (index : Nat) (state : SessionState), good state →
      effect.Meets (walkElements follow path index elements) state fun after results =>
        WalkedElements (gives after) path index elements results
  | [], _, _, _, _ => Effect.meets_pure .nil
  | value :: rest, path, index, state, ready => by
      apply Effect.Meets.bind
      apply (walk_meets h value .schema _ state ready).mono
      intro middle result done head
      apply Effect.Meets.bind
      apply (walkElements_meets h rest path (index + 1) middle (h.keep ready done)).mono
      intro after results done' tail
      exact Effect.meets_pure
        (.cons (head.mono fun _ _ _ given => h.lasting given done') tail)

theorem walkMembers_meets (h : Follows effect good gives follow) :
    ∀ (members : List (String × Json)) (placeOf : String → Place) (path : String)
      (state : SessionState), good state →
      effect.Meets (walkMembers follow placeOf path members) state fun after results =>
        WalkedMembers (gives after) placeOf path members results
  | [], _, _, _, _ => Effect.meets_pure .nil
  | (key, value) :: rest, placeOf, path, state, ready => by
      apply Effect.Meets.bind
      apply (walk_meets h value (placeOf key) _ state ready).mono
      intro middle result done head
      apply Effect.Meets.bind
      apply (walkMembers_meets h rest placeOf path middle (h.keep ready done)).mono
      intro after results done' tail
      exact Effect.meets_pure
        (.cons (head.mono fun _ _ _ given => h.lasting given done') tail)

end

end Meets

end SchemaForms.Expansion
