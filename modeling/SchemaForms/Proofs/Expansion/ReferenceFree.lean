import SchemaForms.Proofs.Expansion.Expanded
import SchemaForms.Proofs.Schema.Positions

/-!
# Expansion and schema positions

The places that a walk visits are the schema positions of a value. A walk over a value without
references therefore does nothing at all, and whatever an expansion gives is without references:
each reference on the way is replaced by the result of expanding its target.
-/

namespace SchemaForms

namespace Place

theorem ofMember_eq_schemaMap_iff {key : String} :
    ofMember key = .schemaMap ↔ key ∈ schemaMaps := by
  grind [ofMember, schemaMaps]

theorem ofMember_eq_schema_iff {key : String} : ofMember key = .schema ↔ key = "items" := by
  grind [ofMember]

theorem ofMember_eq_schemaList_iff {key : String} :
    ofMember key = .schemaList ↔ key ∈ schemaLists := by
  grind [ofMember, schemaLists]

end Place

/-- What a place of a schema demands of a value without references. -/
def FreeAt : Place → Json → Prop
  | .schema, value => RefFree value
  | .schemaMap, .obj members => ∀ member ∈ members, RefFree member.2
  | .schemaList, .arr elements => ∀ element ∈ elements, RefFree element
  | _, _ => True

/-- The places of members are the schema positions below an object. -/
theorem memberRefFree_iff_freeAt {key : String} {value : Json} :
    MemberRefFree key value ↔ FreeAt (Place.ofMember key) value := by
  constructor
  · intro free
    cases place : Place.ofMember key with
    | schema => exact free.items (Place.ofMember_eq_schema_iff.mp place)
    | schemaMap =>
        cases value with
        | obj children => exact free.named (Place.ofMember_eq_schemaMap_iff.mp place) children rfl
        | _ => trivial
    | schemaList =>
        cases value with
        | arr elements => exact free.listed (Place.ofMember_eq_schemaList_iff.mp place) elements rfl
        | _ => trivial
    | data => trivial
  · intro free
    refine ⟨?_, ?_, ?_⟩
    · rintro map children rfl
      rw [Place.ofMember_eq_schemaMap_iff.mpr map] at free
      exact free
    · intro items
      rw [Place.ofMember_eq_schema_iff.mpr items] at free
      exact free
    · rintro list elements rfl
      rw [Place.ofMember_eq_schemaList_iff.mpr list] at free
      exact free

theorem refFree_obj_iff_freeAt {members : Members} :
    RefFree (.obj members) ↔ Members.has members "$ref" = false ∧
      ∀ member ∈ members, FreeAt (Place.ofMember member.1) member.2 := by
  simp only [refFree_obj, memberRefFree_iff_freeAt]

namespace Expansion

theorem freeAt_of_keeps {place : Place} {value : Json} (h : keeps place value = true) :
    FreeAt place value := by
  cases place with
  | schema =>
      apply refFree_scalar
      · rintro elements rfl
        simp [keeps] at h
      · rintro members rfl
        simp [keeps] at h
  | schemaMap => cases value <;> simp_all [keeps, FreeAt]
  | schemaList => cases value <;> simp_all [keeps, FreeAt]
  | data => trivial

mutual

/-- A walk that meets no reference changes nothing, neither value nor session. -/
theorem walk_of_freeAt (follow : Follow) :
    ∀ (value : Json) (place : Place) (path : String), FreeAt place value →
      walk follow place path value = pure value
  | .obj members, place, path, free => by
      cases place with
      | schema =>
          obtain ⟨hasNot, free⟩ := refFree_obj_iff_freeAt.mp free
          simp [walk, hasNot, walkMembers_of_freeAt follow members Place.ofMember path free]
      | schemaMap => simp [walk, walkMembers_of_freeAt follow members (fun _ => .schema) path free]
      | schemaList => rfl
      | data => rfl
  | .arr elements, place, path, free => by
      cases place with
      | schema =>
          simp [walk, walkElements_of_refFree follow elements path 0 (refFree_arr.mp free)]
      | schemaList => simp [walk, walkElements_of_refFree follow elements path 0 free]
      | schemaMap => rfl
      | data => rfl
  | .null, place, _, _ => by cases place <;> rfl
  | .bool _, place, _, _ => by cases place <;> rfl
  | .int _, place, _, _ => by cases place <;> rfl
  | .double _, place, _, _ => by cases place <;> rfl
  | .str _, place, _, _ => by cases place <;> rfl

theorem walkElements_of_refFree (follow : Follow) :
    ∀ (elements : List Json) (path : String) (index : Nat), (∀ value ∈ elements, RefFree value) →
      walkElements follow path index elements = pure elements
  | [], _, _, _ => rfl
  | value :: rest, path, index, free => by
      have head := walk_of_freeAt follow value .schema (Pointer.join path [toString index])
        (free value List.mem_cons_self)
      have tail := walkElements_of_refFree follow rest path (index + 1) fun value mem =>
        free value (List.mem_cons_of_mem _ mem)
      simp only [walkElements, head, tail, pure_bind]

theorem walkMembers_of_freeAt (follow : Follow) :
    ∀ (members : List (String × Json)) (placeOf : String → Place) (path : String),
      (∀ member ∈ members, FreeAt (placeOf member.1) member.2) →
      walkMembers follow placeOf path members = pure members
  | [], _, _, _ => rfl
  | (key, value) :: rest, placeOf, path, free => by
      have head := walk_of_freeAt follow value (placeOf key) (Pointer.join path [key])
        (free (key, value) List.mem_cons_self)
      have tail := walkMembers_of_freeAt follow rest placeOf path fun member mem =>
        free member (List.mem_cons_of_mem _ mem)
      simp only [walkMembers, head, tail, pure_bind]

end

section Walked

variable {follow : Members → String → Json → Prop}

mutual

/-- If every reference is replaced by something without references, so is the whole value. -/
theorem Walked.freeAt (h : ∀ node path result, follow node path result → RefFree result) :
    ∀ {place : Place} {path : String} {value result : Json},
      Walked follow place path value result → FreeAt place result
  | _, _, _, _, .kept keeps => freeAt_of_keeps keeps
  | _, _, _, _, .reference _ followed => h _ _ _ followed
  | _, _, _, _, .schema hasNot walked => by
      refine refFree_obj_iff_freeAt.mpr ⟨?_, walked.freeAt h⟩
      rw [Bool.eq_false_iff, ne_eq, Members.has_iff_mem_keys] at hasNot ⊢
      rwa [walked.keys]
  | _, _, _, _, .schemaMap walked => walked.freeAt h
  | _, _, _, _, .elements (.inl rfl) walked => refFree_arr.mpr (walked.refFree h)
  | _, _, _, _, .elements (.inr rfl) walked => walked.refFree h

theorem WalkedElements.refFree
    (h : ∀ node path result, follow node path result → RefFree result) :
    ∀ {path : String} {index : Nat} {values results : List Json},
      WalkedElements follow path index values results → ∀ result ∈ results, RefFree result
  | _, _, _, _, .nil => by simp
  | _, _, _, _, .cons head tail =>
      List.forall_mem_cons.mpr ⟨head.freeAt h, tail.refFree h⟩

theorem WalkedMembers.freeAt
    (h : ∀ node path result, follow node path result → RefFree result) :
    ∀ {placeOf : String → Place} {path : String} {values results : Members},
      WalkedMembers follow placeOf path values results →
        ∀ member ∈ results, FreeAt (placeOf member.1) member.2
  | _, _, _, _, .nil => by simp
  | _, _, _, _, .cons head tail =>
      List.forall_mem_cons.mpr ⟨head.freeAt h, tail.freeAt h⟩

end

end Walked

/-- Whatever the references denote, nothing of them is left. -/
theorem Expanded.refFree {found : Entry → Members → String → Target → Prop} {budget : Nat}
    {entry : Entry} {path : String} {value result : Json}
    (h : Expanded found budget entry path value result) : RefFree result := by
  induction budget generalizing entry path value result with
  | zero => exact Walked.freeAt (fun _ _ _ impossible => impossible.elim) h
  | succ budget ih =>
      apply Walked.freeAt _ h
      rintro node path result ⟨target, merged, -, -, rest⟩
      exact ih rest

end Expansion

end SchemaForms
