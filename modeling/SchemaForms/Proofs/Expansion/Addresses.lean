import SchemaForms.Proofs.Expansion.Siblings
import SchemaForms.Proofs.Json.Objects

/-!
# Where references stand

Every object with a reference that a walk over a value comes to is an object inside that value. If
something has been put into the value beside a reference, there is still an object with the same
reference in the value as it was.
-/

namespace SchemaForms.Expansion

open Reference

theorem exists_mem_append_inChild {node : Members} {index : Nat}
    {first rest : List (List Nat × Members)}
    (h : (∃ address, (address, node) ∈ first) ∨ ∃ address, (address, node) ∈ rest) :
    ∃ address, (address, node) ∈ Json.inChild index first ++ rest := by
  obtain ⟨address, mem⟩ | ⟨address, mem⟩ := h
  · exact ⟨index :: address, List.mem_append_left _ (Json.mem_inChild.mpr ⟨address, rfl, mem⟩)⟩
  · exact ⟨address, List.mem_append_right _ mem⟩

mutual

/-- The objects with references that a walk comes to have one, and are inside the value. -/
theorem mem_objects_of_references : ∀ {value : Json} {place : Place} {path : String}
    {node : Members × String}, node ∈ references place path value →
      Members.has node.1 "$ref" = true ∧ ∃ address, (address, node.1) ∈ value.objects
  | .obj members, place, path, node, mem => by
      have below {placeOf : String → Place} (mem : node ∈ referencesOfMembers placeOf path members) :
          Members.has node.1 "$ref" = true ∧
            ∃ address, (address, node.1) ∈ (Json.obj members).objects := by
        obtain ⟨has, address, inside⟩ := mem_objects_of_referencesOfMembers 0 mem
        exact ⟨has, address, List.mem_cons_of_mem _ inside⟩
      cases place with
      | schema =>
          by_cases isReference : Members.has members "$ref" = true
          · rw [references_of_has isReference] at mem
            obtain rfl := List.mem_singleton.mp mem
            exact ⟨isReference, [], List.mem_cons_self⟩
          · rw [references, if_neg isReference] at mem
            exact below mem
      | schemaMap => exact below mem
      | schemaList | data => cases mem
  | .arr elements, place, path, node, mem => by
      cases place with
      | schema | schemaList => exact mem_objects_of_referencesOfElements 0 mem
      | schemaMap | data => cases mem
  | .null, place, _, _, mem | .bool _, place, _, _, mem | .int _, place, _, _, mem
  | .double _, place, _, _, mem | .str _, place, _, _, mem => by cases place <;> cases mem

theorem mem_objects_of_referencesOfElements : ∀ {elements : List Json} {path : String} {index : Nat}
    {node : Members × String} (start : Nat), node ∈ referencesOfElements path index elements →
      Members.has node.1 "$ref" = true ∧
        ∃ address, (address, node.1) ∈ Json.objectsOfElements start elements
  | [], _, _, _, _, mem => nomatch mem
  | value :: rest, _, _, _, start, mem => by
      obtain head | tail := List.mem_append.mp mem
      · obtain ⟨has, inside⟩ := mem_objects_of_references head
        exact ⟨has, exists_mem_append_inChild (.inl inside)⟩
      · obtain ⟨has, inside⟩ := mem_objects_of_referencesOfElements (start + 1) tail
        exact ⟨has, exists_mem_append_inChild (.inr inside)⟩

theorem mem_objects_of_referencesOfMembers : ∀ {members : List (String × Json)}
    {placeOf : String → Place} {path : String} {node : Members × String} (start : Nat),
    node ∈ referencesOfMembers placeOf path members →
      Members.has node.1 "$ref" = true ∧
        ∃ address, (address, node.1) ∈ Json.objectsOfMembers start members
  | [], _, _, _, _, mem => nomatch mem
  | (key, value) :: rest, _, _, _, start, mem => by
      obtain head | tail := List.mem_append.mp mem
      · obtain ⟨has, inside⟩ := mem_objects_of_references head
        exact ⟨has, exists_mem_append_inChild (.inl inside)⟩
      · obtain ⟨has, inside⟩ := mem_objects_of_referencesOfMembers (start + 1) tail
        exact ⟨has, exists_mem_append_inChild (.inr inside)⟩

end

/-- If a value has the core of another one, its references are references of that one. -/
theorem exists_object_of_core {value other : Json} {path : String} {node : Members × String}
    (same : SameCore value other) (mem : node ∈ references .schema path other) :
    ∃ address members, (address, members) ∈ value.objects ∧
      Members.get? members "$ref" = Members.get? node.1 "$ref" ∧
      Members.has node.1 "$ref" = true := by
  cases same with
  | refl =>
      obtain ⟨has, address, inside⟩ := mem_objects_of_references mem
      exact ⟨address, node.1, inside, rfl, has⟩
  | @obj members others core =>
      cases has : Members.has others "$ref" with
      | true =>
          rw [references_of_has has] at mem
          obtain rfl := List.mem_singleton.mp mem
          exact ⟨[], members, List.mem_cons_self, get?_ref_of_core core, has⟩
      | false =>
          rw [references_of_core core.symm has] at mem
          obtain ⟨has, address, inside⟩ := mem_objects_of_references mem
          exact ⟨address, node.1, inside, rfl, has⟩

end SchemaForms.Expansion
