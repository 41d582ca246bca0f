import SchemaForms.Proofs.Expansion.Siblings
import SchemaForms.Proofs.Pointer.Addressed
import SchemaForms.Proofs.Session.Anchors

/-!
# The paths of references

A walk over a value hands each object with a reference on with its path. If everything in the value is
known by the names and numbers on the way to it, the path leads back to the object: from the path of
the value on, it writes a row of tokens that leads there. The row is the same in a value that differs
only in members that may stand beside a reference.
-/

namespace SchemaForms.Expansion

open Reference

variable {path : String} {node : Members × String}

theorem mem_referencesOfElements {index : Nat} {elements : List Json}
    (mem : node ∈ referencesOfElements path index elements) :
    ∃ number element, elements[number]? = some element ∧
      node ∈ references .schema (Pointer.join path [toString (index + number)]) element := by
  induction elements generalizing index with
  | nil => cases mem
  | cons element rest ih =>
      obtain here | later := List.mem_append.mp mem
      · exact ⟨0, element, rfl, here⟩
      · obtain ⟨number, other, has, found⟩ := ih later
        refine ⟨number + 1, other, has, ?_⟩
        rwa [Nat.add_right_comm, Nat.add_assoc] at found

theorem mem_referencesOfMembers {placeOf : String → Place} {members : Members}
    (mem : node ∈ referencesOfMembers placeOf path members) :
    ∃ key value, (key, value) ∈ members ∧
      node ∈ references (placeOf key) (Pointer.join path [key]) value := by
  induction members with
  | nil => cases mem
  | cons member rest ih =>
      obtain ⟨key, value⟩ := member
      obtain here | later := List.mem_append.mp mem
      · exact ⟨key, value, List.mem_cons_self, here⟩
      · obtain ⟨name, other, inside, found⟩ := ih later
        exact ⟨name, other, List.mem_cons_of_mem _ inside, found⟩

/-- The path of an object with a reference leads from a value to it. -/
def LeadsTo (value : Json) (path : String) (object : Members) (place : String) : Prop :=
  Members.has object "$ref" = true ∧
    ∃ row, Pointer.Leads value row (.obj object) ∧ place = Pointer.join path row

/-- What lies one step further is led to from here as well. -/
theorem LeadsTo.step {value inner : Json} {token : String} {object : Members} {place : String}
    (ne : path ≠ "") (first : Pointer.Leads value [token] inner)
    (h : LeadsTo inner (Pointer.join path [token]) object place) :
    LeadsTo value path object place := by
  obtain ⟨has, row, leads, rfl⟩ := h
  exact ⟨has, token :: row, first.trans leads, (Pointer.join_cons ne token row).symm⟩

/-- The paths of the references of a value lead to them. By induction on the size of the value. -/
theorem leadsTo_of_references {path : String} {node : Members × String} (value : Json)
    (known : value.Addressable) (place : Place) (ne : path ≠ "")
    (mem : node ∈ references place path value) : LeadsTo value path node.1 node.2 := by
  match value with
  | .obj members =>
      have below {placeOf : String → Place} (mem : node ∈ referencesOfMembers placeOf path members) :
          LeadsTo (.obj members) path node.1 node.2 := by
        obtain ⟨key, inner, inside, found⟩ := mem_referencesOfMembers mem
        have has := known.has_of_mem inside
        refine .step ne (known.leads_member has) ?_
        exact leadsTo_of_references inner (known.get? has) _ (Anchors.join_ne_empty ne key) found
      cases place with
      | schema =>
          by_cases isReference : Members.has members "$ref" = true
          · rw [references_of_has isReference] at mem
            obtain rfl := List.mem_singleton.mp mem
            exact ⟨isReference, [], .here _, by simp [Pointer.join, ne]⟩
          · rw [references, if_neg isReference] at mem
            exact below mem
      | schemaMap => exact below mem
      | schemaList | data => cases mem
  | .arr elements =>
      have below (mem : node ∈ referencesOfElements path 0 elements) :
          LeadsTo (.arr elements) path node.1 node.2 := by
        obtain ⟨number, inner, has, found⟩ := mem_referencesOfElements mem
        rw [Nat.zero_add] at found
        refine .step ne (.element has) ?_
        exact leadsTo_of_references inner (known.getElem? has) _ (Anchors.join_ne_empty ne _) found
      cases place with
      | schema | schemaList => exact below mem
      | schemaMap | data => cases mem
  | .null | .bool _ | .int _ | .double _ | .str _ => cases place <;> cases mem
termination_by sizeOf value
decreasing_by
  · exact sizeOf_child inside
  · exact sizeOf_element (List.mem_of_getElem? has)

/-- If a value has the core of another one, the paths of its references lead from that one to objects
with references. -/
theorem exists_leadsTo_of_core {raw value : Json} (core : SameCore raw value)
    (known : raw.Addressable) (ne : path ≠ "") (mem : node ∈ references .schema path value) :
    ∃ object, LeadsTo raw path object node.2 := by
  cases core with
  | refl => exact ⟨node.1, leadsTo_of_references raw known .schema ne mem⟩
  | @obj others members same =>
      by_cases isReference : Members.has members "$ref" = true
      · rw [references_of_has isReference] at mem
        obtain rfl := List.mem_singleton.mp mem
        rw [Members.has, ← get?_ref_of_core same] at isReference
        exact ⟨others, isReference, [], .here _, by simp [Pointer.join, ne]⟩
      · rw [references_of_core same.symm (eq_false_of_ne_true isReference)] at mem
        exact ⟨node.1, leadsTo_of_references (.obj others) known .schema ne mem⟩

end SchemaForms.Expansion
