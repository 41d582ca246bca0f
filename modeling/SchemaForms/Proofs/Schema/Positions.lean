import SchemaForms.Json.Basic

/-!
# Schema positions

A value read as a schema holds other schemas at fixed positions. The positions are stated here by
the names of the members alone, apart from the code that walks them and from the code that reads
them as schemas, so that both can be held against one definition.

`RefFree` says that no object at a schema position has a `$ref`. `refFree_arr` and `refFree_obj`
take it apart along the value.

The normalizer goes down to fewer positions than references are followed at. `Below` names them, and
`Json.node_induction` is the induction along them.
-/

namespace SchemaForms

theorem Members.mem_of_get? {members : Members} {key : String} {value : Json}
    (h : Members.get? members key = some value) : (key, value) ∈ members := by
  induction members with
  | nil => cases h
  | cons member rest ih =>
      obtain ⟨name, first⟩ := member
      rw [Members.get?_cons] at h
      split at h
      · rename_i same
        cases h
        exact same ▸ List.mem_cons_self
      · exact List.mem_cons_of_mem _ (ih h)

/-- The members that hold schemas by name. -/
def schemaMaps : List String := ["$defs", "properties"]

/-- The members that hold lists of schemas. -/
def schemaLists : List String := ["oneOf", "anyOf", "allOf"]

/-- The second value stands at a schema position of the first. -/
inductive SchemaPosition : Json → Json → Prop
  | here (value : Json) : SchemaPosition value value
  | element {elements : List Json} {value node : Json} (mem : value ∈ elements)
      (below : SchemaPosition value node) : SchemaPosition (.arr elements) node
  | named {members children : Members} {key name : String} {value node : Json}
      (map : key ∈ schemaMaps) (has : (key, .obj children) ∈ members)
      (mem : (name, value) ∈ children) (below : SchemaPosition value node) :
      SchemaPosition (.obj members) node
  | items {members : Members} {value node : Json} (has : ("items", value) ∈ members)
      (below : SchemaPosition value node) : SchemaPosition (.obj members) node
  | listed {members : Members} {elements : List Json} {key : String} {value node : Json}
      (list : key ∈ schemaLists) (has : (key, .arr elements) ∈ members) (mem : value ∈ elements)
      (below : SchemaPosition value node) : SchemaPosition (.obj members) node

/-- No object at a schema position of the value has a `$ref`. -/
def RefFree (value : Json) : Prop :=
  ∀ members, SchemaPosition value (.obj members) → Members.has members "$ref" = false

/-- What an object without references demands of one of its members. -/
structure MemberRefFree (key : String) (value : Json) : Prop where
  named : key ∈ schemaMaps → ∀ children, value = .obj children →
    ∀ member ∈ children, RefFree member.2
  items : key = "items" → RefFree value
  listed : key ∈ schemaLists → ∀ elements, value = .arr elements →
    ∀ element ∈ elements, RefFree element

theorem refFree_arr {elements : List Json} :
    RefFree (.arr elements) ↔ ∀ value ∈ elements, RefFree value := by
  constructor
  · intro free value mem members position
    exact free members (.element mem position)
  · intro free members position
    cases position with
    | element mem below => exact free _ mem members below

theorem refFree_obj {members : Members} :
    RefFree (.obj members) ↔ Members.has members "$ref" = false ∧
      ∀ member ∈ members, MemberRefFree member.1 member.2 := by
  constructor
  · intro free
    refine ⟨free members (.here _), fun ⟨key, value⟩ mem => ⟨?_, ?_, ?_⟩⟩
    · rintro map children rfl ⟨name, child⟩ mem' node position
      exact free node (.named map mem mem' position)
    · rintro rfl node position
      exact free node (.items mem position)
    · rintro list elements rfl element mem' node position
      exact free node (.listed list mem mem' position)
  · rintro ⟨hasNot, free⟩ node position
    cases position with
    | here => exact hasNot
    | named map has mem below => exact (free _ has).named map _ rfl _ mem node below
    | items has below => exact (free _ has).items rfl node below
    | listed list has mem below => exact (free _ has).listed list _ rfl _ mem node below

/-- A value that is neither an array nor an object holds nothing. -/
theorem refFree_scalar {value : Json} (arr : ∀ elements, value ≠ .arr elements)
    (obj : ∀ members, value ≠ .obj members) : RefFree value := by
  intro members position
  cases position with
  | here => exact absurd rfl (obj members)
  | element => exact absurd rfl (arr _)
  | named => exact absurd rfl (obj _)
  | items => exact absurd rfl (obj _)
  | listed => exact absurd rfl (obj _)

/-- Every value has the property that is normalized as a part of a node with these members. -/
structure Below (p : Json → Prop) (members : Members) : Prop where
  named : ∀ key ∈ ["$defs", "properties"], ∀ children,
    Members.get? members key = some (.obj children) → ∀ child ∈ children, p child.2
  items : ∀ item, Members.get? members "items" = some item → p item
  listed : ∀ elements, Members.get? members "oneOf" = some (.arr elements) →
    ∀ element ∈ elements, p element

section Induction

variable {members : Members} {key : String} {value : Json} {elements : List Json}

theorem sizeOf_member (has : Members.get? members key = some value) :
    sizeOf value < sizeOf (Json.obj members) := by
  have inside := List.sizeOf_lt_of_mem (Members.mem_of_get? has)
  simp only [Prod.mk.sizeOf_spec, Json.obj.sizeOf_spec] at inside ⊢
  omega

theorem sizeOf_child {child : String × Json} (mem : child ∈ members) :
    sizeOf child.2 < sizeOf (Json.obj members) := by
  have inside := List.sizeOf_lt_of_mem mem
  obtain ⟨name, value⟩ := child
  simp only [Prod.mk.sizeOf_spec, Json.obj.sizeOf_spec] at inside ⊢
  omega

theorem sizeOf_element (mem : value ∈ elements) : sizeOf value < sizeOf (Json.arr elements) := by
  have inside := List.sizeOf_lt_of_mem mem
  simp only [Json.arr.sizeOf_spec]
  omega

/-- What holds of a node if it holds of its parts, and of every value that is no node, holds of all
values. By induction on the size of the value. -/
theorem Json.node_induction {p : Json → Prop} (node : ∀ members, Below p members → p (.obj members))
    (leaf : ∀ value, (∀ members, value ≠ .obj members) → p value) (value : Json) : p value := by
  match value with
  | .obj members =>
      refine node members ⟨?_, ?_, ?_⟩
      · intro key _ children has child mem
        exact Json.node_induction node leaf child.2
      · intro item has
        exact Json.node_induction node leaf item
      · intro elements has element mem
        exact Json.node_induction node leaf element
  | .null | .bool _ | .int _ | .double _ | .str _ | .arr _ => exact leaf _ (by simp)
termination_by sizeOf value
decreasing_by
  · exact Nat.lt_trans (sizeOf_child mem) (sizeOf_member has)
  · exact sizeOf_member has
  · exact Nat.lt_trans (sizeOf_element mem) (sizeOf_member has)

end Induction

end SchemaForms
