import SchemaForms.Proofs.Expansion.Siblings
import SchemaForms.Proofs.Json.Members

/-!
# The target with the members put into it

Members that are put into the target of a reference take the place of its own. They are data, so the
references of the target are expanded as if nothing had been put into it, and the members are in the
result as they were put in.
-/

namespace SchemaForms

namespace Reference

theorem mem_siblings {node : Members} {member : String × Json} :
    member ∈ siblings node ↔ member ∈ node ∧ member.1 ≠ "$ref" := by
  simp [siblings, Members.erase]

theorem nodup_keys_siblings {node : Members} (distinct : (Members.keys node).Nodup) :
    (Members.keys (siblings node)).Nodup :=
  distinct.sublist (List.filter_sublist.map Prod.fst)

theorem get?_siblings_of_ne {node : Members} {key : String} (other : key ≠ "$ref") :
    Members.get? (siblings node) key = Members.get? node key :=
  @Members.get?_filter (fun name => name ≠ "$ref") key (by simpa using other) node

theorem get?_siblings_ref (node : Members) : Members.get? (siblings node) "$ref" = none := by
  rw [Members.get?_eq_none_iff, Members.keys, List.mem_map]
  rintro ⟨member, mem, same⟩
  exact (mem_siblings.mp mem).2 same

/-- Members may stand beside a reference if each of their names is allowed there. -/
def AllAllowed (siblings : Members) : Prop :=
  ∀ member ∈ siblings, isAllowedSibling member.1 = true

theorem allAllowed_nil : AllAllowed [] := by
  simp [AllAllowed]

theorem allAllowed_cons {member : String × Json} {rest : Members} :
    AllAllowed (member :: rest) ↔ isAllowedSibling member.1 = true ∧ AllAllowed rest :=
  List.forall_mem_cons

theorem foldlM_mergeSibling_eq_ok {place : String} {siblings target merged : Members} :
    siblings.foldlM (mergeSibling place) target = .ok merged ↔
      AllAllowed siblings ∧ merged = Members.setAll target siblings := by
  induction siblings generalizing target with
  | nil =>
      rw [and_iff_right allAllowed_nil, eq_comm]
      exact ⟨Except.ok.inj, congrArg Except.ok⟩
  | cons sibling rest ih =>
      rw [foldlM_mergeSibling_cons, ih, Members.setAll_cons, allAllowed_cons, and_assoc]

theorem get?_ref_of_allAllowed {members : Members} (allowed : AllAllowed members) :
    Members.get? members "$ref" = none := by
  rw [Members.get?_eq_none_iff, Members.keys, List.mem_map]
  rintro ⟨member, mem, same⟩
  have impossible := allowed member mem
  rw [same, isAllowedSibling_ref] at impossible
  cases impossible

/-- The members have been put into the target; only into an object any can be put. -/
inductive Filled : Members → Json → Json → Prop
  | obj {siblings : Members} (members : Members) :
      Filled siblings (.obj members) (.obj (Members.setAll members siblings))
  | other {value : Json} (other : ∀ members, value ≠ .obj members) : Filled [] value value

/-- The members beside a reference are put into its target just if all of them are allowed. -/
theorem merge_eq_ok {target merged : Json} {node : Members} {place : String} :
    merge target node place = .ok merged ↔
      AllAllowed (siblings node) ∧ Filled (siblings node) target merged := by
  unfold merge
  split
  · rename_i members
    rw [except_map_eq_ok]
    simp only [foldlM_mergeSibling_eq_ok]
    constructor
    · rintro ⟨_, ⟨allowed, rfl⟩, rfl⟩
      exact ⟨allowed, .obj members⟩
    · rintro ⟨allowed, filled⟩
      generalize siblings node = siblings at *
      cases filled with
      | obj => exact ⟨_, ⟨allowed, rfl⟩, rfl⟩
      | other other => exact absurd rfl (other members)
  · rename_i other
    split
    · rename_i none
      rw [List.isEmpty_iff.mp none]
      constructor
      · rintro ⟨⟩
        exact ⟨allAllowed_nil, .other other⟩
      · rintro ⟨-, filled⟩
        cases filled with
        | obj members => exact absurd rfl (other members)
        | other => rfl
    · rename_i some
      constructor
      · rintro ⟨⟩
      · rintro ⟨-, filled⟩
        generalize siblings node = siblings at *
        cases filled with
        | obj members => exact absurd rfl (other members)
        | other => exact absurd rfl some

end Reference

namespace Expansion

variable {follow : Follow} {placeOf : String → Place} {path key : String}

/-- A member that is data is in the result as it was set. -/
theorem walkMembers_set (data : placeOf key = .data) (value : Json) (members : Members) :
    walkMembers follow placeOf path (Members.set members key value) =
      (Members.set · key value) <$> walkMembers follow placeOf path members := by
  have kept (value : Json) :
      walk follow (placeOf key) (Pointer.join path [key]) value = pure value := by
    rw [data]
    exact walk_of_keeps rfl
  induction members with
  | nil => simp [Members.set, walkMembers, kept]
  | cons member rest ih =>
      obtain ⟨name, old⟩ := member
      by_cases same : name = key
      · subst same
        simp [Members.set, walkMembers, kept]
      · simp [Members.set, walkMembers, same, ih]

theorem walkMembers_setAll {updates : Members} (data : ∀ update ∈ updates, placeOf update.1 = .data)
    (members : Members) :
    walkMembers follow placeOf path (Members.setAll members updates) =
      (Members.setAll · updates) <$> walkMembers follow placeOf path members := by
  induction updates generalizing members with
  | nil => exact (id_map _).symm
  | cons update rest ih =>
      obtain ⟨first, rest'⟩ := List.forall_mem_cons.mp data
      simp only [Members.setAll_cons, ih rest', walkMembers_set first, Functor.map_map]

end Expansion

end SchemaForms
