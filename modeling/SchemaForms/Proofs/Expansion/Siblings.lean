import SchemaForms.Proofs.Expansion.ReferenceFree
import SchemaForms.Proofs.Expansion.References

/-!
# Members beside a reference hold none

What may stand beside a reference is data wherever it comes to stand. Values that differ in such
members only have the same core: the same reference, if they are one, and otherwise the same
references below them, at the same paths. All that a reference target becomes, whatever is put into
it, has the core of the target.
-/

namespace SchemaForms

namespace Members

theorem get?_filter {keep : String → Bool} {key : String} (h : keep key = true)
    (members : Members) :
    get? (members.filter fun member => keep member.1) key = get? members key := by
  induction members with
  | nil => rfl
  | cons member rest ih =>
      obtain ⟨name, value⟩ := member
      by_cases same : name = key
      · subst same
        simp [h]
      · by_cases kept : keep name = true <;> simp [kept, same, ih]

end Members

namespace Reference

/-- The members that may not stand beside a reference. -/
def core (members : Members) : Members :=
  members.filter fun member => !isAllowedSibling member.1

theorem isAllowedSibling_ref : isAllowedSibling "$ref" = false := by decide

theorem ofMember_of_isAllowedSibling {key : String} (h : isAllowedSibling key = true) :
    Place.ofMember key = .data := by
  cases place : Place.ofMember key with
  | data => rfl
  | schema =>
      obtain rfl := Place.ofMember_eq_schema_iff.mp place
      revert h
      decide
  | schemaMap =>
      have named := Place.ofMember_eq_schemaMap_iff.mp place
      simp only [schemaMaps, List.mem_cons, List.not_mem_nil, or_false] at named
      obtain rfl | rfl := named <;> revert h <;> decide
  | schemaList =>
      have named := Place.ofMember_eq_schemaList_iff.mp place
      simp only [schemaLists, List.mem_cons, List.not_mem_nil, or_false] at named
      obtain rfl | rfl | rfl := named <;> revert h <;> decide

theorem core_set {key : String} (h : isAllowedSibling key = true) (members : Members)
    (value : Json) : core (Members.set members key value) = core members := by
  induction members with
  | nil => simp [core, Members.set, h]
  | cons member rest ih =>
      obtain ⟨name, old⟩ := member
      unfold core at ih ⊢
      by_cases same : name = key
      · subst same
        simp [Members.set, h]
      · simp [Members.set, same, List.filter_cons, ih]

/-- Members are put in one after another, all of them allowed. -/
theorem foldlM_mergeSibling_cons {place : String} {sibling : String × Json}
    {rest target merged : Members} :
    (sibling :: rest).foldlM (mergeSibling place) target = .ok merged ↔
      isAllowedSibling sibling.1 = true ∧
        rest.foldlM (mergeSibling place) (Members.set target sibling.1 sibling.2) = .ok merged := by
  rw [List.foldlM_cons, except_bind_eq_ok, mergeSibling]
  split
  · rename_i allowed
    simp [allowed]
  · rename_i refused
    simp [refused]

theorem core_of_foldlM {place : String} {siblings target merged : Members}
    (h : siblings.foldlM (mergeSibling place) target = .ok merged) : core merged = core target := by
  induction siblings generalizing target with
  | nil =>
      rw [Except.ok.inj h]
  | cons sibling rest ih =>
      obtain ⟨allowed, put⟩ := foldlM_mergeSibling_cons.mp h
      rw [ih put, core_set allowed]

/-- The values are the same but for members that may stand beside a reference. -/
inductive SameCore : Json → Json → Prop
  | refl (value : Json) : SameCore value value
  | obj {members others : Members} (h : core members = core others) :
      SameCore (.obj members) (.obj others)

theorem SameCore.symm {value other : Json} (h : SameCore value other) : SameCore other value := by
  cases h with
  | refl => exact .refl _
  | obj h => exact .obj h.symm

theorem SameCore.trans {first second third : Json} (h : SameCore first second)
    (h' : SameCore second third) : SameCore first third := by
  cases h with
  | refl => exact h'
  | obj h =>
      cases h' with
      | refl => exact .obj h
      | obj h' => exact .obj (h.trans h')

/-- Whatever is put into the target of a reference, its core stays. -/
theorem sameCore_of_merge {target merged : Json} {node : Members} {place : String}
    (h : merge target node place = .ok merged) : SameCore target merged := by
  unfold merge at h
  split at h
  · rename_i members
    obtain ⟨result, put, rfl⟩ := except_map_eq_ok.mp h
    exact .obj (core_of_foldlM put).symm
  · split at h
    · rw [Except.ok.inj h]
      exact .refl _
    · cases h

/-- Values of one core are references with the same text, if they are references. -/
theorem get?_ref_of_core {members others : Members} (h : core members = core others) :
    Members.get? members "$ref" = Members.get? others "$ref" := by
  have kept (members : Members) :
      Members.get? (core members) "$ref" = Members.get? members "$ref" :=
    @Members.get?_filter (fun key => !isAllowedSibling key) "$ref" (by simp [isAllowedSibling_ref])
      members
  rw [← kept members, h, kept others]

end Reference

namespace Expansion

open Reference

theorem referencesOfMembers_core (path : String) (members : Members) :
    referencesOfMembers Place.ofMember path members =
      referencesOfMembers Place.ofMember path (core members) := by
  induction members with
  | nil => rfl
  | cons member rest ih =>
      obtain ⟨key, value⟩ := member
      unfold core at ih ⊢
      cases allowed : isAllowedSibling key with
      | true =>
          have none : references (Place.ofMember key) (Pointer.join path [key]) value = [] := by
            rw [ofMember_of_isAllowedSibling allowed]
            exact references_of_keeps rfl
          simp [referencesOfMembers, none, allowed, ih]
      | false => simp [referencesOfMembers, allowed, ih]

theorem references_of_has {members : Members} (h : Members.has members "$ref" = true)
    (path : String) : references .schema path (.obj members) = [(members, path)] := by
  simp [references, h]

/-- Objects of one core that are no references have the same references below them. -/
theorem references_of_core {members others : Members} (same : core members = core others)
    (h : Members.has members "$ref" = false) (path : String) :
    references .schema path (.obj members) = references .schema path (.obj others) := by
  have h' : Members.has others "$ref" = false := by
    rwa [Members.has, ← get?_ref_of_core same]
  simp only [references, h, h', Bool.false_eq_true, if_false]
  rw [referencesOfMembers_core path members, same, ← referencesOfMembers_core path others]

end Expansion

end SchemaForms
