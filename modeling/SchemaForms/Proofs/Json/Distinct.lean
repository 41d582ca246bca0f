import SchemaForms.Proofs.Json.Members
import SchemaForms.Proofs.Json.Opening

/-!
# Names that occur once

In a value that is `Distinct` the members of each object have different names, so a member is known
by its name. Every value that is read from octets is of that kind, whatever the text says: of two
members with one name the reader keeps the place of the first and the value of the second.
-/

namespace SchemaForms

theorem Members.get?_of_mem {members : Members} {key : String} {value : Json}
    (distinct : (Members.keys members).Nodup) (mem : (key, value) ∈ members) :
    Members.get? members key = some value := by
  induction members with
  | nil => cases mem
  | cons member rest ih =>
      obtain ⟨name, first⟩ := member
      obtain ⟨fresh, distinct⟩ := List.nodup_cons.mp distinct
      rw [Members.get?_cons]
      obtain same | later := List.mem_cons.mp mem
      · obtain ⟨rfl, rfl⟩ := Prod.mk.inj same
        exact if_pos rfl
      · have listed : key ∈ Members.keys rest := List.mem_map.mpr ⟨(key, value), later, rfl⟩
        have other : name ≠ key := by
          rintro rfl
          exact fresh listed
        rw [if_neg other]
        exact ih distinct later

namespace Json

variable {members : Members} {elements : List Json} {value : Json}

theorem DistinctMembers.get? (distinct : DistinctMembers members) {key : String}
    (has : Members.get? members key = some value) : value.Distinct := by
  induction members with
  | nil => cases has
  | cons member rest ih =>
      obtain ⟨name, first⟩ := member
      rw [Members.get?_cons] at has
      split at has
      · cases has
        exact distinct.1
      · exact ih distinct.2 has

theorem DistinctMembers.set (distinct : DistinctMembers members) (key : String)
    (own : value.Distinct) : DistinctMembers (Members.set members key value) := by
  induction members with
  | nil => exact ⟨own, trivial⟩
  | cons member rest ih =>
      obtain ⟨name, first⟩ := member
      rw [Members.set]
      split
      · exact ⟨own, distinct.2⟩
      · exact ⟨distinct.1, ih distinct.2⟩

theorem DistinctElements.getElem? (distinct : DistinctElements elements) {number : Nat}
    (has : elements[number]? = some value) : value.Distinct := by
  induction elements generalizing number with
  | nil => cases has
  | cons first rest ih =>
      cases number with
      | zero =>
          cases has
          exact distinct.1
      | succ number => exact ih distinct.2 has

theorem distinctElements_iff : DistinctElements elements ↔ ∀ value ∈ elements, value.Distinct := by
  induction elements with
  | nil => simp [DistinctElements]
  | cons value rest ih => rw [DistinctElements, ih, List.forall_mem_cons]

/-- In an incomplete container no object has two members of one name, itself included. -/
def Frame.Distinct : Frame → Prop
  | .elements done => DistinctElements done
  | .member done _ => (Json.obj done).Distinct

theorem distinct_builds : Builds Json.Distinct Frame.Distinct where
  noElements := trivial
  noMembers := ⟨List.nodup_nil, trivial⟩
  element done own := ⟨own, done⟩
  name done _ := done
  member done own := ⟨Members.nodup_keys_set done.1 _ _, done.2.set _ own⟩
  array done := distinctElements_iff.mpr fun value mem =>
    distinctElements_iff.mp done value (List.mem_reverse.mp mem)
  object done := done
  only done := done.1

theorem IsScalar.distinct (scalar : value.IsScalar) : value.Distinct := by
  cases value with
  | arr elements => cases scalar
  | obj members => cases scalar
  | _ => trivial

/-- No object of a value that octets write has two members of one name. -/
theorem distinct_of_ofOctets {octets : List UInt8} (read : ofOctets octets = .ok value) :
    value.Distinct := by
  obtain ⟨cs, -, read⟩ := exists_chars_of_ofOctets read
  refine distinct_builds.ofTokens ?_ read
  intro token mem value scalar
  exact (bring_isScalar cs token mem value scalar).distinct

end Json

end SchemaForms
