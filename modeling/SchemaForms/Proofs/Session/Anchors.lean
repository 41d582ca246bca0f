import Mathlib.Data.List.Induction
import Mathlib.Data.List.Nodup
import SchemaForms.Proofs.Pointer.Written
import SchemaForms.Proofs.Session.Load

/-!
# Tables of anchors

The table of a document's anchors is simply the list of those that its objects declare, and there
is a table just if no name is declared twice; the error is about the first that is. Their paths all
go down from that of the document.
-/

namespace SchemaForms.Anchors

theorem find?_eq_none_iff {anchors : AnchorTable} {name : String} :
    anchors.find? name = none ↔ name ∉ anchors.map (·.1) := by
  rw [AnchorTable.find?, Option.map_eq_none_iff, List.find?_eq_none]
  simp only [decide_eq_true_eq, List.mem_map, not_exists, not_and]

theorem mem_of_find? {anchors : AnchorTable} {name path : String}
    (h : anchors.find? name = some path) : (name, path) ∈ anchors := by
  obtain ⟨⟨other, _⟩, found, rfl⟩ := Option.map_eq_some_iff.mp h
  obtain rfl : other = name := by simpa using List.find?_some found
  exact List.mem_of_find?_eq_some found

/-- If no name is given twice, an anchor of the table is found by its name. -/
theorem find?_of_mem {anchors : AnchorTable} {name path : String}
    (nodup : (anchors.map (·.1)).Nodup) (mem : (name, path) ∈ anchors) :
    anchors.find? name = some path := by
  cases found : anchors.find? name with
  | none => exact absurd (List.mem_map_of_mem mem) (find?_eq_none_iff.mp found)
  | some other =>
      have same := List.inj_on_of_nodup_map nodup (mem_of_find? found) mem rfl
      rw [(Prod.mk.inj same).2]

theorem add_eq_ok {location : String} {anchors result : AnchorTable} {anchor : String × String} :
    add location anchors anchor = .ok result ↔
      anchor.1 ∉ anchors.map (·.1) ∧ result = anchors ++ [anchor] := by
  rw [← find?_eq_none_iff, add]
  cases anchors.find? anchor.1 with
  | none => simp [eq_comm]
  | some path => simp

/-- Anchors are added one by one just if their names are new and distinct. -/
theorem foldlM_add_eq_ok {location : String} {more anchors result : AnchorTable}
    (h : (anchors.map (·.1)).Nodup) :
    more.foldlM (add location) anchors = .ok result ↔
      ((anchors ++ more).map (·.1)).Nodup ∧ result = anchors ++ more := by
  induction more generalizing anchors with
  | nil => simp [h, pure, Except.pure, eq_comm]
  | cons anchor more ih =>
      have names : (anchors ++ [anchor]).map (·.1) = (anchors.map (·.1)).concat anchor.1 := by simp
      have split : anchors ++ anchor :: more = (anchors ++ [anchor]) ++ more := by simp
      rw [List.foldlM_cons, except_bind_eq_ok, split]
      constructor
      · rintro ⟨_, added, rest⟩
        obtain ⟨new, rfl⟩ := add_eq_ok.mp added
        exact (ih (names ▸ h.concat new)).mp rest
      · rintro ⟨nodup, rfl⟩
        have front : ((anchors ++ [anchor]).map (·.1)).Nodup := by
          rw [List.map_append] at nodup
          exact nodup.of_append_left
        have new : anchor.1 ∉ anchors.map (·.1) := by
          rw [names, List.nodup_concat] at front
          exact front.1
        exact ⟨_, add_eq_ok.mpr ⟨new, rfl⟩, (ih front).mpr ⟨nodup, rfl⟩⟩

/-- There is a table of anchors just if no name is declared twice, and it has all that are. -/
theorem index_eq_ok {value : Json} {location path : String} {anchors : AnchorTable} :
    index value location path = .ok anchors ↔
      ((declared path value).map (·.1)).Nodup ∧ anchors = declared path value := by
  rw [index, foldlM_add_eq_ok (by simp), List.nil_append]

/-- An anchor of a row has the name of one before it, and is the first that has. -/
def FirstRepeated (anchors : AnchorTable) (again : String × String) : Prop :=
  ∃ before after, anchors = before ++ again :: after ∧
    (before.map (·.1)).Nodup ∧ again.1 ∈ before.map (·.1)

theorem FirstRepeated.append {anchors : AnchorTable} {again : String × String}
    (h : FirstRepeated anchors again) (more : AnchorTable) :
    FirstRepeated (anchors ++ more) again := by
  obtain ⟨before, after, rfl, distinct, mem⟩ := h
  exact ⟨before, after ++ more, by simp, distinct, mem⟩

/-- Unless the names of a row of anchors are distinct, one of them is the first to come again. -/
theorem exists_firstRepeated {anchors : AnchorTable} (h : ¬ (anchors.map (·.1)).Nodup) :
    ∃ again, FirstRepeated anchors again := by
  induction anchors using List.reverseRecOn with
  | nil => exact absurd List.nodup_nil h
  | append_singleton front last ih =>
      by_cases distinct : (front.map (·.1)).Nodup
      · have mem : last.1 ∈ front.map (·.1) := by
          by_contra new
          apply h
          simpa using distinct.concat new
        exact ⟨last, front, [], rfl, distinct, mem⟩
      · obtain ⟨again, first⟩ := ih distinct
        exact ⟨again, first.append [last]⟩

/-- The first name that comes again is the one for which there is no table of anchors. -/
theorem index_eq_error {value : Json} {location path : String} {again : String × String}
    (h : FirstRepeated (declared path value) again) :
    index value location path =
      .error (.schema (.reference (.duplicateAnchor again.1)) (location ++ again.2)) := by
  obtain ⟨before, after, row, distinct, mem⟩ := h
  have added : before.foldlM (add location) [] = .ok before :=
    (foldlM_add_eq_ok (by simp)).mpr ⟨distinct, rfl⟩
  obtain ⟨path, found⟩ : ∃ path, before.find? again.1 = some path := by
    rw [← Option.ne_none_iff_exists', Ne, find?_eq_none_iff, not_not]
    exact mem
  have refused : add location before again =
      .error (.schema (.reference (.duplicateAnchor again.1)) (location ++ again.2)) := by
    rw [add, found]
  rw [index, row, List.foldlM_append, added]
  show List.foldlM (add location) before (again :: after) = _
  rw [List.foldlM_cons, refused]
  rfl

theorem join_eq {path : String} (ne : path ≠ "") (token : String) :
    ∃ rest, IsPointer rest ∧ Pointer.join path [token] = path ++ rest := by
  simp only [Pointer.join, if_neg ne, List.foldl_cons, List.foldl_nil, Pointer.extend]
  split
  · exact ⟨"", .inl rfl, by simp⟩
  · exact ⟨"/" ++ Pointer.escapeToken token, .inr (by simp [Text.startsWith]), String.append_assoc⟩

theorem join_ne_empty {path : String} (ne : path ≠ "") (token : String) :
    Pointer.join path [token] ≠ "" := by
  obtain ⟨rest, -, eq⟩ := join_eq ne token
  rw [eq]
  intro empty
  exact ne (String.append_eq_empty_iff.mp empty).1

theorem below_of_join {path token other : String} (ne : path ≠ "")
    (h : ∃ rest, IsPointer rest ∧ other = Pointer.join path [token] ++ rest) :
    ∃ rest, IsPointer rest ∧ other = path ++ rest := by
  obtain ⟨rest, pointer, rfl⟩ := h
  obtain ⟨step, first, eq⟩ := join_eq ne token
  exact ⟨step ++ rest, first.append pointer, by rw [eq, String.append_assoc]⟩

mutual

/-- The paths of the anchors of a value go down from the value's own, by pointers. -/
theorem declared_path : ∀ (value : Json) (path : String), path ≠ "" →
    ∀ anchor ∈ declared path value, ∃ rest, IsPointer rest ∧ anchor.2 = path ++ rest
  | .obj members, path, ne => by
      intro anchor mem
      rw [declared] at mem
      obtain own | below := List.mem_append.mp mem
      · obtain ⟨name, -, rfl⟩ := List.mem_map.mp own
        exact ⟨"", .inl rfl, by simp⟩
      · exact declaredMembers_path members path ne anchor below
  | .arr elements, path, ne => declaredElements_path elements path 0 ne
  | .null, _, _ | .bool _, _, _ | .int _, _, _ | .double _, _, _ | .str _, _, _ => by
      simp [declared]

theorem declaredElements_path : ∀ (elements : List Json) (path : String) (index : Nat), path ≠ "" →
    ∀ anchor ∈ declaredElements path index elements,
      ∃ rest, IsPointer rest ∧ anchor.2 = path ++ rest
  | [], _, _, _ => by simp [declaredElements]
  | value :: rest, path, index, ne => by
      intro anchor mem
      obtain head | tail := List.mem_append.mp mem
      · exact below_of_join ne (declared_path value _ (join_ne_empty ne _) anchor head)
      · exact declaredElements_path rest path (index + 1) ne anchor tail

theorem declaredMembers_path : ∀ (members : List (String × Json)) (path : String), path ≠ "" →
    ∀ anchor ∈ declaredMembers path members, ∃ rest, IsPointer rest ∧ anchor.2 = path ++ rest
  | [], _, _ => by simp [declaredMembers]
  | (key, value) :: rest, path, ne => by
      intro anchor mem
      obtain head | tail := List.mem_append.mp mem
      · split at head
        · cases head
        · exact below_of_join ne (declared_path value _ (join_ne_empty ne _) anchor head)
      · exact declaredMembers_path rest path ne anchor tail

end

end SchemaForms.Anchors
