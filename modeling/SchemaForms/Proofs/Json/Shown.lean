import Mathlib.Algebra.Group.Nat.Defs
import SchemaForms.Json.Printer
import SchemaForms.Proofs.Json.Objects
import SchemaForms.Proofs.Pointer.Indices

/-!
# What cannot be shown

A message shows a value with all that stands in it. `shown_eq_error` says what stops it: an integer
with more digits than the limit, however deep in the value it stands.
-/

namespace SchemaForms

/-- An integer is written unless it has more digits than the limit. -/
theorem Text.writeDecimal_eq_error {n : Int} {fault : DigitFault} :
    writeDecimal n = .error fault ↔ fault = .write ∧ 10 ^ digitLimit ≤ n.natAbs := by
  unfold writeDecimal
  split
  · rename_i long
    rw [Except.error.injEq, and_iff_left (digitLimit_lt_length_iff.mp long), eq_comm]
  · rename_i short
    simp [mt digitLimit_lt_length_iff.mpr short]

namespace Json

/-- An integer with more digits than the limit stands somewhere in the value. -/
def HoldsOverlong (value : Json) : Prop :=
  ∃ address n, value.at? address = some (.int n) ∧ 10 ^ Text.digitLimit ≤ n.natAbs

variable {value : Json} {elements : List Json} {members : List (String × Json)}
  {fault : Text.DigitFault}

theorem holdsOverlong_int {n : Int} : (Json.int n).HoldsOverlong ↔ 10 ^ Text.digitLimit ≤ n.natAbs := by
  constructor
  · rintro ⟨address, m, found, long⟩
    cases address with
    | nil =>
        cases found
        exact long
    | cons index address => cases found
  · intro long
    exact ⟨[], n, rfl, long⟩

theorem holdsOverlong_of_row (row : List Json) (other : ∀ n, value ≠ .int n)
    (children : ∀ index, value.child? index = row[index]?) :
    value.HoldsOverlong ↔ ∃ child ∈ row, child.HoldsOverlong := by
  constructor
  · rintro ⟨address, n, found, long⟩
    cases address with
    | nil => exact absurd (Option.some.inj found) (other n)
    | cons index address =>
        obtain ⟨child, has, inside⟩ := Option.bind_eq_some_iff.mp found
        rw [children] at has
        exact ⟨child, List.mem_of_getElem? has, address, n, inside, long⟩
  · rintro ⟨child, mem, address, n, inside, long⟩
    obtain ⟨index, has⟩ := List.mem_iff_getElem?.mp mem
    refine ⟨index :: address, n, ?_, long⟩
    rw [at?, children, has, Option.bind_some, inside]

theorem holdsOverlong_arr :
    (Json.arr elements).HoldsOverlong ↔ ∃ child ∈ elements, child.HoldsOverlong :=
  holdsOverlong_of_row elements (by simp) fun _ => rfl

theorem holdsOverlong_obj :
    (Json.obj members).HoldsOverlong ↔ ∃ member ∈ members, member.2.HoldsOverlong := by
  rw [holdsOverlong_of_row (members.map (·.2)) (by simp) fun _ => rfl]
  simp only [List.mem_map, exists_exists_and_eq_and]

/-- A value that is shown, and has neither digits nor children, holds no integer. -/
theorem shown_eq_error_of_plain {text : String} (shown : value.shown = .ok text)
    (other : ∀ n, value ≠ .int n) (alone : ∀ index, value.child? index = none) :
    value.shown = .error fault ↔ fault = .write ∧ value.HoldsOverlong := by
  rw [shown, holdsOverlong_of_row [] other alone]
  simp

/-- A row cannot be shown if its first element cannot be, or if the others cannot be. -/
theorem shownElements_cons_eq_error : shownElements (value :: elements) = .error fault ↔
    value.shown = .error fault ∨
      (∃ text, value.shown = .ok text) ∧ shownElements elements = .error fault := by
  cases elements with
  | nil => simp [shownElements]
  | cons next rest =>
      rw [shownElements]
      · cases value.shown <;> cases shownElements (next :: rest) <;>
          simp [bind, Except.bind, pure, Except.pure]
      · simp

theorem shownMembers_cons_eq_error {name : String} :
    shownMembers ((name, value) :: members) = .error fault ↔
      value.shown = .error fault ∨
        (∃ text, value.shown = .ok text) ∧ shownMembers members = .error fault := by
  cases members with
  | nil =>
      rw [shownMembers]
      cases shown : value.shown <;> simp [shown, shownMembers, Except.map]
  | cons next rest =>
      rw [shownMembers]
      · cases value.shown <;> cases shownMembers (next :: rest) <;>
          simp [bind, Except.bind, pure, Except.pure]
      · simp

/-- The one fault there is comes of the first of a row, or of the others. -/
theorem first_or_others {others : Prop}
    (own : ∀ fault, value.shown = .error fault ↔ fault = .write ∧ value.HoldsOverlong) :
    (value.shown = .error fault ∨ (∃ text, value.shown = .ok text) ∧ fault = .write ∧ others) ↔
      fault = .write ∧ (value.HoldsOverlong ∨ others) := by
  cases run : value.shown with
  | error other =>
      obtain ⟨rfl, long⟩ := (own other).mp run
      simp [long, eq_comm]
  | ok text =>
      have none : ¬ value.HoldsOverlong := fun long => by
        simpa [run] using (own .write).mpr ⟨rfl, long⟩
      simp [none]

mutual

/-- A value cannot be shown just if an integer with too many digits stands in it. -/
theorem shown_eq_error : ∀ {value : Json} {fault : Text.DigitFault},
    value.shown = .error fault ↔ fault = .write ∧ value.HoldsOverlong
  | .int n, fault => by rw [shown, Text.writeDecimal_eq_error, holdsOverlong_int]
  | .arr elements, fault => by
      rw [holdsOverlong_arr, ← shownElements_eq_error, shown]
      cases shownElements elements <;> simp [Except.map]
  | .obj members, fault => by
      rw [holdsOverlong_obj, ← shownMembers_eq_error, shown]
      cases shownMembers members <;> simp [Except.map]
  | .bool true, _ | .bool false, _ | .null, _ | .double _, _ | .str _, _ =>
      shown_eq_error_of_plain (by rw [shown]) (by simp) fun _ => rfl

theorem shownElements_eq_error : ∀ {elements : List Json} {fault : Text.DigitFault},
    shownElements elements = .error fault ↔
      fault = .write ∧ ∃ child ∈ elements, child.HoldsOverlong
  | [], _ => by simp [shownElements]
  | value :: rest, fault => by
      rw [shownElements_cons_eq_error, shownElements_eq_error, List.exists_mem_cons_iff]
      exact first_or_others fun _ => shown_eq_error

theorem shownMembers_eq_error : ∀ {members : List (String × Json)} {fault : Text.DigitFault},
    shownMembers members = .error fault ↔
      fault = .write ∧ ∃ member ∈ members, member.2.HoldsOverlong
  | [], _ => by simp [shownMembers]
  | (name, value) :: rest, fault => by
      rw [shownMembers_cons_eq_error, shownMembers_eq_error, List.exists_mem_cons_iff]
      exact first_or_others fun _ => shown_eq_error

end

end Json

end SchemaForms
