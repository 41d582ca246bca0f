import Mathlib.Algebra.Group.Nat.Defs
import Mathlib.Data.Nat.Digits.Defs
import SchemaForms.Pointer

/-!
# Tokens as indices

A token is the index of an element if it is a row of ASCII digits that writes the number of the
element. Zeros may stand in front of it. How many digits are read is limited, and a longer row cannot
be read at all, unless there is an element whose own number is written in this way: no array in memory
is as long as that (`index_of_overlong`). `Overlong` tokens are the only ones that stop a pointer
without telling that nothing is there.
-/

namespace SchemaForms

namespace Text

/-- A number has more digits than the limit if it is not below the power of ten with so many zeros. -/
theorem digitLimit_lt_length_iff {n : Nat} :
    digitLimit < (Nat.toDigits 10 n).length ↔ 10 ^ digitLimit ≤ n := by
  rw [← Nat.not_le, Nat.length_toDigits_le_iff (by decide) (by decide), Nat.not_lt]

theorem isDigit_of_mem_toString {number : Nat} {c : Char} (mem : c ∈ (toString number).toList) :
    c.isDigit = true := by
  rw [Nat.toString_eq_ofList_toDigits, String.toList_ofList] at mem
  exact Nat.isDigit_of_mem_toDigits (by decide) (by decide) mem

/-- Digits of ASCII are read as the number that they write in base ten. -/
theorem mapM_asciiDigit? {cs : List Char} (h : ∀ c ∈ cs, c.isDigit = true) (start : Nat) :
    ∃ digits, cs.mapM asciiDigit? = some digits ∧ digits.length = cs.length ∧
      digits.foldl (fun n d => n * 10 + d) start = Nat.ofDigitChars 10 cs start := by
  induction cs generalizing start with
  | nil => exact ⟨[], rfl, rfl, rfl⟩
  | cons c rest ih =>
      obtain ⟨head, tail⟩ := List.forall_mem_cons.mp h
      obtain ⟨digits, read, length, value⟩ := ih tail (10 * start + (c.toNat - '0'.toNat))
      refine ⟨(c.toNat - '0'.toNat) :: digits, ?_, by simp [length], ?_⟩
      · simp [asciiDigit?, head, read]
      · rw [List.foldl_cons, Nat.ofDigitChars_cons, ← value, Nat.mul_comm start]

theorem isDigit_of_mapM {cs : List Char} {digits : List Nat}
    (h : cs.mapM asciiDigit? = some digits) : cs.all Char.isDigit = true := by
  induction cs generalizing digits with
  | nil => rfl
  | cons c rest ih =>
      rw [List.mapM_cons] at h
      obtain ⟨digit, head, h⟩ := Option.bind_eq_some_iff.mp h
      obtain ⟨more, tail, -⟩ := Option.bind_eq_some_iff.mp h
      unfold asciiDigit? at head
      split at head
      · rename_i isDigit
        rw [List.all_cons, isDigit, ih tail]
        rfl
      · cases head

end Text

namespace Pointer

open Text

/-- A token is the index of an element if it writes a number below the length of the array. With too
many digits it has to be written as numbers are. -/
theorem index_eq_some {token : String} {length number : Nat} :
    index token length = .ok (some number) ↔
      ∃ digits, token.toList.mapM asciiDigit? = some digits ∧ digits ≠ [] ∧
        ofDigits 10 digits = number ∧ number < length ∧
        (digits.length ≤ digitLimit ∨ token = toString number) := by
  unfold index readDecimal
  split
  · rename_i none
    simp [none]
  · rename_i none
    simp [none]
  · rename_i digits some read
    simp only [read, Option.some.injEq, exists_eq_left']
    by_cases long : digitLimit < digits.length
    · simp only [if_pos long]
      split <;> grind
    · simp only [if_neg long]
      grind

/-- The token is a row of ASCII digits that is too long for an index. -/
def Overlong (token : String) : Prop :=
  token.toList.all Char.isDigit = true ∧ digitLimit < token.length

instance (token : String) : Decidable (Overlong token) :=
  inferInstanceAs (Decidable (_ ∧ _))

theorem overlong_of_index {token : String} {length : Nat} {fault : DigitFault}
    (h : index token length = .error fault) : Overlong token := by
  unfold index readDecimal at h
  split at h
  · cases h
  · cases h
  · rename_i digits _ read
    have ascii := isDigit_of_mapM read
    obtain ⟨digits', read', size, -⟩ := mapM_asciiDigit? (List.all_eq_true.mp ascii) 0
    cases read.symm.trans read'
    refine ⟨ascii, ?_⟩
    rw [← String.length_toList, ← size]
    grind

/-- Such a token is at fault in every array whose elements have numbers that can be written. -/
theorem index_of_overlong {token : String} {length : Nat} (long : Overlong token)
    (few : length ≤ 10 ^ digitLimit) : index token length = .error (.read token.length) := by
  obtain ⟨digits, read, size, -⟩ := mapM_asciiDigit? (List.all_eq_true.mp long.1) 0
  rw [String.length_toList] at size
  have many : digitLimit < digits.length := size ▸ long.2
  have unwritten : ¬ (ofDigits 10 digits < length ∧ token = toString (ofDigits 10 digits)) := by
    rintro ⟨less, same⟩
    have long := long.2
    rw [same, Nat.toString_eq_ofList_toDigits, String.length_ofList, digitLimit_lt_length_iff]
      at long
    exact absurd (Nat.lt_of_lt_of_le less few) (Nat.not_lt.mpr long)
  unfold index readDecimal
  rw [read]
  cases digits with
  | nil => cases many
  | cons digit digits => simp only [if_pos many, if_neg unwritten, ← size]

/-- A token of the pointer is too long for an index. -/
def HasOverlong (pointer : String) : Prop :=
  ∃ token ∈ tokens pointer, Overlong token

instance (pointer : String) : Decidable (HasOverlong pointer) :=
  inferInstanceAs (Decidable (∃ token ∈ tokens pointer, Overlong token))

theorem overlong_of_child {value : Json} {token : String} {fault : DigitFault}
    (h : child value token = .error (.digits fault)) : Overlong token := by
  unfold child at h
  split at h
  · split at h <;> cases h
  · split at h
    · rename_i read
      exact overlong_of_index read
    · split at h <;> cases h
  · cases h

/-- A row of tokens is followed to where there is nothing, unless one of them is too long. -/
theorem overlong_of_descend {value : Json} {row : List String} {fault : DigitFault}
    (h : descend value row = .error (.digits fault)) : ∃ token ∈ row, Overlong token := by
  induction row generalizing value with
  | nil => cases h
  | cons token rest ih =>
      rw [descend_cons] at h
      cases first : child value token with
      | error other =>
          rw [first] at h
          obtain rfl := Except.error.inj h
          exact ⟨token, List.mem_cons_self, overlong_of_child first⟩
      | ok inner =>
          rw [first] at h
          obtain ⟨later, mem, long⟩ := ih h
          exact ⟨later, List.mem_cons_of_mem _ mem, long⟩

/-- An index of an array is read as it was written. -/
theorem index_toString {number length : Nat} (h : number < length) :
    index (toString number) length = .ok (some number) := by
  have ascii : ∀ c ∈ Nat.toDigits 10 number, c.isDigit = true := fun c mem =>
    Nat.isDigit_of_mem_toDigits (by decide) (by decide) mem
  obtain ⟨digits, read, size, value⟩ := mapM_asciiDigit? ascii 0
  refine index_eq_some.mpr ⟨digits, ?_, ?_, value.trans Nat.ofDigitChars_ten_toDigits, h, .inr rfl⟩
  · rw [Nat.toString_eq_ofList_toDigits, String.toList_ofList, read]
  · rintro rfl
    exact Nat.toDigits_ne_nil (List.length_eq_zero_iff.mp size.symm)

end Pointer

end SchemaForms
