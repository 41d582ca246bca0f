import Mathlib.Data.List.DropRight
import SchemaForms.Text.Blank

/-!
# Trimmed texts

A text is trimmed if neither end of it is blank. Trimming makes a text so, and leaves it as it is if
it was so before. Texts that are put together of trimmed ones are trimmed.
-/

namespace SchemaForms.Text

variable {α : Type} {p : α → Bool} {xs ys : List α}

/-- Neither end of the list satisfies `p`. -/
structure Trimmed (p : α → Bool) (xs : List α) : Prop where
  head : ∀ x ∈ xs.head?, p x = false
  last : ∀ x ∈ xs.getLast?, p x = false

theorem trimWhere_of_trimmed (h : Trimmed p xs) : trimWhere p xs = xs := by
  have front : xs.dropWhile p = xs := by
    cases xs with
    | nil => rfl
    | cons x rest => rw [List.dropWhile_cons, h.head x rfl, if_neg (by simp)]
  show (xs.dropWhile p).rdropWhile p = xs
  rw [front, List.rdropWhile_eq_self_iff]
  intro ne
  rw [h.last _ (List.getLast?_eq_some_getLast ne)]
  simp

theorem trimmed_trimWhere (p : α → Bool) (xs : List α) : Trimmed p (trimWhere p xs) where
  head x mem := by
    have first : (xs.dropWhile p).head? = some x := by
      obtain ⟨rest, whole⟩ := List.rdropWhile_prefix p (xs.dropWhile p)
      rw [← whole, List.head?_append]
      rw [show (xs.dropWhile p).rdropWhile p = trimWhere p xs from rfl, Option.mem_def.mp mem]
      rfl
    have not := List.head?_dropWhile_not p xs
    rwa [first] at not
  last x mem := by
    have ne : trimWhere p xs ≠ [] := by
      rintro nil
      rw [nil] at mem
      cases mem
    have not := List.rdropWhile_last_not p (xs.dropWhile p) ne
    rw [List.getLast?_eq_some_getLast ne] at mem
    obtain rfl := Option.some.inj mem
    exact eq_false_of_ne_true not

theorem Trimmed.append (h : Trimmed p xs) (h' : Trimmed p ys) (some : xs ≠ []) (some' : ys ≠ []) :
    Trimmed p (xs ++ ys) where
  head x mem := h.head x (by rwa [List.head?_append_of_ne_nil _ some] at mem)
  last x mem := h'.last x (by rwa [List.getLast?_append_of_ne_nil _ some'] at mem)

theorem Trimmed.cons {x : α} (h : Trimmed p xs) (front : p x = false) : Trimmed p (x :: xs) := by
  have single : Trimmed p [x] := ⟨by simpa using front, by simpa using front⟩
  by_cases some : xs = []
  · rwa [some]
  · exact single.append h (by simp) some

theorem trim_eq_self_iff {s : String} : trim s = s ↔ Trimmed isBlank s.toList := by
  rw [← String.toList_inj, toList_trim]
  constructor
  · intro same
    rw [← same]
    exact trimmed_trimWhere isBlank s.toList
  · exact trimWhere_of_trimmed

@[simp] theorem trim_trim (s : String) : trim (trim s) = trim s := by
  rw [trim_eq_self_iff, toList_trim]
  exact trimmed_trimWhere isBlank s.toList

theorem trim_append {first second : String} (own : trim first = first) (own' : trim second = second)
    (ne : first ≠ "") (ne' : second ≠ "") : trim (first ++ second) = first ++ second := by
  rw [trim_eq_self_iff] at own own' ⊢
  rw [String.toList_append]
  exact own.append own' (mt String.toList_eq_nil_iff.mp ne) (mt String.toList_eq_nil_iff.mp ne')

end SchemaForms.Text
