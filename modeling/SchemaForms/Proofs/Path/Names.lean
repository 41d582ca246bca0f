import Mathlib.Data.List.Basic
import Mathlib.Data.List.TakeWhile
import SchemaForms.Path

/-!
# Names on paths

What lies where on a disk is decided by the names on a path, and what programs compute with are its
characters. The laws here lead from the one to the other: how names come out of texts that are put
together with slashes, and which names the directory of a path has.
-/

namespace SchemaForms.Path

/-- Text that can stand between two slashes of a path. -/
structure Plain (name : String) : Prop where
  ne_empty : name ≠ ""
  noSlash : '/' ∉ name.toList

namespace Plain

theorem toList_ne_nil {name : String} (h : Plain name) : name.toList ≠ [] := by
  intro empty
  exact h.ne_empty (String.toList_eq_nil_iff.mp empty)

end Plain

theorem plain_of_mem_names {path name : String} (h : name ∈ names path) : Plain name := by
  obtain ⟨cut, ne⟩ := List.mem_filter.mp h
  obtain ⟨piece, among, rfl⟩ := List.mem_map.mp cut
  refine ⟨by simpa using ne, ?_⟩
  rw [String.toList_ofList]
  exact Text.not_mem_of_mem_pieces among

@[simp] theorem names_empty : names "" = [] := by decide

theorem names_append_slash (before after : String) :
    names (before ++ "/" ++ after) = names before ++ names after := by
  have text : (before ++ "/" ++ after).toList = before.toList ++ '/' :: after.toList := by simp
  simp only [names, Text.split, text, Text.pieces_append, List.map_append, List.filter_append]

theorem names_slash (path : String) : names ("/" ++ path) = names path := by
  simpa using names_append_slash "" path

/-- Names that are joined with slashes are the names on the path that they give. -/
theorem names_join {steps : List String} (h : ∀ name ∈ steps, Plain name) :
    names (Text.join '/' steps) = steps := by
  by_cases empty : steps = []
  · subst empty
    exact names_empty
  · have noSlash : ∀ text ∈ steps.map String.toList, '/' ∉ text := by
      intro text mem
      obtain ⟨name, among, rfl⟩ := List.mem_map.mp mem
      exact (h name among).noSlash
    have kept : steps.filter (· ≠ "") = steps := by
      rw [List.filter_eq_self]
      intro name mem
      simpa using (h name mem).ne_empty
    rw [names, Text.split, Text.join, String.toList_ofList,
      Text.pieces_joinChars (by simpa using empty) noSlash, List.map_map]
    simpa [Function.comp_def] using kept

theorem joinChars_append {first rest : List (List Char)} (ne : first ≠ []) (more : rest ≠ []) :
    Text.joinChars '/' (first ++ rest) =
      Text.joinChars '/' first ++ '/' :: Text.joinChars '/' rest := by
  induction first with
  | nil => exact absurd rfl ne
  | cons text first ih =>
      cases first with
      | nil =>
          cases rest with
          | nil => exact absurd rfl more
          | cons next rest => rfl
      | cons next first =>
          rw [List.cons_append, List.cons_append, Text.joinChars, ← List.cons_append, ih (by simp)]
          · simp [Text.joinChars]
          · simp

theorem joinChars_concat {before : List (List Char)} (ne : before ≠ []) (last : List Char) :
    Text.joinChars '/' (before ++ [last]) = Text.joinChars '/' before ++ '/' :: last :=
  joinChars_append ne (List.cons_ne_nil last [])

theorem joinChars_end {steps : List String} (ne : steps ≠ [])
    (h : ∀ name ∈ steps, Plain name) :
    ∃ front c, Text.joinChars '/' (steps.map String.toList) = front ++ [c] ∧ c ≠ '/' := by
  obtain ⟨before, last, rfl⟩ := (List.eq_nil_or_concat' steps).resolve_left ne
  have plain := h last (by simp)
  obtain ⟨front, c, split⟩ := (List.eq_nil_or_concat' last.toList).resolve_left plain.toList_ne_nil
  have noSlash : c ≠ '/' := by
    rintro rfl
    exact plain.noSlash (by simp [split])
  rw [List.map_append, List.map_singleton]
  by_cases empty : before = []
  · subst empty
    exact ⟨front, c, split, noSlash⟩
  · rw [joinChars_concat (by simpa using empty), split]
    exact ⟨_, c, by rw [List.append_cons, ← List.append_assoc], noSlash⟩

/-- The path with slashes in front and the names behind them. -/
def written (slashes : Nat) (steps : List String) : String :=
  String.ofList (List.replicate slashes '/' ++ Text.joinChars '/' (steps.map String.toList))

theorem written_zero (steps : List String) : written 0 steps = Text.join '/' steps := rfl

theorem written_succ (slashes : Nat) (steps : List String) :
    written (slashes + 1) steps = "/" ++ written slashes steps := by
  rw [← String.toList_inj]
  simp [written, List.replicate_succ]

theorem names_written {steps : List String} (slashes : Nat) (h : ∀ name ∈ steps, Plain name) :
    names (written slashes steps) = steps := by
  induction slashes with
  | zero => exact names_join h
  | succ slashes ih => rw [written_succ, names_slash, ih]

/-- The directory of a path has all names but the last. -/
theorem directory_written {steps : List String} (slashes : Nat) (h : ∀ name ∈ steps, Plain name) :
    directory (written slashes steps) = written slashes steps.dropLast := by
  have slashesOnly : (List.replicate slashes '/').dropWhile (· ≠ '/') =
      List.replicate slashes '/' := by
    cases slashes <;> simp [List.replicate_succ]
  obtain rfl | ⟨before, last, rfl⟩ := List.eq_nil_or_concat' steps
  · simp [directory, written, Text.joinChars]
  · have past : ∀ c ∈ last.toList.reverse, decide (c ≠ '/') = true := by
      intro c mem
      have noSlash := (h last (by simp)).noSlash
      simp only [decide_eq_true_eq]
      rintro rfl
      exact noSlash (List.mem_reverse.mp mem)
    rw [List.dropLast_concat, written, directory, String.toList_ofList, List.map_append,
      List.map_singleton]
    by_cases empty : before = []
    · subst empty
      rw [List.map_nil, List.nil_append, Text.joinChars, List.reverse_append,
        List.dropWhile_append_of_pos past, List.reverse_replicate, slashesOnly]
      simp [written, Text.joinChars]
    · obtain ⟨start, c, ends, noSlash⟩ := joinChars_end empty fun name mem =>
        h name (List.mem_append_left _ mem)
      rw [joinChars_concat (by simpa using empty), List.reverse_append, List.reverse_append,
        List.reverse_cons, List.append_assoc, List.append_assoc, List.dropWhile_append_of_pos past]
      simp [ends, noSlash, written]

end SchemaForms.Path
