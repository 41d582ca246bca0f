import SchemaForms.Proofs.Path.Normal
import SchemaForms.Reference.Origin
import SchemaForms.Reference.Sandbox

/-!
# What the sandbox lets pass

The sandbox compares texts: it looks whether a relative path begins with two dots, or a name with
the name of a directory. Here that is turned into what it is for. The path of a file that passes has
the names of the directory in front, and so has the name of a resource that passes, which moreover
never goes up.
-/

namespace SchemaForms

namespace Origin

/-- The directory of a resource is that of the loader's root, or a normal name. -/
theorem directory_fs (current location : String) :
    (ofSource current ⟨.fs, location⟩).directory = "." ∨
      ∃ steps, steps ≠ [] ∧ Path.Passed false steps.reverse ∧
        (ofSource current ⟨.fs, location⟩).directory = Text.join '/' steps := by
  have relative := Path.isAbsolute_dropSlashes location
  have passed := Path.passed_components (Path.dropSlashes location)
  have plain := Path.plain_components (Path.dropSlashes location)
  simp only [ofSource, Path.normalize_of_relative relative]
  rw [relative] at passed
  generalize Path.components (Path.dropSlashes location) = steps at passed plain ⊢
  by_cases nothing : steps = []
  · rw [if_pos nothing]
    exact .inl (by decide)
  · rw [if_neg nothing, ← Path.written_zero, Path.directory_written 0 plain, Path.written_zero]
    by_cases above : steps.dropLast = []
    · rw [above]
      exact .inl (by decide)
    · refine .inr ⟨steps.dropLast, above, ?_, if_neg ?_⟩
      · rw [← List.tail_reverse]
        exact passed.tail
      · intro empty
        have names := Path.names_join fun name mem => plain name (List.dropLast_subset _ mem)
        rw [empty, Path.names_empty] at names
        exact above names.symm

end Origin

namespace Sandbox

variable {options : ResolveOptions} {current root directory path ref place candidate : String}

/-- A file passes if the names of the root's directory lie in front of its own. -/
theorem names_of_cleanFile (closed : options.allowTraversal = false)
    (passes : cleanFile options current root directory path ref place = .ok candidate) :
    Path.normalize candidate = candidate ∧
      Path.names (Path.absolute current root) <+: Path.names (Path.absolute current candidate) := by
  unfold cleanFile at passes
  simp only [closed, Bool.false_or] at passes
  split at passes
  · rename_i within
    obtain rfl := Except.ok.inj passes
    refine ⟨Path.normalize_normalize _, Path.names_prefix_of_not_climbs ?_⟩
    simpa [inside] using within
  · cases passes

theorem names_prefix_of_nameInside {name : String} (h : nameInside root name = true) :
    Path.names root <+: Path.names name := by
  unfold nameInside at h
  rw [Bool.or_eq_true, Bool.or_eq_true, decide_eq_true_eq, decide_eq_true_eq] at h
  obtain (rfl | rfl) | below := h
  · rw [Path.names_empty]
    exact List.nil_prefix
  · exact List.prefix_refl _
  · obtain ⟨rest, text⟩ := List.isPrefixOf_iff_prefix.mp below
    have split : name = root ++ "/" ++ String.ofList rest := by
      rw [← String.toList_inj, ← text]
      simp
    rw [split, Path.names_append_slash]
    exact List.prefix_append _ _

theorem cleanName_eq_ok (closed : options.allowTraversal = false)
    (passes : cleanName options root directory path ref place = .ok candidate) :
    candidate = Path.dropSlashes (Path.normalize (Path.append directory path)) ∧
      Path.climbs candidate = false ∧
      nameInside (if Path.dropSlashes (Path.normalize root) = "." then ""
        else Path.dropSlashes (Path.normalize root)) candidate = true := by
  simp only [cleanName, closed, Bool.false_or] at passes
  obtain ⟨within, same⟩ | ⟨_, none⟩ := ite_eq_iff.mp passes
  · obtain rfl := Except.ok.inj same
    rw [Bool.and_eq_true, Bool.not_eq_true'] at within
    exact ⟨rfl, within⟩
  · cases none

/-- A clean name that does not begin with `..` has none, and is its own clean name unless nothing is
left of it. -/
theorem level_of_not_climbs (path : String)
    (level : Path.climbs (Path.dropSlashes (Path.normalize path)) = false) :
    Path.dropSlashes (Path.normalize path) = "" ∨
      Path.normalize (Path.dropSlashes (Path.dropSlashes (Path.normalize path))) =
          Path.dropSlashes (Path.normalize path) ∧
        ".." ∉ Path.names (Path.dropSlashes (Path.normalize path)) := by
  have passed := Path.passed_components path
  have plain := Path.plain_components path
  rw [Path.normalize_eq] at level ⊢
  generalize Path.components path = steps at passed plain level ⊢
  split
  · exact .inr (by decide)
  · rename_i something
    rw [if_neg something, Path.dropSlashes_written _ plain] at level
    rw [Path.dropSlashes_written _ plain]
    cases steps with
    | nil => exact .inl rfl
    | cons first rest =>
        have ahead : first ≠ ".." := by
          rintro rfl
          rw [Path.climbs_join] at level
          cases level
        have noUp : ".." ∉ (first :: rest).reverse := by
          intro mem
          have last := (passed.up_first mem).2
          rw [List.getLast?_reverse, List.head?_cons, Option.some_inj] at last
          exact ahead last
        refine .inr ⟨?_, ?_⟩
        · rw [← Path.written_zero, Path.dropSlashes_written _ plain]
          exact Path.normalize_join (by simp) (passed.relative noUp)
        · rw [Path.names_join plain, ← List.mem_reverse]
          exact noUp

/-- A resource passes if its clean name never goes up and has the names of the root's directory in
front. -/
theorem names_of_cleanName (closed : options.allowTraversal = false)
    (normal : root = "." ∨ ∃ steps, steps ≠ [] ∧ Path.Passed false steps.reverse ∧
      root = Text.join '/' steps)
    (passes : cleanName options root directory path ref place = .ok candidate) :
    ".." ∉ Path.names (Path.normalize (Path.dropSlashes candidate)) ∧
      (root = "." ∨
        Path.names root <+: Path.names (Path.normalize (Path.dropSlashes candidate))) := by
  obtain ⟨written, level, within⟩ := cleanName_eq_ok closed passes
  have below : root = "." ∨ Path.names root <+: Path.names candidate := by
    obtain rfl | ⟨steps, ne, passed, rfl⟩ := normal
    · exact .inl rfl
    · have plain : ∀ name ∈ steps, Path.Plain name := fun name mem =>
        passed.plain name (List.mem_reverse.mpr mem)
      rw [Path.normalize_join ne passed, ← Path.written_zero, Path.dropSlashes_written _ plain]
        at within
      split at within
      · rename_i here
        exact .inl here
      · exact .inr (names_prefix_of_nameInside within)
  rw [written] at level
  have cleaned := level_of_not_climbs _ level
  rw [← written] at cleaned
  obtain rfl | ⟨same, noUp⟩ := cleaned
  · refine ⟨by decide, below.imp_right fun front => ?_⟩
    rw [Path.names_empty, List.prefix_nil] at front
    rw [front]
    exact List.nil_prefix
  · rw [same]
    exact ⟨noUp, below⟩

end Sandbox

end SchemaForms
