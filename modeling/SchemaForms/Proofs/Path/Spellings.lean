import SchemaForms.Proofs.Path.Containment

/-!
# Spellings of a path

A path can be written in many ways: with `.`, with `..` behind a name, and with slashes one behind
the other. The normal form of a path from the root is determined by the names that are left of it,
and by whether two slashes stand in front, which may have a meaning of their own; that of a name
inside a loader's root is determined by the names alone.
-/

namespace SchemaForms.Path

/-- The path has two slashes in front, which a normal path keeps. -/
def isDoubled (path : String) : Bool :=
  leadingSlashes path.toList = 2

/-- The normal path from the root with the given names. -/
def fileOf (doubled : Bool) (steps : List String) : String :=
  written (bif doubled then 2 else 1) steps

/-- The normal name inside a loader's root with the given names. -/
def nameOf (steps : List String) : String :=
  if steps = [] then "." else Text.join '/' steps

variable {path : String} {steps steps' : List String} {doubled doubled' : Bool}

/-- The names of a path that is written with the names that a walk has passed are these names. -/
theorem components_written {slashes : Nat} (le : slashes ≤ 2)
    (passed : Passed (decide (slashes ≠ 0)) steps.reverse) :
    components (written slashes steps) = steps := by
  have plain : ∀ name ∈ steps, Plain name := fun name mem =>
    passed.plain name (List.mem_reverse.mpr mem)
  rw [components_eq, names_written slashes plain, isAbsolute_eq, leadingSlashes_written le plain]
  exact resolve_of_passed passed

section Files

theorem slashes_le (doubled : Bool) : (bif doubled then 2 else 1) ≤ 2 := by
  cases doubled <;> decide

theorem slashes_ne_zero (doubled : Bool) : (bif doubled then 2 else 1) ≠ 0 := by
  cases doubled <;> decide

/-- The normal form of a path from the root is written with what is left of it. -/
theorem normalize_of_absolute (rooted : isAbsolute path = true) :
    normalize path = fileOf (isDoubled path) (components path) := by
  have le := leadingSlashes_le path.toList
  have ne := isAbsolute_iff.mp rooted
  have front : leadingSlashes path.toList = bif isDoubled path then 2 else 1 := by
    by_cases two : leadingSlashes path.toList = 2
    · simp [isDoubled, two]
    · simp only [isDoubled, two, decide_false, cond_false]
      omega
  rw [normalize_eq, rooted, if_neg (by simp), front, fileOf]

theorem components_fileOf (passed : Passed true steps.reverse) :
    components (fileOf doubled steps) = steps :=
  components_written (slashes_le doubled) (by rwa [decide_eq_true (slashes_ne_zero doubled)])

theorem leadingSlashes_fileOf (plain : ∀ name ∈ steps, Plain name) :
    leadingSlashes (fileOf doubled steps).toList = bif doubled then 2 else 1 :=
  leadingSlashes_written (slashes_le doubled) plain

theorem isDoubled_fileOf (plain : ∀ name ∈ steps, Plain name) :
    isDoubled (fileOf doubled steps) = doubled := by
  rw [isDoubled, leadingSlashes_fileOf plain]
  cases doubled <;> rfl

theorem isAbsolute_fileOf (plain : ∀ name ∈ steps, Plain name) :
    isAbsolute (fileOf doubled steps) = true := by
  rw [isAbsolute_iff, leadingSlashes_fileOf plain]
  exact slashes_ne_zero doubled

theorem directory_fileOf (plain : ∀ name ∈ steps, Plain name) :
    directory (fileOf doubled steps) = fileOf doubled steps.dropLast :=
  directory_written _ plain

/-- A normal path from the root tells its names, and whether two slashes are in front of them. -/
theorem fileOf_inj (plain : ∀ name ∈ steps, Plain name) (plain' : ∀ name ∈ steps', Plain name)
    (same : fileOf doubled steps = fileOf doubled' steps') :
    doubled = doubled' ∧ steps = steps' := by
  have front : isDoubled (fileOf doubled steps) = doubled := isDoubled_fileOf plain
  have behind : names (fileOf doubled steps) = steps := names_written _ plain
  rw [same, isDoubled_fileOf plain'] at front
  rw [same, fileOf, names_written _ plain'] at behind
  exact ⟨front.symm, behind.symm⟩

end Files

section Names

/-- What is left of a path could be left of one that does not begin at the root. -/
theorem passed_false_components (path : String) : Passed false (components path).reverse := by
  have passed := passed_components path
  cases rooted : isAbsolute path with
  | false => rwa [rooted] at passed
  | true =>
      apply passed.relative
      rw [List.mem_reverse]
      exact up_not_mem_components rooted

/-- The clean name of a path has what is left of the path, once it is normal itself. -/
theorem normalize_dropSlashes_normalize (path : String) :
    normalize (dropSlashes (normalize path)) = nameOf (components path) := by
  rw [Sandbox.dropSlashes_normalize, nameOf]
  by_cases nothing : components path = []
  · rw [if_pos nothing, nothing]
    split <;> decide
  · rw [if_neg nothing, if_neg (fun h => nothing h.2)]
    exact normalize_join nothing (passed_false_components path)

theorem components_nameOf (passed : Passed false steps.reverse) :
    components (nameOf steps) = steps := by
  rw [nameOf]
  split
  · rename_i nothing
    rw [nothing]
    decide
  · rw [← written_zero]
    exact components_written (Nat.zero_le 2) (by simpa using passed)

theorem directory_nameOf (plain : ∀ name ∈ steps, Plain name) :
    (if directory (nameOf steps) = "" then "." else directory (nameOf steps)) =
      nameOf steps.dropLast := by
  have plain' : ∀ name ∈ steps.dropLast, Plain name := fun name mem =>
    plain name (List.dropLast_subset _ mem)
  rw [nameOf]
  split
  · rename_i nothing
    rw [nothing]
    decide
  · rw [← written_zero, directory_written 0 plain, written_zero, nameOf]
    by_cases above : steps.dropLast = []
    · rw [above]
      decide
    · have some : Text.join '/' steps.dropLast ≠ "" := by
        intro empty
        have own := names_join plain'
        rw [empty, names_empty] at own
        exact above own.symm
      rw [if_neg some, if_neg above]

theorem isAbsolute_nameOf (plain : ∀ name ∈ steps, Plain name) :
    isAbsolute (nameOf steps) = false := by
  rw [nameOf]
  split
  · decide
  · rw [← written_zero, isAbsolute_eq, leadingSlashes_written (Nat.zero_le 2) plain]
    rfl

end Names

end SchemaForms.Path
