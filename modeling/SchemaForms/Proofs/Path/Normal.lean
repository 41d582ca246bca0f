import SchemaForms.Proofs.Path.Names

/-!
# Normal paths

`Passed` describes the names that a walk along a path may have passed: a `..` comes only in front of
all other names, and from the root there is none. Every walk ends in such names, and walking along
them again passes just them. A normal path is therefore its own normal form, and two paths may be
compared by their names once they are normal.
-/

namespace SchemaForms.Path

/-- The names that a walk may have passed, last one first. -/
inductive Passed (rooted : Bool) : List String → Prop
  | start : Passed rooted []
  | up {passed : List String} (free : rooted = false) (all : ∀ name ∈ passed, name = "..")
      (before : Passed rooted passed) : Passed rooted (".." :: passed)
  | down {passed : List String} {name : String} (plain : Plain name) (stays : name ≠ ".")
      (goesOn : name ≠ "..") (before : Passed rooted passed) : Passed rooted (name :: passed)

namespace Passed

variable {rooted : Bool} {passed : List String}

theorem tail (h : Passed rooted passed) : Passed rooted passed.tail := by
  cases h with
  | start => exact .start
  | up _ _ before => exact before
  | down _ _ _ before => exact before

theorem plain (h : Passed rooted passed) : ∀ name ∈ passed, Plain name := by
  have up : Plain ".." := ⟨by decide, by decide⟩
  induction h with
  | start => simp
  | up _ all =>
      refine List.forall_mem_cons.mpr ⟨up, fun name mem => ?_⟩
      rw [all name mem]
      exact up
  | down plain _ _ _ ih => exact List.forall_mem_cons.mpr ⟨plain, ih⟩

/-- If any name goes up, the first one does, and the walk has not begun at the root. -/
theorem up_first (h : Passed rooted passed) (mem : ".." ∈ passed) :
    rooted = false ∧ passed.getLast? = some ".." := by
  induction h with
  | start => simp at mem
  | @up passed free all _ _ =>
      have every : ∀ name ∈ ".." :: passed, name = ".." := List.forall_mem_cons.mpr ⟨rfl, all⟩
      refine ⟨free, ?_⟩
      rw [List.getLast?_eq_some_getLast (by simp)]
      exact congrArg some (every _ (List.getLast_mem _))
  | @down passed name plain _ goesOn before ih =>
      obtain ⟨free, first⟩ := ih ((List.mem_cons.mp mem).resolve_left (Ne.symm goesOn))
      exact ⟨free, by rw [List.getLast?_cons, first, Option.getD_some]⟩

/-- Where no name goes up, it does not matter where the walk began. -/
theorem relative (h : Passed rooted passed) (level : ".." ∉ passed) : Passed false passed := by
  induction h with
  | start => exact .start
  | up => exact absurd List.mem_cons_self level
  | down plain stays goesOn _ ih =>
      exact .down plain stays goesOn (ih fun mem => level (List.mem_cons_of_mem _ mem))

/-- A step of a walk leads on to names that may have been passed. -/
theorem advance (h : Passed rooted passed) {component : String}
    (noSlash : '/' ∉ component.toList) : Passed rooted (advance rooted passed component) := by
  unfold Path.advance
  split
  · exact h
  · rename_i named
    rw [Bool.or_eq_true, decide_eq_true_eq, decide_eq_true_eq, not_or] at named
    split
    · split
      · split
        · exact .start
        · rename_i free
          exact .up (by simpa using free) (by simp) .start
      · rename_i last before _
        split
        · rename_i goesUp
          subst goesUp
          obtain ⟨free, -⟩ := h.up_first List.mem_cons_self
          cases h with
          | up _ all before =>
              exact .up free (List.forall_mem_cons.mpr ⟨rfl, all⟩) (.up free all before)
          | down _ _ goesOn _ => exact absurd rfl goesOn
        · exact h.tail
    · rename_i goesOn
      exact .down ⟨named.1, noSlash⟩ named.2 goesOn h

theorem foldl_advance (h : Passed rooted passed) {components : List String}
    (noSlash : ∀ component ∈ components, '/' ∉ component.toList) :
    Passed rooted (components.foldl (Path.advance rooted) passed) := by
  induction components generalizing passed with
  | nil => exact h
  | cons component rest ih =>
      obtain ⟨head, tail⟩ := List.forall_mem_cons.mp noSlash
      exact ih (h.advance head) tail

/-- To walk along names that a walk has passed is to pass them. -/
theorem foldl_reverse (h : Passed rooted passed) :
    passed.reverse.foldl (Path.advance rooted) [] = passed := by
  induction h with
  | start => rfl
  | @up passed free all before ih =>
      rw [List.reverse_cons, List.foldl_append, ih]
      cases passed with
      | nil => simp [Path.advance, free]
      | cons last before => simp [Path.advance, all last List.mem_cons_self]
  | down plain stays goesOn before ih =>
      rw [List.reverse_cons, List.foldl_append, ih]
      simp [Path.advance, plain.ne_empty, stays, goesOn]

end Passed

theorem passed_resolve {components : List String} (rooted : Bool)
    (noSlash : ∀ component ∈ components, '/' ∉ component.toList) :
    Passed rooted (resolve rooted components).reverse := by
  rw [resolve, List.reverse_reverse]
  exact Passed.start.foldl_advance noSlash

theorem resolve_of_passed {rooted : Bool} {steps : List String}
    (h : Passed rooted steps.reverse) : resolve rooted steps = steps := by
  have walked := h.foldl_reverse
  rw [List.reverse_reverse] at walked
  rw [resolve, walked, List.reverse_reverse]

theorem components_eq (path : String) :
    components path = resolve (isAbsolute path) (names path) := by
  have skip : advance (isAbsolute path) = fun passed component =>
      if decide (component ≠ "") then advance (isAbsolute path) passed component else passed := by
    funext passed component
    by_cases empty : component = "" <;> simp [advance, empty]
  rw [components, resolve, resolve, names, List.foldl_filter, ← skip]

theorem passed_components (path : String) :
    Passed (isAbsolute path) (components path).reverse := by
  rw [components_eq]
  exact passed_resolve _ fun name mem => (plain_of_mem_names mem).noSlash

theorem plain_components (path : String) : ∀ name ∈ components path, Plain name := by
  intro name mem
  exact (passed_components path).plain name (List.mem_reverse.mpr mem)

theorem leadingSlashes_le (path : List Char) : leadingSlashes path ≤ 2 := by
  unfold leadingSlashes
  split <;> simp

theorem isAbsolute_iff {path : String} :
    isAbsolute path = true ↔ leadingSlashes path.toList ≠ 0 := by
  unfold isAbsolute Text.startsWith
  cases text : path.toList with
  | nil => simp [leadingSlashes]
  | cons c rest =>
      by_cases slash : c = '/'
      · subst slash
        simp only [List.head?_cons, beq_self_eq_true, true_iff]
        unfold leadingSlashes
        split <;> simp_all
      · simp [leadingSlashes, slash]

section Written

variable {steps : List String}

theorem joinChars_head (h : ∀ name ∈ steps, Plain name) :
    (Text.joinChars '/' (steps.map String.toList)).head? ≠ some '/' := by
  cases steps with
  | nil => simp [Text.joinChars]
  | cons name rest =>
      have plain := h name List.mem_cons_self
      have noSlash := plain.noSlash
      cases text : name.toList with
      | nil => exact absurd text plain.toList_ne_nil
      | cons c tail =>
          have differs : c ≠ '/' := by
            rintro rfl
            exact noSlash (by simp [text])
          cases rest <;> simpa [Text.joinChars, text] using differs

theorem leadingSlashes_written {slashes : Nat} (le : slashes ≤ 2)
    (h : ∀ name ∈ steps, Plain name) : leadingSlashes (written slashes steps).toList = slashes := by
  have head := joinChars_head h
  rw [written, String.toList_ofList]
  generalize Text.joinChars '/' (steps.map String.toList) = rest at head ⊢
  obtain rfl | rfl | rfl : slashes = 0 ∨ slashes = 1 ∨ slashes = 2 := by omega
  all_goals cases rest <;> simp_all [leadingSlashes, List.replicate]

end Written

/-- The normal form of a path has the path's names behind as many slashes, unless nothing is left of
it. -/
theorem normalize_eq (path : String) :
    normalize path = if isAbsolute path = false ∧ components path = [] then "."
      else written (leadingSlashes path.toList) (components path) := by
  have plain := plain_components path
  unfold normalize
  by_cases nothing : isAbsolute path = false ∧ components path = []
  · have none : leadingSlashes path.toList = 0 := by
      by_contra some
      simp [isAbsolute_iff.mpr some] at nothing
    simp [nothing, none, Text.joinChars]
  · have some : (List.replicate (leadingSlashes path.toList) '/' ++
        Text.joinChars '/' ((components path).map String.toList)).isEmpty = false := by
      by_cases rooted : isAbsolute path = true
      · simp [isAbsolute_iff.mp rooted]
      · have left : components path ≠ [] := fun none => nothing ⟨by simpa using rooted, none⟩
        obtain ⟨front, c, ends, -⟩ := joinChars_end left plain
        simp [ends]
    simp only [some, nothing]
    rfl

theorem isAbsolute_eq (path : String) :
    isAbsolute path = decide (leadingSlashes path.toList ≠ 0) := by
  rw [Bool.eq_iff_iff, isAbsolute_iff, decide_eq_true_eq]

/-- Names that a walk may have passed are a normal path behind at most two slashes. -/
theorem normalize_written {slashes : Nat} {steps : List String} (le : slashes ≤ 2)
    (h : Passed (decide (slashes ≠ 0)) steps.reverse) (something : slashes ≠ 0 ∨ steps ≠ []) :
    normalize (written slashes steps) = written slashes steps := by
  have plain : ∀ name ∈ steps, Plain name := fun name mem => h.plain name (List.mem_reverse.mpr mem)
  have front := leadingSlashes_written le plain
  have rooted : isAbsolute (written slashes steps) = decide (slashes ≠ 0) := by
    rw [isAbsolute_eq, front]
  have same : components (written slashes steps) = steps := by
    rw [components_eq, names_written _ plain, rooted]
    exact resolve_of_passed h
  rw [normalize_eq, rooted, same, front, if_neg]
  rintro ⟨none, nothing⟩
  exact something.elim (by simpa using none) fun some => some nothing

/-- A normal path is its own normal form. -/
@[simp] theorem normalize_normalize (path : String) :
    normalize (normalize path) = normalize path := by
  rw [normalize_eq path]
  split
  · decide
  · rename_i something
    have passed := passed_components path
    rw [isAbsolute_eq] at passed something
    refine normalize_written (leadingSlashes_le path.toList) passed ?_
    by_contra nothing
    rw [not_or, not_not, not_not] at nothing
    exact something ⟨by simp [nothing.1], nothing.2⟩

example : normalize (normalize "a/./b//../../../c") = "../c" := by decide +kernel

theorem normalize_of_relative {path : String} (h : isAbsolute path = false) :
    normalize path = if components path = [] then "." else Text.join '/' (components path) := by
  have none : leadingSlashes path.toList = 0 := by
    by_contra some
    simp [isAbsolute_iff.mpr some] at h
  rw [normalize_eq, h, none, written_zero]
  simp

theorem normalize_join {steps : List String} (ne : steps ≠ []) (h : Passed false steps.reverse) :
    normalize (Text.join '/' steps) = Text.join '/' steps := by
  rw [← written_zero]
  exact normalize_written (Nat.zero_le 2) (by simpa using h) (.inr ne)

theorem isAbsolute_concat {front : String} (h : isAbsolute front = true) (rest : String) :
    isAbsolute (front ++ rest) = true := by
  rw [isAbsolute, Text.startsWith] at h ⊢
  rw [String.toList_append]
  cases text : front.toList with
  | nil =>
      rw [text] at h
      cases h
  | cons c cs =>
      rw [text] at h
      exact h

theorem isAbsolute_append {current : String} (h : isAbsolute current = true) (path : String) :
    isAbsolute (append current path) = true := by
  rw [append]
  split
  · assumption
  · split
    · exact isAbsolute_concat h path
    · exact isAbsolute_concat (isAbsolute_concat h "/") path

theorem isAbsolute_dropSlashes (path : String) : isAbsolute (dropSlashes path) = false := by
  have first := List.head?_dropWhile_not (· = '/') path.toList
  rw [isAbsolute, Text.startsWith, dropSlashes, String.toList_ofList]
  cases rest : path.toList.dropWhile (· = '/') with
  | nil => rfl
  | cons c rest =>
      rw [rest] at first
      simpa using first

theorem dropSlashes_written (slashes : Nat) {steps : List String}
    (h : ∀ name ∈ steps, Plain name) :
    dropSlashes (written slashes steps) = Text.join '/' steps := by
  have slash : ∀ c ∈ List.replicate slashes '/', decide (c = '/') = true := by
    intro c mem
    simpa using List.eq_of_mem_replicate mem
  have head := joinChars_head h
  rw [dropSlashes, written, String.toList_ofList, List.dropWhile_append_of_pos slash, Text.join]
  cases text : Text.joinChars '/' (steps.map String.toList) with
  | nil => rfl
  | cons c rest =>
      rw [text, List.head?_cons, ne_eq, Option.some_inj] at head
      rw [List.dropWhile_cons_of_neg (by simpa using head)]

theorem climbs_join (rest : List String) : climbs (Text.join '/' (".." :: rest)) = true := by
  cases rest <;> simp [climbs, Text.join, Text.joinChars]

theorem take_sharedNames (first second : List String) :
    first.take (sharedNames first second) = second.take (sharedNames first second) := by
  induction first generalizing second with
  | nil => cases second <;> simp [sharedNames]
  | cons name first ih =>
      cases second with
      | nil => simp [sharedNames]
      | cons other second =>
          by_cases same : name = other
          · simp [sharedNames, same, ih second]
          · simp [sharedNames, same]

/-- A way that does not climb leads to a path with the names of the directory in front. -/
theorem names_prefix_of_not_climbs {current start path : String}
    (h : climbs (relative current start path) = false) :
    names (absolute current start) <+: names (absolute current path) := by
  unfold relative at h
  generalize names (absolute current start) = start at h ⊢
  generalize names (absolute current path) = path at h ⊢
  cases missing : start.length - sharedNames start path with
  | zero =>
      have all : start.take (sharedNames start path) = start := List.take_of_length_le (by omega)
      rw [← all, take_sharedNames]
      exact List.take_prefix _ _
  | succ count =>
      simp only [missing, List.replicate_succ, List.cons_append, List.isEmpty_cons] at h
      simp [climbs_join] at h

end SchemaForms.Path
