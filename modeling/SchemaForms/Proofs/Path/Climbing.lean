import Mathlib.Data.List.Infix
import SchemaForms.Proofs.Path.Containment

/-!
# Paths that climb out of a directory

A path leads out of the directory in which it begins if, somewhere along it, more moves have gone up
than down. To say so takes no normal form: moves are counted, and what has been passed is forgotten.
Programs look at the normal form instead, and ask whether it begins with `..`. That comes to the
same: a way up that nothing on the path takes back stays in front of everything that follows.
-/

namespace SchemaForms.Path

/-- The moves along a path: its names without `.`, which leads nowhere. -/
def moves (path : String) : List String :=
  (names path).filter (· ≠ ".")

/-- Somewhere along the path more moves have gone up than down. -/
def ClimbsOut (path : String) : Prop :=
  ∃ front, front <+: moves path ∧ front.countP (· ≠ "..") < front.count ".."

instance (path : String) : Decidable (ClimbsOut path) :=
  decidable_of_iff (∃ front ∈ (moves path).inits, front.countP (· ≠ "..") < front.count "..") <| by
    simp only [List.mem_inits, ClimbsOut]

theorem components_eq_moves (path : String) :
    components path = resolve (isAbsolute path) (moves path) := by
  have skip : advance (isAbsolute path) = fun passed component =>
      if decide (component ≠ ".") then advance (isAbsolute path) passed component else passed := by
    funext passed component
    by_cases dot : component = "." <;> simp [advance, dot]
  rw [components_eq, resolve, resolve, moves, List.foldl_filter, ← skip]

theorem named_of_mem_moves {path move : String} (mem : move ∈ moves path) :
    move ≠ "" ∧ move ≠ "." := by
  obtain ⟨named, goesOn⟩ := List.mem_filter.mp mem
  exact ⟨(plain_of_mem_names named).ne_empty, by simpa using goesOn⟩

section Walk

variable {rooted : Bool} {passed rest : List String} {move : String}

theorem advance_up {last : String} (down : last ≠ "..") :
    advance false (last :: passed) ".." = passed := by
  simp [advance, down]

theorem advance_down (named : move ≠ "" ∧ move ≠ ".") (down : move ≠ "..") :
    advance rooted passed move = move :: passed := by
  simp [advance, named, down]

/-- A walk that has climbed out stays outside with each further step. -/
theorem getLast?_advance (out : passed.getLast? = some "..") (component : String) :
    (advance false passed component).getLast? = some ".." := by
  cases passed with
  | nil => cases out
  | cons last before =>
      unfold advance
      split
      · exact out
      · split
        · by_cases up : last = ".."
          · simp only [up, if_true, List.getLast?_cons_cons]
            rwa [up] at out
          · -- the step down is taken back, so the way up that is left is another one
            simp only [up, if_false]
            cases before with
            | nil => exact absurd (Option.some.inj out) up
            | cons next before => rwa [List.getLast?_cons_cons] at out
        · rwa [List.getLast?_cons_cons]

theorem getLast?_foldl_advance (out : passed.getLast? = some "..") (rest : List String) :
    (rest.foldl (advance false) passed).getLast? = some ".." := by
  induction rest generalizing passed with
  | nil => exact out
  | cons component rest ih => exact ih (getLast?_advance out component)

/-- What does not hold at the start holds further on, if anywhere. -/
theorem exists_front_cons {p : List String → Prop} (start : ¬ p []) :
    (∃ front, front <+: move :: rest ∧ p front) ↔ ∃ front, front <+: rest ∧ p (move :: front) := by
  constructor
  · rintro ⟨front, before, holds⟩
    obtain rfl | ⟨tail, rfl, ahead⟩ := List.prefix_cons_iff.mp before
    · exact absurd holds start
    · exact ⟨tail, ahead, holds⟩
  · rintro ⟨front, before, holds⟩
    exact ⟨move :: front, List.cons_prefix_cons.mpr ⟨rfl, before⟩, holds⟩

/-- A walk from inside climbs out just if at some point its moves up outnumber those down, with the
names that have been passed before. -/
theorem getLast?_foldl_iff (inside : ".." ∉ passed)
    (named : ∀ move ∈ rest, move ≠ "" ∧ move ≠ ".") :
    (rest.foldl (advance false) passed).getLast? = some ".." ↔
      ∃ front, front <+: rest ∧
        passed.length + front.countP (· ≠ "..") < front.count ".." := by
  induction rest generalizing passed with
  | nil =>
      refine iff_of_false (fun out => inside (List.mem_of_getLast? out)) ?_
      rintro ⟨front, before, more⟩
      rw [List.prefix_nil.mp before] at more
      simp at more
  | cons move rest ih =>
      obtain ⟨first, others⟩ := List.forall_mem_cons.mp named
      rw [List.foldl_cons, exists_front_cons (by simp)]
      by_cases up : move = ".."
      · subst up
        cases passed with
        | nil =>
            have out : (advance false [] "..").getLast? = some ".." := rfl
            exact iff_of_true (getLast?_foldl_advance out rest) ⟨[], List.nil_prefix, by simp⟩
        | cons last before =>
            obtain ⟨down, inside⟩ := not_or.mp (mt List.mem_cons.mpr inside)
            rw [advance_up (Ne.symm down), ih inside others]
            simp only [List.length_cons, List.countP_cons, List.count_cons_self, ne_eq,
              not_true_eq_false, decide_false, Bool.false_eq_true, if_false]
            refine exists_congr fun front => and_congr_right fun _ => ?_
            omega
      · have inside' : ".." ∉ move :: passed := by simpa [Ne.symm up] using inside
        rw [advance_down first up, ih inside' others]
        simp only [List.length_cons, List.countP_cons, List.count_cons_of_ne up, ne_eq, up,
          not_false_eq_true, decide_true, if_true]
        refine exists_congr fun front => and_congr_right fun _ => ?_
        omega

end Walk

/-- A path climbs out of the directory in which it begins just if its normal form begins with a way
up. -/
theorem climbs_normalize_iff {path : String} (relative : isAbsolute path = false) :
    climbs (normalize path) = true ↔ ClimbsOut path := by
  have head : climbs (normalize path) = true ↔ (components path).head? = some ".." := by
    rw [normalize_of_relative relative]
    split
    · rename_i nothing
      rw [nothing]
      decide
    · exact climbs_join_iff (plain_components path)
  rw [head, components_eq_moves, relative, resolve, List.head?_reverse,
    getLast?_foldl_iff List.not_mem_nil fun _ => named_of_mem_moves, ClimbsOut]
  simp only [List.length_nil, Nat.zero_add]

/-- If a normal path goes up at all, it begins with that. -/
theorem climbs_normalize_iff_mem {path : String} (relative : isAbsolute path = false) :
    climbs (normalize path) = true ↔ ".." ∈ names (normalize path) := by
  have passed := passed_components path
  have plain := plain_components path
  rw [normalize_of_relative relative]
  split
  · decide
  · rw [climbs_join_iff plain, names_join plain]
    refine ⟨List.mem_of_head?, fun up => ?_⟩
    have first := (passed.up_first (List.mem_reverse.mpr up)).2
    rwa [List.getLast?_reverse] at first

section Level

variable {rooted : Bool} {front rest : List String}

/-- Where no component goes up, a walk passes all names, wherever it has begun. -/
theorem foldl_advance_level (level : ".." ∉ rest) (passed : List String) :
    rest.foldl (advance rooted) passed =
      (rest.filter fun component => component ≠ "" ∧ component ≠ ".").reverse ++ passed := by
  induction rest generalizing passed with
  | nil => rfl
  | cons component rest ih =>
      obtain ⟨down, level⟩ := not_or.mp (mt List.mem_cons.mpr level)
      rw [List.foldl_cons, ih level]
      by_cases named : component ≠ "" ∧ component ≠ "."
      · rw [advance_down named (Ne.symm down), List.filter_cons_of_pos (by simpa using named),
          List.reverse_cons, List.append_assoc, List.singleton_append]
      · have stays : advance rooted passed component = passed := by
          rw [not_and_or, not_not, not_not] at named
          simp [advance, named]
        rw [stays, List.filter_cons_of_neg (by simpa using named)]

/-- A path on which nothing goes up leads below the names that have been passed. -/
theorem resolve_append_level (before : Passed rooted front.reverse) (level : ".." ∉ rest)
    (rooted' : Bool) : resolve rooted (front ++ rest) = front ++ resolve rooted' rest := by
  have walked := before.foldl_reverse
  rw [List.reverse_reverse] at walked
  rw [resolve, resolve, List.foldl_append, walked, foldl_advance_level level,
    foldl_advance_level level]
  simp

/-- On a disk, a relative path on which nothing goes up leads below the directory. -/
theorem onDisk_level {root name : String} (above : isAbsolute root = true)
    (passed : Passed true (names root).reverse) (relative : isAbsolute name = false)
    (level : ".." ∉ names name) :
    onDisk root name = "/" ++ Text.join '/' (names root ++ components name) := by
  rw [onDisk, components_append, reached, if_neg (by simp [relative]), above,
    resolve_append_level passed level false, components_eq name, relative]

end Level

end SchemaForms.Path
