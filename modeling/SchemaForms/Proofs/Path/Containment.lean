import SchemaForms.Proofs.Path.Sandbox
import SchemaForms.Reference.Session

/-!
# The sandbox lets pass what lies inside

`Path.reached` says where a path leads that begins in a directory: the names of the one behind those
of the other, with `..` taken back. The sandbox looks at texts only, at the way that leads from one
directory to another and at what a name begins with. Its answers are nevertheless exact: a path
passes if and only if what it reaches lies below the directory of the root document, name by name.
A directory that merely has a longer name than the root's does not pass, and nothing below the root's
directory is kept out.
-/

namespace SchemaForms

namespace Path

/-- The names at the end of the way that begins in the directory and goes along the path. -/
def reached (directory path : String) : List String :=
  if isAbsolute path then resolve true (names path)
  else resolve (isAbsolute directory) (names directory ++ names path)

theorem isAbsolute_append_of_ne {front : String} (ne : front ≠ "") (rest : String) :
    isAbsolute (front ++ rest) = isAbsolute front := by
  rw [isAbsolute, isAbsolute, Text.startsWith, Text.startsWith, String.toList_append]
  cases text : front.toList with
  | nil => exact absurd (String.toList_eq_nil_iff.mp text) ne
  | cons c cs => rfl

/-- A path that ends in a slash has the names in front of it. -/
theorem names_append_of_slash {front : String} (ends : front.toList.getLast? = some '/')
    (rest : String) : names (front ++ rest) = names front ++ names rest := by
  obtain ⟨before, split⟩ := List.getLast?_eq_some_iff.mp ends
  have text : front = String.ofList before ++ "/" := by
    rw [← String.toList_inj, split]
    simp
  have own := names_append_slash (String.ofList before) ""
  rw [String.append_empty, names_empty, List.append_nil] at own
  rw [text, names_append_slash, own]

/-- A path that is put behind a directory begins where the directory does. -/
theorem isAbsolute_append_eq (directory path : String) :
    isAbsolute (append directory path) = (isAbsolute path || isAbsolute directory) := by
  rw [append]
  split
  · rename_i rooted
    rw [rooted, Bool.true_or]
  · rename_i relative
    rw [Bool.not_eq_true] at relative
    rw [relative, Bool.false_or]
    by_cases here : directory = ""
    · subst here
      simpa [show isAbsolute "" = false from rfl] using relative
    · have slash : directory ++ "/" ≠ "" := by
        intro empty
        simpa using congrArg String.toList empty
      split
      · exact isAbsolute_append_of_ne here path
      · rw [isAbsolute_append_of_ne slash, isAbsolute_append_of_ne here]

/-- A path that is put behind a directory has the names of both. -/
theorem names_append {path : String} (relative : isAbsolute path = false) (directory : String) :
    names (append directory path) = names directory ++ names path := by
  rw [append, if_neg (by simp [relative])]
  by_cases here : directory = ""
  · subst here
    simp
  · by_cases ends : directory.toList.getLast? = some '/'
    · rw [if_pos (by simp [ends]), names_append_of_slash ends]
    · rw [if_neg (by simp [here, ends]), names_append_slash]

/-- What a path reaches is what is left of it when it is put behind the directory. -/
theorem components_append (directory path : String) :
    components (append directory path) = reached directory path := by
  rw [components_eq, isAbsolute_append_eq, reached]
  split
  · rename_i rooted
    rw [append, if_pos rooted, rooted, Bool.true_or]
  · rename_i relative
    rw [Bool.not_eq_true] at relative
    rw [names_append relative, relative, Bool.false_or]

/-- The names on a normal path from the root are what the path reaches. -/
theorem names_normalize {path : String} (rooted : isAbsolute path = true) :
    names (normalize path) = components path := by
  rw [normalize_eq, rooted, if_neg (by simp)]
  exact names_written _ (plain_components path)

theorem isAbsolute_normalize {path : String} (rooted : isAbsolute path = true) :
    isAbsolute (normalize path) = true := by
  rw [normalize_eq, rooted, if_neg (by simp), isAbsolute_iff,
    leadingSlashes_written (leadingSlashes_le _) (plain_components path)]
  exact isAbsolute_iff.mp rooted

theorem absolute_of_isAbsolute {path : String} (rooted : isAbsolute path = true)
    (current : String) : absolute current path = normalize path := by
  rw [absolute, append, if_pos rooted]

/-- No way up is left of a path from the root. -/
theorem up_not_mem_components {path : String} (rooted : isAbsolute path = true) :
    ".." ∉ components path := by
  intro up
  have free := ((passed_components path).up_first (List.mem_reverse.mpr up)).1
  rw [rooted] at free
  cases free

theorem Passed.dot_not_mem {rooted : Bool} {passed : List String} (h : Passed rooted passed) :
    "." ∉ passed := by
  induction h with
  | start => simp
  | up _ _ _ ih => simpa using ih
  | down _ stays _ _ ih => simpa using ⟨Ne.symm stays, ih⟩

/-- Names climb if the first one goes up. -/
theorem climbs_join_iff {steps : List String} (plain : ∀ name ∈ steps, Plain name) :
    climbs (Text.join '/' steps) = true ↔ steps.head? = some ".." := by
  constructor
  · intro h
    have own := names_join plain
    rw [climbs, Bool.or_eq_true, decide_eq_true_eq, decide_eq_true_eq] at h
    obtain all | front := h
    · rw [all] at own
      rw [← own]
      decide
    · have split : Text.join '/' steps =
          ".." ++ "/" ++ String.ofList ((Text.join '/' steps).toList.drop 3) := by
        rw [← String.toList_inj]
        conv_lhs => rw [← List.take_append_drop 3 (Text.join '/' steps).toList, front]
        simp
      rw [split, names_append_slash] at own
      rw [← own]
      rfl
  · intro first
    cases steps with
    | nil => cases first
    | cons name rest =>
        obtain rfl : name = ".." := Option.some.inj first
        exact climbs_join rest

theorem sharedNames_append (first rest : List String) :
    sharedNames first (first ++ rest) = first.length := by
  induction first with
  | nil => cases rest <;> rfl
  | cons name first ih => simp [sharedNames, ih]

/-- The way from one directory to a path does not climb just if the path has the names of the
directory in front, and no way up behind them. -/
theorem climbs_relative_iff {current start path : String}
    (level : ".." ∉ names (absolute current path)) :
    climbs (relative current start path) = false ↔
      names (absolute current start) <+: names (absolute current path) := by
  refine ⟨names_prefix_of_not_climbs, ?_⟩
  rintro ⟨below, split⟩
  have plain : ∀ name ∈ below, Plain name := by
    intro name mem
    have among : name ∈ names (absolute current path) := by
      rw [← split]
      exact List.mem_append_right _ mem
    exact plain_of_mem_names among
  rw [← split] at level
  simp only [relative, ← split, sharedNames_append, Nat.sub_self, List.replicate_zero,
    List.nil_append, List.drop_left]
  split
  · rfl
  · rw [← Bool.not_eq_true, climbs_join_iff plain]
    intro first
    exact level (List.mem_append_right _ (List.mem_of_head? first))

end Path

namespace Sandbox

open SchemaForms.Path

/-- A name lies in a directory just if it has the names of the directory in front. -/
theorem nameInside_join_iff {root steps : List String} (ne : root ≠ [])
    (plain : ∀ name ∈ root, Plain name) (plain' : ∀ name ∈ steps, Plain name) :
    nameInside (Text.join '/' root) (Text.join '/' steps) = true ↔ root <+: steps := by
  constructor
  · intro h
    have below := names_prefix_of_nameInside h
    rwa [names_join plain, names_join plain'] at below
  · rintro ⟨below, rfl⟩
    rw [nameInside, Bool.or_eq_true, Bool.or_eq_true, decide_eq_true_eq, decide_eq_true_eq]
    by_cases same : below = []
    · subst same
      exact .inl (.inr (by rw [List.append_nil]))
    · refine .inr (List.isPrefixOf_iff_prefix.mpr ?_)
      refine ⟨Text.joinChars '/' (below.map String.toList), ?_⟩
      rw [Text.join, Text.join, List.map_append, joinChars_append (by simpa using ne)
        (by simpa using same)]
      simp

variable {options : ResolveOptions} {current root directory path ref place : String}

/-- A file passes just if what it reaches lies below the directory of the root, or if that does not
matter. -/
theorem cleanFile_eq (above : isAbsolute root = true) (start : isAbsolute directory = true) :
    cleanFile options current root directory path ref place =
      if options.allowTraversal = true ∨ components root <+: reached directory path
      then .ok (normalize (append directory path)) else .error (escape ref place) := by
  have rooted := isAbsolute_append start path
  have own : absolute current (normalize (append directory path)) =
      normalize (append directory path) := by
    rw [absolute_of_isAbsolute (isAbsolute_normalize rooted), normalize_normalize]
  have level : ".." ∉ names (absolute current (normalize (append directory path))) := by
    rw [own, names_normalize rooted]
    exact up_not_mem_components rooted
  have within : inside current root (normalize (append directory path)) = true ↔
      components root <+: reached directory path := by
    rw [inside, Bool.not_eq_true', climbs_relative_iff level, own, absolute_of_isAbsolute above,
      names_normalize above, names_normalize rooted, components_append]
  simp only [cleanFile, Bool.or_eq_true, within]

/-- The name of what has been reached in the directory of the loader. -/
theorem dropSlashes_normalize (path : String) :
    dropSlashes (normalize path) =
      if isAbsolute path = false ∧ components path = [] then "."
      else Text.join '/' (components path) := by
  rw [normalize_eq]
  split
  · decide
  · exact dropSlashes_written _ (plain_components path)

/-- A name does not climb just if the first name of what it reaches does not go up. -/
theorem climbs_dropSlashes_normalize (path : String) :
    climbs (dropSlashes (normalize path)) = true ↔ (components path).head? = some ".." := by
  rw [dropSlashes_normalize]
  split
  · rename_i nothing
    rw [nothing.2]
    decide
  · exact climbs_join_iff (plain_components path)

/-- A clean name lies in a directory just if what it reaches does. -/
theorem nameInside_iff {root : String} (relative : isAbsolute root = false) (path : String) :
    nameInside (if dropSlashes (normalize root) = "." then "" else dropSlashes (normalize root))
        (dropSlashes (normalize path)) = true ↔ components root <+: components path := by
  have plain := plain_components root
  have noDot := (passed_components root).dot_not_mem
  by_cases nothing : components root = []
  · simp [dropSlashes_normalize root, relative, nothing, nameInside]
  · have named : dropSlashes (normalize root) = Text.join '/' (components root) := by
      rw [dropSlashes_normalize, if_neg (fun h => nothing h.2)]
    have notDot : Text.join '/' (components root) ≠ "." := by
      intro dot
      have own := names_join plain
      rw [dot, show names "." = ["."] by decide] at own
      rw [← own] at noDot
      exact noDot (by simp)
    rw [named, if_neg notDot, dropSlashes_normalize]
    split
    · rename_i here
      rw [here.2, List.prefix_nil]
      refine iff_of_false ?_ nothing
      intro within
      have below := names_prefix_of_nameInside within
      rw [names_join plain, show names "." = ["."] by decide] at below
      obtain ⟨name, rest, split⟩ := List.exists_cons_of_ne_nil nothing
      rw [split, List.cons_prefix_cons] at below
      rw [split, below.1] at noDot
      exact noDot (by simp)
    · exact nameInside_join_iff nothing plain (plain_components path)

/-- A resource passes just if what it reaches does not climb and lies below the directory of the
root, or if that does not matter. -/
theorem cleanName_eq (relative : isAbsolute root = false) :
    cleanName options root directory path ref place =
      if options.allowTraversal = true ∨ (reached directory path).head? ≠ some ".." ∧
        components root <+: reached directory path
      then .ok (dropSlashes (normalize (append directory path)))
      else .error (escape ref place) := by
  have level := climbs_dropSlashes_normalize (append directory path)
  have within := nameInside_iff relative (append directory path)
  rw [components_append] at level within
  simp only [cleanName, Bool.or_eq_true, Bool.and_eq_true, Bool.not_eq_true', within, ne_eq,
    ← level, Bool.not_eq_true]

/-- A directory with a longer name is another directory. -/
theorem not_prefix_of_longer {parent below : List String} {last more : String} (ne : more ≠ "") :
    ¬ parent ++ [last] <+: parent ++ (last ++ more) :: below := by
  rw [List.prefix_append_right_inj, List.cons_prefix_cons]
  rintro ⟨same, -⟩
  have chars := congrArg String.toList same
  rw [String.toList_append, List.self_eq_append_right] at chars
  exact ne (String.toList_eq_nil_iff.mp chars)

/-- What the sandbox of a root directory answers to a path is exact. `root` and `steps` are the names
of the directory and those that the path reaches, and `level` says that these do not climb. -/
structure Exact (root steps : List String) (level : Prop) (refusal : Error)
    (means : String → Prop) (cleaned : Except Error String) : Prop where
  /-- Nothing inside is kept out, and what passes is known by its meaning. -/
  passes : level → root <+: steps → ∃ candidate, cleaned = .ok candidate ∧ means candidate
  /-- Nothing else passes. -/
  refused : ¬ level ∨ ¬ root <+: steps → cleaned = .error refusal
  /-- In particular nothing passes in a directory beside the root's whose name begins with its
  name. -/
  sibling : ∀ parent last more below, root = parent ++ [last] → more ≠ "" →
    steps = parent ++ (last ++ more) :: below → cleaned = .error refusal

theorem exact_of_eq {root steps : List String} {level : Prop} [Decidable level] {refusal : Error}
    {means : String → Prop} {cleaned : Except Error String} {candidate : String}
    (answer : cleaned = if level ∧ root <+: steps then .ok candidate else .error refusal)
    (meant : level → means candidate) : Exact root steps level refusal means cleaned where
  passes inside below := ⟨candidate, by rw [answer, if_pos ⟨inside, below⟩], meant inside⟩
  refused outside := by
    rw [answer, if_neg]
    rintro ⟨inside, below⟩
    exact outside.elim (· inside) (· below)
  sibling parent last more below own ne longer := by
    rw [answer, if_neg]
    rintro ⟨-, inside⟩
    rw [own, longer] at inside
    exact not_prefix_of_longer ne inside

end Sandbox

namespace Session

/-- The sandbox of a session is exact. A file, named from a directory that begins at the root of the
disk, passes just if it lies below the directory of the root document, and is then known by its
normal path. A resource, named from a directory inside the loader's root, passes just if it lies
below the directory of the root document as well and its name does not climb; a path with a slash in
front is read from the loader's root. The name is then its names behind each other. -/
theorem sandbox_exact (session : Session) (state : SessionState) (root : Entry)
    (closed : session.options.allowTraversal = false) (rooted : state.root = some root)
    (directory path ref place : String) :
    (Path.isAbsolute root.directory = true → Path.isAbsolute directory = true →
      Sandbox.Exact (Path.components root.directory) (Path.reached directory path) True
        (Sandbox.escape ref place)
        (fun file => Path.isAbsolute file = true ∧ Path.normalize file = file ∧
          Path.names file = Path.reached directory path)
        (Sandbox.cleanFile session.options session.current (state.rootDirectory directory)
          directory path ref place)) ∧
    (Path.isAbsolute root.directory = false → Path.isAbsolute directory = false →
      Sandbox.Exact (Path.components root.directory) (Path.reached directory path)
        ((Path.reached directory path).head? ≠ some "..") (Sandbox.escape ref place)
        (fun name => name =
          if Path.isAbsolute path = false ∧ Path.reached directory path = [] then "."
          else Text.join '/' (Path.reached directory path))
        (Sandbox.cleanName session.options (state.rootDirectory directory) directory path ref
          place)) := by
  have base : state.rootDirectory directory = root.directory := by
    rw [SessionState.rootDirectory, rooted]
    rfl
  rw [base]
  constructor
  · intro above start
    have whole := Path.isAbsolute_append start path
    have answer : Sandbox.cleanFile session.options session.current root.directory directory path
        ref place = _ := Sandbox.cleanFile_eq above start
    simp only [closed, Bool.false_eq_true, false_or] at answer
    apply Sandbox.exact_of_eq
    · simpa only [true_and] using answer
    · intro _
      exact ⟨Path.isAbsolute_normalize whole, Path.normalize_normalize _, by
        rw [Path.names_normalize whole, Path.components_append]⟩
  · intro relative start
    have answer : Sandbox.cleanName session.options root.directory directory path ref place = _ :=
      Sandbox.cleanName_eq relative
    simp only [closed, Bool.false_eq_true, false_or] at answer
    apply Sandbox.exact_of_eq answer
    intro _
    rw [Sandbox.dropSlashes_normalize, Path.components_append, Path.isAbsolute_append_eq, start,
      Bool.or_false]

namespace Sample

/-- A root document in a directory `forms`, which makes no references. -/
def rootIn (kind : SourceKind) (directory : String) : Entry where
  origin := ⟨"", "", directory⟩
  kind := kind
  data := []
  anchors := []

def opened (kind : SourceKind) (directory : String) : SessionState :=
  { root := some (rootIn kind directory) }

end Sample

/-- A file whose name begins with two dots passes, and a directory `forms2` does not lie below
`forms`; nor does a resource that climbs, whatever the name of the directory it comes back to. -/
theorem sandbox_exact_sample :
    (∃ file, Sandbox.cleanFile {} "/" "/forms" "/forms/sub" "..//./..a" "" "" = .ok file ∧
      Path.names file = ["forms", "..a"]) ∧
    Sandbox.cleanFile {} "/" "/forms" "/forms/sub" "../../forms2/a" "" "" =
      .error (Sandbox.escape "" "") ∧
    (∃ name, Sandbox.cleanName {} "forms" "forms/sub" "/forms/../../forms/a" "" "" = .ok name ∧
      name = "forms/a") ∧
    Sandbox.cleanName {} "." "." "../forms/a" "" "" = .error (Sandbox.escape "" "") := by
  have file := (sandbox_exact {} (Sample.opened .file "/forms") (Sample.rootIn .file "/forms") rfl
    rfl "/forms/sub" "..//./..a" "" "").1 (by decide) (by decide)
  have beside := (sandbox_exact {} (Sample.opened .file "/forms") (Sample.rootIn .file "/forms") rfl
    rfl "/forms/sub" "../../forms2/a" "" "").1 (by decide) (by decide)
  have name := (sandbox_exact {} (Sample.opened .fs "forms") (Sample.rootIn .fs "forms") rfl
    rfl "forms/sub" "/forms/../../forms/a" "" "").2 (by decide) (by decide)
  have above := (sandbox_exact {} (Sample.opened .fs ".") (Sample.rootIn .fs ".") rfl
    rfl "." "../forms/a" "" "").2 (by decide) (by decide)
  obtain ⟨a, passes, -, -, steps⟩ := file.passes trivial (by decide +kernel)
  obtain ⟨b, passes', same⟩ := name.passes (by decide +kernel) (by decide +kernel)
  refine ⟨⟨a, passes, steps.trans (by decide +kernel)⟩, ?_, ⟨b, passes', ?_⟩, ?_⟩
  · exact beside.sibling [] "forms" "2" ["a"] (by decide +kernel) (by decide) (by decide +kernel)
  · rw [same]
    decide +kernel
  · exact above.refused (.inl (by decide +kernel))

end Session

end SchemaForms
