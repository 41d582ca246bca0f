import Mathlib.Data.List.Forall2
import SchemaForms.Proofs.Json.Steps
import SchemaForms.Proofs.Pointer.Written
import SchemaForms.Proofs.Session.Effect
import SchemaForms.Proofs.Text.Percent

/-!
# Every place has a pointer

A place in a value is a row of steps, and a pointer is a row of tokens. A token that stands for a
step is its name, or its number in ASCII digits. Which of the two it is depends on the value that is
met there, and a pointer leads to a value if and only if its tokens stand for steps that lead there.

`Pointer.ofSteps` writes such a pointer for every row of steps. It escapes percent signs as well as
tildes and slashes, so that any name is read back, and it writes the numbers in decimal. Pointers
that begin with a slash can be put behind each other: to walk along both is to walk along the first,
and from there along the second.
-/

namespace SchemaForms

namespace Pointer

open Text Json

/-- The number that a token writes in the ten digits of ASCII. Zeros may stand in front, unless there
are too many digits. -/
def number? (token : String) : Option Nat :=
  let number := Nat.ofDigitChars 10 token.toList 0
  if token ≠ "" ∧ token.toList.all Char.isDigit ∧
      (token.length ≤ digitLimit ∨ token = toString number) then
    some number
  else none

/-- The token stands for the step. -/
def StandsFor (token : String) : Step → Prop
  | .key name => token = name
  | .index number => number? token = some number

/-- A step as it is written in a pointer: a name with its tildes, slashes and percent signs escaped,
or a number in decimal. -/
def writeStep : Step → String
  | .key name => String.ofList (escapePercents (escapeChars name.toList))
  | .index number => toString number

/-- The pointer that writes a row of steps. -/
def ofSteps (steps : List Step) : String :=
  slashed (steps.map writeStep)

/-- A token is an index of an array if it writes a number below the array's length. -/
theorem index_eq_some_iff {token : String} {length number : Nat} :
    index token length = .ok (some number) ↔ number? token = some number ∧ number < length := by
  rw [index_eq_some]
  by_cases ascii : token.toList.all Char.isDigit = true
  · obtain ⟨digits, read, size, value⟩ := mapM_asciiDigit? (List.all_eq_true.mp ascii) 0
    have same : ofDigits 10 digits = Nat.ofDigitChars 10 token.toList 0 := value
    have empty : digits = [] ↔ token = "" := by
      rw [← List.length_eq_zero_iff, size, List.length_eq_zero_iff, String.toList_eq_nil_iff]
    simp only [read, number?, ascii, ← same, ← size, ← String.length_toList]
    grind
  · have none : ∀ digits, token.toList.mapM asciiDigit? ≠ some digits := fun digits read =>
      ascii (isDigit_of_mapM read)
    simp [none, number?, ascii]

theorem number?_toString (number : Nat) : number? (toString number) = some number :=
  (index_eq_some_iff.mp (index_toString (Nat.lt_succ_self number))).1

theorem child_obj_eq_ok {members : Members} {token : String} {inner : Json} :
    child (.obj members) token = .ok inner ↔ Members.get? members token = some inner := by
  rw [child]
  cases Members.get? members token <;> simp

theorem child_arr_eq_ok {elements : List Json} {token : String} {inner : Json} :
    child (.arr elements) token = .ok inner ↔
      ∃ number, number? token = some number ∧ elements[number]? = some inner := by
  have found {number : Nat} (has : elements[number]? = some inner) : number < elements.length :=
    (List.getElem?_eq_some_iff.mp has).1
  rw [child]
  cases read : index token elements.length with
  | error fault =>
      simp only [reduceCtorEq, false_iff]
      rintro ⟨number, writes, has⟩
      rw [index_eq_some_iff.mpr ⟨writes, found has⟩] at read
      cases read
  | ok place =>
      have same : (∃ number, number? token = some number ∧ elements[number]? = some inner) ↔
          place.bind (elements[·]?) = some inner := by
        rw [Option.bind_eq_some_iff]
        constructor
        · rintro ⟨number, writes, has⟩
          rw [index_eq_some_iff.mpr ⟨writes, found has⟩] at read
          exact ⟨number, (Except.ok.inj read).symm, has⟩
        · rintro ⟨number, rfl, has⟩
          exact ⟨number, (index_eq_some_iff.mp read).1, has⟩
      rw [same]
      dsimp only
      cases place.bind (elements[·]?) <;> simp

/-- A token leads to a child if and only if it stands for a step that leads there. -/
theorem child_eq_ok {value inner : Json} {token : String} : child value token = .ok inner ↔
    ∃ step, StandsFor token step ∧ value.follow? [step] = some inner := by
  cases value with
  | obj members =>
      rw [child_obj_eq_ok]
      constructor
      · intro has
        exact ⟨.key token, rfl, by rw [follow?_key, has]⟩
      · rintro ⟨step, stands, has⟩
        cases step with
        | key name =>
            cases stands
            rwa [follow?_key] at has
        | index number => cases has
  | arr elements =>
      rw [child_arr_eq_ok]
      constructor
      · rintro ⟨number, writes, has⟩
        exact ⟨.index number, writes, by rw [follow?_index, has]⟩
      · rintro ⟨step, stands, has⟩
        cases step with
        | key name => cases has
        | index number => exact ⟨number, stands, by rwa [follow?_index] at has⟩
  | _ => simp [child, follow?]

/-- A row of tokens leads to a value if and only if it stands for a row of steps that leads
there. -/
theorem descend_eq_ok {root value : Json} {tokens : List String} :
    descend root tokens = .ok value ↔
      ∃ steps, List.Forall₂ StandsFor tokens steps ∧ root.follow? steps = some value := by
  induction tokens generalizing root with
  | nil => simp
  | cons token rest ih =>
      rw [descend_cons]
      refine except_bind_eq_ok.trans ?_
      constructor
      · rintro ⟨inner, child, found⟩
        obtain ⟨step, stands, here⟩ := child_eq_ok.mp child
        obtain ⟨steps, behind, there⟩ := ih.mp found
        exact ⟨step :: steps, .cons stands behind, by rw [follow?_cons, here]; exact there⟩
      · rintro ⟨_, _ | ⟨stands, behind⟩, leads⟩
        rw [follow?_cons] at leads
        obtain ⟨inner, here, there⟩ := Option.bind_eq_some_iff.mp leads
        exact ⟨inner, child_eq_ok.mpr ⟨_, stands, here⟩, ih.mpr ⟨_, behind, there⟩⟩

/-- The token of a step, with nothing escaped. -/
def stepToken : Step → String
  | .key name => name
  | .index number => toString number

theorem standsFor_stepToken (step : Step) : StandsFor (stepToken step) step := by
  cases step with
  | key name => rfl
  | index number => exact number?_toString number

theorem escapePercents_escapeChars_digits {cs : List Char}
    (digits : ∀ c ∈ cs, c.isDigit = true) : escapePercents (escapeChars cs) = cs := by
  induction cs with
  | nil => rfl
  | cons c rest ih =>
      obtain ⟨head, tail⟩ := List.forall_mem_cons.mp digits
      have tilde : c ≠ '~' := by
        rintro rfl
        cases head
      have slash : c ≠ '/' := by
        rintro rfl
        cases head
      have percent : c ≠ '%' := by
        rintro rfl
        cases head
      rw [escapeChars_plain tilde slash, escapePercents_plain percent, ih tail]

theorem writeStep_eq (step : Step) :
    writeStep step = String.ofList (escapePercents (escapeChars (stepToken step).toList)) := by
  cases step with
  | key name => rfl
  | index number =>
      rw [stepToken, escapePercents_escapeChars_digits fun _ => isDigit_of_mem_toString,
        String.ofList_toList]
      rfl

theorem slash_not_mem_writeStep (step : Step) : '/' ∉ (writeStep step).toList := by
  rw [writeStep_eq, String.toList_ofList]
  intro mem
  obtain ⟨c, mem, written⟩ := List.mem_flatMap.mp mem
  split at written
  · simp at written
  · rw [← List.mem_singleton.mp written] at mem
    exact slash_not_mem_escapeChars _ mem

theorem unescapeToken_writeStep (step : Step) :
    unescapeToken (writeStep step) = stepToken step := by
  rw [writeStep_eq, unescapeToken, unescapeChars, String.toList_ofList,
    percentDecodeChars_escapePercents, unescapeTildes_escapeChars, String.ofList_toList]

/-- The pointer that writes a row of steps is read as tokens that stand for them. -/
theorem tokens_ofSteps (steps : List Step) :
    List.Forall₂ StandsFor (tokens (ofSteps steps)) steps := by
  have texts : split '/' (ofSteps steps) = "" :: steps.map writeStep := by
    apply split_slashed
    intro text mem
    obtain ⟨step, -, rfl⟩ := List.mem_map.mp mem
    exact slash_not_mem_writeStep step
  rw [tokens, texts, List.tail_cons, List.map_map, List.forall₂_map_left_iff]
  apply List.forall₂_same.mpr
  intro step _
  rw [Function.comp_apply, unescapeToken_writeStep]
  exact standsFor_stepToken step

/-- To walk along a pointer and then along another one, which begins with a slash, is to walk along
the two as one. -/
theorem walk_append (root : Json) (first : String) {second : String}
    (slash : startsWith '/' second = true) :
    walk root (first ++ second) = (walk root first).bind (walk · second) := by
  rw [walk, tokens_append_slash first slash, descend_append]
  rfl

/-- Every place has a pointer, a pointer leads to the place that its tokens stand for, and pointers
can be put behind each other. -/
theorem walk_places (root : Json) :
    (∀ steps value, root.follow? steps = some value → walk root (ofSteps steps) = .ok value) ∧
      (∀ pointer value, walk root pointer = .ok value ↔
        ∃ steps, List.Forall₂ StandsFor (tokens pointer) steps ∧
          root.follow? steps = some value) ∧
      ∀ first second value, startsWith '/' second = true →
        (walk root (first ++ second) = .ok value ↔
          ∃ middle, walk root first = .ok middle ∧ walk middle second = .ok value) := by
  refine ⟨?_, ?_, ?_⟩
  · intro steps value leads
    exact descend_eq_ok.mpr ⟨steps, tokens_ofSteps steps, leads⟩
  · intro pointer value
    exact descend_eq_ok
  · intro first second value slash
    rw [walk_append root first slash]
    exact except_bind_eq_ok

namespace Sample

/-- A name in which everything is to be escaped, a number and the empty name. -/
def steps : List Step :=
  [.key "a/b%7E~", .index 1, .key ""]

def nested : Json :=
  .obj [("a/b%7E~", .arr [.null, .obj [("", .bool true)]])]

end Sample

/-- The place has a pointer, which leads there also if it is cut in two. -/
theorem walk_places_sample :
    Sample.nested.follow? Sample.steps = some (.bool true) ∧
      ofSteps Sample.steps = "/a~1b%257E~0/1/" ∧
      startsWith '/' "/1/" = true ∧
      walk Sample.nested ("/a~1b%257E~0" ++ "/1/") = .ok (.bool true) ∧
      ∃ middle, walk Sample.nested "/a~1b%257E~0" = .ok middle ∧
        walk middle "/1/" = .ok (.bool true) := by
  obtain ⟨places, -, parts⟩ := walk_places Sample.nested
  have leads : Sample.nested.follow? Sample.steps = some (.bool true) := by rfl
  have written : ofSteps Sample.steps = "/a~1b%257E~0/1/" := by decide +kernel
  have slash : startsWith '/' "/1/" = true := by decide
  have walked : walk Sample.nested ("/a~1b%257E~0" ++ "/1/") = .ok (.bool true) := by
    have whole := places Sample.steps _ leads
    rwa [written] at whole
  exact ⟨leads, written, slash, walked, (parts _ _ _ slash).mp walked⟩

end Pointer

end SchemaForms
