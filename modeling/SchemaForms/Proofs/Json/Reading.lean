import Mathlib.Data.List.TakeWhile
import SchemaForms.Json.Reader

/-!
# What the reader puts together

The reader of JSON begins with the values that tokens bring, and makes arrays of elements and objects
of members. `Builds` says that these steps keep a property of values, given what holds of the
containers that are not complete yet. Then each value that is read has the property, if the tokens
bring no others. The reader stops at a number with too many digits, and `overlong_of_ofOctets` finds
these digits in the text.
-/

namespace SchemaForms.Json

/-- What the state of the reader holds, as the containers around its place. -/
def ReaderState.held : ReaderState → List Frame
  | .beforeValue around | .firstElement around | .firstName around => around
  | .afterElement done around => .elements done :: around
  | .beforeName done around | .afterMember done around => .member done "" :: around
  | .beforeColon done name around => .member done name :: around
  | .complete value => [.elements [value]]

/-- A run over tokens is a step, and then the run over the others. -/
theorem exists_step_of_foldlM {token : Token} {tokens : List Token} {state last : ReaderState}
    (run : (token :: tokens).foldlM ReaderState.step state = .ok last) :
    ∃ next, state.step token = .ok next ∧ tokens.foldlM ReaderState.step next = .ok last := by
  rw [List.foldlM_cons] at run
  cases stepped : state.step token with
  | error fault =>
      rw [stepped] at run
      cases run
  | ok next =>
      rw [stepped] at run
      exact ⟨next, rfl, run⟩

/-- Behind the tokens of a value nothing is expected but the end. -/
theorem run_of_ofTokens {tokens : List Token} {stop : Nat} {value : Json}
    (read : ofTokens tokens stop = .ok value) :
    tokens.foldlM ReaderState.step (.beforeValue []) = .ok (.complete value) := by
  unfold ofTokens at read
  cases run : tokens.foldlM ReaderState.step (.beforeValue []) with
  | error fault =>
      rw [run] at read
      cases read
  | ok state =>
      rw [run] at read
      cases state with
      | complete found => rw [Except.ok.inj read]
      | _ => cases read

/-- The tokens bring values with the property only. -/
def Bring (good : Json → Prop) (tokens : List Token) : Prop :=
  ∀ token ∈ tokens, ∀ value, token.lexeme = .scalar value → good value

/-- A property of values is kept by the steps of the reader, with what holds of the containers that
are not complete yet. -/
structure Builds (good : Json → Prop) (holds : Frame → Prop) : Prop where
  noElements : holds (.elements [])
  noMembers : holds (.member [] "")
  element : ∀ {done value}, holds (.elements done) → good value → holds (.elements (value :: done))
  name : ∀ {done before name}, holds (.member done before) → good (.str name) →
    holds (.member done name)
  member : ∀ {done name value}, holds (.member done name) → good value →
    holds (.member (Members.set done name value) "")
  array : ∀ {done}, holds (.elements done) → good (.arr done.reverse)
  object : ∀ {done name}, holds (.member done name) → good (.obj done)
  only : ∀ {value}, holds (.elements [value]) → good value

namespace Builds

variable {good : Json → Prop} {holds : Frame → Prop} (builds : Builds good holds)
variable {around : List Frame} {value : Json} {token : Token} {state next : ReaderState}

include builds

theorem settle (own : good value) (outer : ∀ frame ∈ around, holds frame) :
    ∀ frame ∈ (ReaderState.settle value around).held, holds frame := by
  cases around with
  | nil =>
      intro frame mem
      rw [List.mem_singleton.mp mem]
      exact builds.element builds.noElements own
  | cons frame around =>
      obtain ⟨inner, others⟩ := List.forall_mem_cons.mp outer
      cases frame with
      | elements done => exact List.forall_mem_cons.mpr ⟨builds.element inner own, others⟩
      | member done name => exact List.forall_mem_cons.mpr ⟨builds.member inner own, others⟩

theorem enter (own : ∀ value, token.lexeme = .scalar value → good value)
    (outer : ∀ frame ∈ around, holds frame)
    (entered : ReaderState.enter around token = .ok next) : ∀ frame ∈ next.held, holds frame := by
  unfold ReaderState.enter at entered
  split at entered
  · rename_i value scalar
    rw [← Except.ok.inj entered]
    exact builds.settle (own value scalar) outer
  · rw [← Except.ok.inj entered]
    exact outer
  · rw [← Except.ok.inj entered]
    exact outer
  all_goals cases entered

theorem enterName {done : Members} (own : ∀ value, token.lexeme = .scalar value → good value)
    (inner : holds (.member done "")) (outer : ∀ frame ∈ around, holds frame)
    (entered : ReaderState.enterName done around token = .ok next) :
    ∀ frame ∈ next.held, holds frame := by
  unfold ReaderState.enterName at entered
  split at entered
  · rename_i name scalar
    rw [← Except.ok.inj entered]
    exact List.forall_mem_cons.mpr ⟨builds.name inner (own _ scalar), outer⟩
  · cases entered
  · cases entered

/-- A token that brings no other value leaves the reader with no other. -/
theorem step (own : ∀ value, token.lexeme = .scalar value → good value)
    (h : ∀ frame ∈ state.held, holds frame) (run : state.step token = .ok next) :
    ∀ frame ∈ next.held, holds frame := by
  unfold ReaderState.step at run
  split at run
  case h_1 => exact builds.enter own h run
  case h_2 =>
    rw [← Except.ok.inj run]
    exact builds.settle (builds.array builds.noElements) h
  case h_3 => exact builds.enter own (List.forall_mem_cons.mpr ⟨builds.noElements, h⟩) run
  case h_4 =>
    obtain ⟨inner, outer⟩ := List.forall_mem_cons.mp h
    rw [← Except.ok.inj run]
    exact builds.settle (builds.array inner) outer
  case h_6 =>
    rw [← Except.ok.inj run]
    exact builds.settle (builds.object builds.noMembers) h
  case h_7 => exact builds.enterName own builds.noMembers h run
  case h_8 =>
    obtain ⟨inner, outer⟩ := List.forall_mem_cons.mp h
    exact builds.enterName own inner outer run
  case h_10 =>
    obtain ⟨inner, outer⟩ := List.forall_mem_cons.mp h
    rw [← Except.ok.inj run]
    exact builds.settle (builds.object inner) outer
  -- In the other states a comma or a colon leaves everything as it is.
  case h_12 => cases run
  all_goals
    rw [← Except.ok.inj run]
    exact h

/-- So it is behind all of the tokens. -/
theorem foldlM {tokens : List Token} (own : Bring good tokens)
    (h : ∀ frame ∈ state.held, holds frame)
    (run : tokens.foldlM ReaderState.step state = .ok next) : ∀ frame ∈ next.held, holds frame := by
  induction tokens generalizing state with
  | nil => rwa [← Except.ok.inj run]
  | cons token rest ih =>
      obtain ⟨first, others⟩ := List.forall_mem_cons.mp own
      obtain ⟨middle, stepped, run⟩ := exists_step_of_foldlM run
      exact ih others (builds.step first h stepped) run

theorem ofTokens {tokens : List Token} {stop : Nat} (own : Bring good tokens)
    (read : Json.ofTokens tokens stop = .ok value) : good value := by
  have start : ∀ frame ∈ (ReaderState.beforeValue []).held, holds frame := by
    intro frame mem
    cases mem
  exact builds.only (builds.foldlM own start (run_of_ofTokens read) _ (List.mem_singleton_self _))

end Builds

/-- A number is read as an integer or as a floating point number. -/
theorem int_or_double_of_readNumber {cs : List Char} {value : Json} {width : Nat}
    (read : readNumber cs = some (.ok value, width)) :
    (∃ n, value = .int n) ∨ ∃ x, value = .double x := by
  unfold readNumber at read
  obtain ⟨⟨digits, rest⟩, -, made⟩ := Option.map_eq_some_iff.mp read
  simp only at made
  split at made
  · obtain ⟨whole, -⟩ := Prod.mk.inj made
    cases plain : Text.readDecimal digits with
    | error fault =>
        rw [plain] at whole
        cases whole
    | ok n =>
        rw [plain] at whole
        exact .inl ⟨_, (Except.ok.inj whole).symm⟩
  · obtain ⟨eq, -⟩ := Prod.mk.inj made
    exact .inr ⟨_, (Except.ok.inj eq).symm⟩

theorem exists_of_mem_tokensFrom {cs : List Char} {skip position : Nat} {token : Token}
    (mem : token ∈ tokensFrom skip position cs) :
    ∃ place front rest, cs = front ++ rest ∧ token.lexeme = (readLexeme place rest).1 := by
  induction cs generalizing skip position with
  | nil => cases skip <;> cases mem
  | cons c rest ih =>
      have behind {skip position : Nat} (mem : token ∈ tokensFrom skip position rest) :
          ∃ place front after, c :: rest = front ++ after ∧
            token.lexeme = (readLexeme place after).1 := by
        obtain ⟨place, front, after, rfl, read⟩ := ih mem
        exact ⟨place, c :: front, after, rfl, read⟩
      cases skip with
      | succ skip => exact behind mem
      | zero =>
          rw [tokensFrom] at mem
          split at mem
          · exact behind mem
          · simp only at mem
            split at mem
            · rw [List.mem_singleton.mp mem]
              exact ⟨position, [], c :: rest, rfl, rfl⟩
            · obtain rfl | later := List.mem_cons.mp mem
              · exact ⟨position, [], c :: rest, rfl, rfl⟩
              · exact behind later

theorem exists_chars_of_ofOctets {octets : List UInt8} {value : Json}
    (read : ofOctets octets = .ok value) :
    ∃ cs, Text.decodeJsonText octets = .ok cs ∧ ofTokens (tokens cs) cs.length = .ok value := by
  unfold ofOctets at read
  split at read
  · cases read
  · rename_i cs decoded
    refine ⟨cs, decoded, ?_⟩
    unfold ofChars at read
    split at read
    · rename_i found written
      rw [written, Except.ok.inj read]
    all_goals cases read

section Overlong

variable {cs : List Char} {fault : Text.DigitFault}

/-- There are more digits at the beginning of the text than an integer may have. -/
def BeginsOverlong (fault : Text.DigitFault) (cs : List Char) : Prop :=
  ∃ digits rest, cs = digits ++ rest ∧ (∀ c ∈ digits, c.isDigit) ∧
    Text.digitLimit < digits.length ∧ fault = .read digits.length

theorem length_filterMap_digits (digits : List Char) (each : ∀ c ∈ digits, c.isDigit) :
    (digits.filterMap Text.asciiDigit?).length = digits.length := by
  induction digits with
  | nil => rfl
  | cons c rest ih =>
      obtain ⟨own, each⟩ := List.forall_mem_cons.mp each
      rw [List.filterMap_cons, Text.asciiDigit?, if_pos own, List.length_cons, List.length_cons,
        ih each]

theorem beginsOverlong_of_spanDigits
    (read : Text.readDecimal (spanDigits cs).1 = .error fault) : BeginsOverlong fault cs := by
  have each : ∀ c ∈ cs.takeWhile Char.isDigit, c.isDigit := fun c => List.mem_takeWhile_imp
  rw [spanDigits, Text.readDecimal, length_filterMap_digits _ each] at read
  split at read
  · rename_i more
    exact ⟨_, _, List.takeWhile_append_dropWhile.symm, each, more, (Except.error.inj read).symm⟩
  · cases read

/-- Only the digits of the integer part may be too many, behind a sign. -/
theorem beginsOverlong_of_readNumber {width : Nat}
    (read : readNumber cs = some (.error fault, width)) :
    ∃ front rest, cs = front ++ rest ∧ BeginsOverlong fault rest := by
  unfold readNumber at read
  obtain ⟨⟨digits, after⟩, whole, made⟩ := Option.map_eq_some_iff.mp read
  simp only at made whole
  split at made
  · obtain ⟨failed, -⟩ := Prod.mk.inj made
    have overlong : Text.readDecimal digits = .error fault := by
      cases plain : Text.readDecimal digits with
      | error _ =>
          rw [plain] at failed
          exact congrArg _ (Except.error.inj failed)
      | ok _ =>
          rw [plain] at failed
          cases failed
    split at whole
    · obtain ⟨rfl, -⟩ := Prod.mk.inj (Option.some.inj whole)
      cases overlong
    · split at whole
      · cases whole
      · have own : digits = _ := (congrArg Prod.fst (Option.some.inj whole)).symm
        rw [own] at overlong
        have begins := beginsOverlong_of_spanDigits overlong
        split at begins
        · exact ⟨['-'], _, rfl, begins⟩
        · exact ⟨[], _, rfl, begins⟩
  · obtain ⟨failed, -⟩ := Prod.mk.inj made
    cases failed

theorem beginsOverlong_of_readLexeme {position : Nat}
    (read : (readLexeme position cs).1 = .overlong fault) :
    ∃ front rest, cs = front ++ rest ∧ BeginsOverlong fault rest := by
  unfold readLexeme at read
  split at read
  case h_14 =>
    split at read
    · cases read
    · rename_i number
      obtain rfl := Lexeme.overlong.inj read
      exact beginsOverlong_of_readNumber number
    · cases read
  case h_7 => split at read <;> cases read
  all_goals cases read

/-- A step that fails for the digits of a number has come to its token. -/
theorem overlong_of_step {state : ReaderState} {token : Token}
    (failed : state.step token = .error (.digits fault)) : token.lexeme = .overlong fault := by
  have entered {around : List Frame}
      (failed : ReaderState.enter around token = .error (.digits fault)) :
      token.lexeme = .overlong fault := by
    unfold ReaderState.enter at failed
    split at failed
    case h_5 named =>
      rw [named]
      exact congrArg Lexeme.overlong (TokenFault.digits.inj (Except.error.inj failed))
    all_goals cases failed
  have named {done : Members} {around : List Frame} :
      ReaderState.enterName done around token ≠ .error (.digits fault) := by
    unfold ReaderState.enterName
    split <;> nofun
  unfold ReaderState.step at failed
  split at failed
  all_goals first
    | exact entered failed
    | exact absurd failed named
    | cases failed

theorem exists_overlong_of_foldlM {tokens : List Token} {state : ReaderState}
    (failed : tokens.foldlM ReaderState.step state = .error (.digits fault)) :
    ∃ token ∈ tokens, token.lexeme = .overlong fault := by
  induction tokens generalizing state with
  | nil => cases failed
  | cons token rest ih =>
      rw [List.foldlM_cons] at failed
      cases stepped : state.step token with
      | error other =>
          rw [stepped] at failed
          obtain rfl := Except.error.inj failed
          exact ⟨token, List.mem_cons_self, overlong_of_step stepped⟩
      | ok next =>
          rw [stepped] at failed
          obtain ⟨found, mem, overlong⟩ := ih failed
          exact ⟨found, List.mem_cons_of_mem _ mem, overlong⟩

theorem foldlM_of_ofTokens_overlong {tokens : List Token} {stop : Nat}
    (failed : ofTokens tokens stop = .error (.digits fault)) :
    tokens.foldlM ReaderState.step (.beforeValue []) = .error (.digits fault) := by
  unfold ofTokens at failed
  cases run : tokens.foldlM ReaderState.step (.beforeValue []) with
  | error other =>
      rw [run] at failed
      rw [Except.error.inj failed]
  | ok state =>
      rw [run] at failed
      cases state <;> cases failed

/-- Octets cannot be read for the digits of a number only if their text has more of them in a row than
an integer may have. -/
theorem overlong_of_ofOctets {octets : List UInt8}
    (failed : ofOctets octets = .error (.digits fault)) :
    ∃ cs front rest, Text.decodeJsonText octets = .ok cs ∧ cs = front ++ rest ∧
      BeginsOverlong fault rest := by
  unfold ofOctets at failed
  split at failed
  · cases failed
  · rename_i cs decoded
    unfold ofChars at failed
    split at failed
    · cases failed
    · rename_i found run
      obtain rfl := ReadFault.digits.inj (Except.error.inj failed)
      obtain ⟨token, mem, overlong⟩ :=
        exists_overlong_of_foldlM (foldlM_of_ofTokens_overlong run)
      obtain ⟨_, front, rest, rfl, lexeme⟩ := exists_of_mem_tokensFrom mem
      obtain ⟨sign, digits, rfl, begins⟩ := beginsOverlong_of_readLexeme (lexeme ▸ overlong)
      exact ⟨_, front ++ sign, digits, decoded, (List.append_assoc _ _ _).symm, begins⟩
    · cases failed

end Overlong

end SchemaForms.Json
