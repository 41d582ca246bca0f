import SchemaForms.Proofs.Json.Reading

/-!
# How a JSON text begins

The first token of a text tells what the text writes: a bracket is the beginning of an array, a brace
that of an object, and any other value is a token of its own. The reader forgets its tokens, but the
outermost of the containers that are not complete yet still tells what the first one was, and the
value that is read in the end is of that kind.
-/

namespace SchemaForms.Json

/-- The token with which a value begins. -/
def opener : Json → Lexeme
  | .arr _ => .openArray
  | .obj _ => .openObject
  | value => .scalar value

def Frame.opener : Frame → Lexeme
  | .elements _ => .openArray
  | .member _ _ => .openObject

/-- The token with which the outermost container began; the given one is within all of them. -/
def outermost (inner : Lexeme) : List Frame → Lexeme
  | [] => inner
  | frame :: around => outermost frame.opener around

def ReaderState.opener : ReaderState → Option Lexeme
  | .beforeValue [] => none
  | .beforeValue (frame :: around) => some (outermost frame.opener around)
  | .firstElement around | .afterElement _ around => some (outermost .openArray around)
  | .firstName around | .beforeName _ around | .beforeColon _ _ around | .afterMember _ around =>
    some (outermost .openObject around)
  | .complete value => some value.opener

/-- The value is a token of its own. -/
def IsScalar (value : Json) : Prop :=
  value.opener = .scalar value

variable {value : Json} {around : List Frame} {token : Token} {state next : ReaderState}
  {first : Lexeme}

namespace ReaderState

theorem opener_settle (value : Json) (around : List Frame) :
    (settle value around).opener = some (outermost value.opener around) := by
  cases around with
  | nil => rfl
  | cons frame around => cases frame <;> rfl

/-- The first token of a value is the first of all tokens, if no container is around. -/
theorem opener_enter (own : ∀ value, token.lexeme = .scalar value → value.IsScalar)
    (entered : enter around token = .ok next) :
    next.opener = some (outermost token.lexeme around) := by
  unfold enter at entered
  split at entered
  · rename_i value scalar
    rw [← Except.ok.inj entered, opener_settle, own value scalar, scalar]
  · rename_i bracket
    rw [← Except.ok.inj entered, bracket]
    rfl
  · rename_i brace
    rw [← Except.ok.inj entered, brace]
    rfl
  all_goals cases entered

theorem opener_enterName {done : Members} (entered : enterName done around token = .ok next) :
    next.opener = some (outermost .openObject around) := by
  unfold enterName at entered
  split at entered
  · rw [← Except.ok.inj entered]
    rfl
  · cases entered
  · cases entered

/-- What the first token was does not change with the tokens behind it. -/
theorem opener_step (own : ∀ value, token.lexeme = .scalar value → value.IsScalar)
    (opened : state.opener = some first) (run : state.step token = .ok next) :
    next.opener = some first := by
  rw [← opened]
  unfold step at run
  split at run
  case h_1 around =>
    cases around with
    | nil => cases opened
    | cons frame around => exact opener_enter own run
  case h_3 => exact opener_enter own run
  case h_7 => exact opener_enterName run
  case h_8 => exact opener_enterName run
  case h_12 => cases run
  all_goals
    rw [← Except.ok.inj run]
    first | exact opener_settle _ _ | rfl

theorem opener_foldlM {tokens : List Token} (own : Bring IsScalar tokens)
    (opened : state.opener = some first) (run : tokens.foldlM step state = .ok next) :
    next.opener = some first := by
  induction tokens generalizing state with
  | nil => rwa [← Except.ok.inj run]
  | cons token rest ih =>
      obtain ⟨here, others⟩ := List.forall_mem_cons.mp own
      obtain ⟨middle, stepped, run⟩ := exists_step_of_foldlM run
      exact ih others (opener_step here opened stepped) run

end ReaderState

/-- The first token is the one with which the value begins. -/
theorem exists_opener_of_ofTokens {tokens : List Token} {stop : Nat} (own : Bring IsScalar tokens)
    (read : ofTokens tokens stop = .ok value) :
    ∃ token rest, tokens = token :: rest ∧ token.lexeme = value.opener := by
  cases tokens with
  | nil => cases read
  | cons token rest =>
      refine ⟨token, rest, rfl, ?_⟩
      obtain ⟨here, others⟩ := List.forall_mem_cons.mp own
      obtain ⟨middle, entered, run⟩ := exists_step_of_foldlM (run_of_ofTokens read)
      have opened : middle.opener = some token.lexeme := ReaderState.opener_enter here entered
      exact (Option.some.inj (ReaderState.opener_foldlM others opened run)).symm

theorem isScalar_of_readNumber {cs : List Char} {width : Nat}
    (read : readNumber cs = some (.ok value, width)) : value.IsScalar := by
  obtain ⟨n, rfl⟩ | ⟨x, rfl⟩ := int_or_double_of_readNumber read <;> rfl

/-- No token brings an array or an object. -/
theorem isScalar_of_readLexeme {position : Nat} {cs : List Char}
    (scalar : (readLexeme position cs).1 = .scalar value) : value.IsScalar := by
  unfold readLexeme at scalar
  split at scalar
  case h_7 =>
    split at scalar
    · cases scalar
      rfl
    · cases scalar
  case h_14 =>
    split at scalar
    · rename_i read
      cases scalar
      exact isScalar_of_readNumber read
    all_goals cases scalar
  all_goals
    cases scalar
    try rfl

theorem bring_isScalar (cs : List Char) : Bring IsScalar (tokens cs) := by
  intro token mem value scalar
  obtain ⟨place, _, rest, -, same⟩ := exists_of_mem_tokensFrom mem
  exact isScalar_of_readLexeme (same.symm.trans scalar)

/-- Only a brace is read as one. -/
theorem brace_of_readLexeme {position : Nat} {cs : List Char}
    (brace : (readLexeme position cs).1 = .openObject) : ∃ rest, cs = '\x7b' :: rest := by
  unfold readLexeme at brace
  split at brace
  case h_3 rest => exact ⟨rest, rfl⟩
  case h_7 => split at brace <;> cases brace
  case h_14 => split at brace <;> cases brace
  all_goals cases brace

/-- Before the first token there are spaces only. -/
theorem exists_of_tokensFrom_eq_cons {position : Nat} {cs : List Char} {rest : List Token}
    (cut : tokensFrom 0 position cs = token :: rest) :
    ∃ place spaces after, cs = spaces ++ after ∧ (∀ c ∈ spaces, isSpace c = true) ∧
      token.lexeme = (readLexeme place after).1 := by
  induction cs generalizing position with
  | nil => cases cut
  | cons c cs ih =>
      rw [tokensFrom] at cut
      split at cut
      · rename_i space
        obtain ⟨place, spaces, after, rfl, all, read⟩ := ih cut
        exact ⟨place, c :: spaces, after, rfl, List.forall_mem_cons.mpr ⟨space, all⟩, read⟩
      · refine ⟨position, [], c :: cs, rfl, by simp, ?_⟩
        simp only at cut
        split at cut
        all_goals
          obtain ⟨rfl, -⟩ := List.cons.inj cut
          rfl

/-- The text of an object begins with a brace, behind spaces. -/
theorem brace_of_ofTokens {cs : List Char} {members : Members} {stop : Nat}
    (read : ofTokens (tokens cs) stop = .ok (.obj members)) :
    ∃ spaces rest, cs = spaces ++ '\x7b' :: rest ∧ ∀ c ∈ spaces, isSpace c = true := by
  obtain ⟨token, later, cut, opens⟩ := exists_opener_of_ofTokens (bring_isScalar cs) read
  obtain ⟨place, spaces, after, rfl, all, own⟩ := exists_of_tokensFrom_eq_cons cut
  obtain ⟨rest, rfl⟩ := brace_of_readLexeme (own.symm.trans opens)
  exact ⟨spaces, rest, rfl, all⟩

end SchemaForms.Json
