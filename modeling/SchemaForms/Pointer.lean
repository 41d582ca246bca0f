import SchemaForms.Json.Basic
import SchemaForms.Text.Percent
import SchemaForms.Text.Split

/-!
# JSON pointers

A pointer names a place in a value by reference tokens, each after a slash. In a token the slash is
written `~1` and the tilde `~0`, and percent escapes are understood as well. Paths in messages are
pointers behind a `#`. A token is an object's member name or an array's index, as the value at that
place requires.
-/

namespace SchemaForms.Pointer

/-- A token with its tildes and slashes written as pointers write them. -/
def escapeChars (cs : List Char) : List Char :=
  cs.flatMap fun c =>
    if c = '~' then ['~', '0'] else if c = '/' then ['~', '1'] else [c]

/-- A token with its tildes and slashes written as pointers write them. -/
def escapeToken (token : String) : String :=
  String.ofList (escapeChars token.toList)

/-- Undo the writing of slashes and tildes. -/
def unescapeTildes : List Char → List Char
  | '~' :: '1' :: rest => '/' :: unescapeTildes rest
  | '~' :: '0' :: rest => '~' :: unescapeTildes rest
  | c :: rest => c :: unescapeTildes rest
  | [] => []

/-- The token that is written in a pointer: percent escapes are decoded first, then the writing of
slashes and tildes is undone. -/
def unescapeChars (cs : List Char) : List Char :=
  unescapeTildes (Text.percentDecodeChars cs)

def unescapeToken (written : String) : String :=
  String.ofList (unescapeChars written.toList)

/-- A path with one more token. The empty token adds nothing. -/
def extend (path token : String) : String :=
  if token = "" then path else path ++ "/" ++ escapeToken token

/-- A path with more tokens; the empty path stands for the root. -/
def join (path : String) (tokens : List String) : String :=
  tokens.foldl extend (if path = "" then "#" else path)

/-- The index that a token is in an array of the given length, if it is one. Zeros may stand in
front, but a token with too many digits cannot be read. -/
def index (token : String) (length : Nat) : Except Text.DigitFault (Option Nat) :=
  match token.toList.mapM Text.asciiDigit? with
  | none => .ok none
  | some [] => .ok none
  | some digits =>
    match Text.readDecimal digits with
    | .ok index => .ok (if index < length then some index else none)
    | .error fault =>
      -- No array in memory has an element whose own index has too many digits. In one that had,
      -- each element is to be found at its index all the same.
      let index := Text.ofDigits 10 digits
      if index < length ∧ token = toString index then .ok (some index) else .error fault

/-- Why a value has nothing at a token. -/
inductive LookupFault where
  /-- The object or array has no such place. -/
  | missing (token : String)
  /-- The value is neither an object nor an array. -/
  | scalar (token : String)
  /-- The token has too many digits for an index. -/
  | digits (fault : Text.DigitFault)
deriving DecidableEq, Repr

def child (value : Json) (token : String) : Except LookupFault Json :=
  match value with
  | .obj members =>
    match Members.get? members token with
    | some v => .ok v
    | none => .error (.missing token)
  | .arr elements =>
    match index token elements.length with
    | .error fault => .error (.digits fault)
    | .ok found =>
      match found.bind (elements[·]?) with
      | some v => .ok v
      | none => .error (.missing token)
  | _ => .error (.scalar token)

def descend (value : Json) (tokens : List String) : Except LookupFault Json :=
  tokens.foldlM child value

/-- The tokens of a pointer: what follows each slash. -/
def tokens (pointer : String) : List String :=
  (Text.split '/' pointer).tail.map unescapeToken

/-- The value at a pointer, which begins with a slash. -/
def walk (root : Json) (pointer : String) : Except LookupFault Json :=
  descend root (tokens pointer)

@[simp] theorem descend_nil (value : Json) : descend value [] = .ok value := rfl

theorem descend_cons (value : Json) (token : String) (rest : List String) :
    descend value (token :: rest) = (child value token).bind (descend · rest) := rfl

/-- To descend along two rows is to descend along the one and then along the other. -/
theorem descend_append (value : Json) (first second : List String) :
    descend value (first ++ second) = (descend value first).bind (descend · second) := by
  unfold descend
  rw [List.foldlM_append]
  rfl

/-- Undoing the writing of slashes and tildes gives the token back. -/
theorem unescapeTildes_escapeChars (cs : List Char) :
    unescapeTildes (escapeChars cs) = cs := by
  induction cs with
  | nil => rfl
  | cons c cs ih =>
    unfold escapeChars at ih ⊢
    rw [List.flatMap_cons]
    by_cases h : c = '~'
    · subst h
      simpa [unescapeTildes] using ih
    · by_cases h' : c = '/'
      · subst h'
        simpa [unescapeTildes] using ih
      · simp only [h, h', if_false, List.cons_append, List.nil_append]
        rw [unescapeTildes.eq_def]
        split <;> simp_all

end SchemaForms.Pointer
