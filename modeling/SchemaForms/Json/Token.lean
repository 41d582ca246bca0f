import SchemaForms.Decimal.Binary64
import SchemaForms.Json.Basic
import SchemaForms.Text.Encoding

/-!
# The tokens of a JSON text

A JSON text is cut into tokens, each with the position of its first character. Cutting stops at
the first place where no token begins or where a string is malformed; that place is a token too,
so that a reader can say what it had expected there. Numbers without fraction and exponent are
integers, which may not have too many digits, and the names `NaN`, `Infinity` and `-Infinity` are
numbers.
-/

namespace SchemaForms.Json

inductive SyntaxReason where
  | expectedValue
  | expectedName
  | expectedColon
  | expectedComma
  | extraData
  | unterminatedString
  | controlCharacter
  | invalidEscape
  | invalidUnicodeEscape
  | byteOrderMark
deriving DecidableEq, Repr

/-- A token, or a place where none begins. -/
inductive Lexeme where
  | openArray
  | closeArray
  | openObject
  | closeObject
  | colon
  | comma
  | scalar (value : Json)
  | malformed (reason : SyntaxReason) (position : Nat)
  /-- An integer that cannot be read. -/
  | overlong (fault : Text.DigitFault)
  | unknown
deriving Repr

/-- A token with the position of its first character. -/
structure Token where
  lexeme : Lexeme
  position : Nat
deriving Repr

def hex4? (a b c d : Char) : Option Nat := do
  let digits ← [a, b, c, d].mapM Text.hexDigit?
  return Text.ofDigits 16 digits

/-- The character that a single letter after a backslash stands for. -/
def shortEscape? : Char → Option Char
  | '\x22' => some '\x22'
  | '\\' => some '\\'
  | '/' => some '/'
  | 'b' => some '\x08'
  | 'f' => some '\x0c'
  | 'n' => some '\n'
  | 'r' => some '\r'
  | 't' => some '\t'
  | _ => none

/-- A fault of a string, with its position. -/
abbrev StringFault := SyntaxReason × Nat

/-- Read the escape after a backslash at `position`, in a string that begins at `start`: what it
spells, and how many characters of the text after the backslash the escape takes. An escape by
number has to be followed by another character. The halves of a surrogate pair are read
together. -/
def readEscape (start position : Nat) : List Char → Except StringFault (List Char × Nat)
  | [] => .error (.unterminatedString, start)
  | 'u' :: a :: b :: c :: d :: next :: rest =>
    match hex4? a b c d with
    | none => .error (.invalidUnicodeEscape, position + 1)
    | some unit =>
      if Text.isHighSurrogate unit then
        match next, rest with
        | '\\', 'u' :: e :: f :: g :: h :: _ :: _ =>
          match hex4? e f g h with
          | none => .error (.invalidUnicodeEscape, position + 7)
          | some low =>
            if Text.isLowSurrogate low then .ok (Text.spell (Text.joinSurrogates unit low), 11)
            else .ok (Text.spell unit, 5)
        | _, _ => .ok (Text.spell unit, 5)
      else .ok (Text.spell unit, 5)
  | 'u' :: _ => .error (.invalidUnicodeEscape, position + 1)
  | c :: _ =>
    match shortEscape? c with
    | some char => .ok ([char], 1)
    | none => .error (.invalidEscape, position)

/-- Read a string that begins at `start`, from the character at `position` on: its text, and the
position behind its closing quotation mark. `skip` characters have been read with an escape;
`done` holds the text so far, last character first. -/
def readString (start : Nat) : Nat → Nat → List Char → List Char → Except StringFault (String × Nat)
  | _, _, _, [] => .error (.unterminatedString, start)
  | skip + 1, position, done, _ :: rest => readString start skip (position + 1) done rest
  | 0, position, done, c :: rest =>
    if c = '\x22' then .ok (String.ofList done.reverse, position + 1)
    else if c = '\\' then
      match readEscape start position rest with
      | .error fault => .error fault
      | .ok (chars, width) =>
        readString start width (position + 1) (chars.reverse ++ done) rest
    else if c.toNat < 0x20 then .error (.controlCharacter, position)
    else readString start 0 (position + 1) (c :: done) rest

/-- The digits at the beginning of a text, and what follows them. -/
def spanDigits (cs : List Char) : List Nat × List Char :=
  let digits := cs.takeWhile Char.isDigit
  (digits.filterMap Text.asciiDigit?, cs.drop digits.length)

/-- The fraction at the beginning of a text, if there is one: a point and at least one digit. -/
def readFraction (cs : List Char) : Option (List Nat × List Char) :=
  match cs with
  | '.' :: rest =>
    match spanDigits rest with
    | ([], _) => none
    | found => some found
  | _ => none

/-- The exponent at the beginning of a text, if there is one: its value, the number of its
characters, and what follows it. -/
def readExponent (cs : List Char) : Option (Int × Nat × List Char) :=
  match cs with
  | e :: rest =>
    if e = 'e' ∨ e = 'E' then
      let (negative, signWidth, rest) := match rest with
        | '-' :: rest => (true, 1, rest)
        | '+' :: rest => (false, 1, rest)
        | _ => (false, 0, rest)
      match spanDigits rest with
      | ([], _) => none
      | (digits, rest) =>
        let value : Int := Text.ofDigits 10 digits
        some (if negative then -value else value, 1 + signWidth + digits.length, rest)
    else none
  | [] => none

/-- The number at the beginning of a text, and the number of its characters. The integer part has
no zero in front of other digits; a point or an exponent that is not complete is left alone. -/
def readNumber (cs : List Char) : Option (Except Text.DigitFault Json × Nat) :=
  let (negative, signWidth, rest) := match cs with
    | '-' :: rest => (true, 1, rest)
    | _ => (false, 0, cs)
  let whole : Option (List Nat × List Char) := match rest with
    | '0' :: rest => some ([0], rest)
    | _ =>
      match spanDigits rest with
      | ([], _) => none
      | found => some found
  whole.map fun (digits, rest) =>
    let width := signWidth + digits.length
    let fraction := readFraction rest
    let (fractionDigits, rest) := fraction.getD ([], rest)
    let width := if fraction.isSome then width + 1 + fractionDigits.length else width
    let exponent := readExponent rest
    if fraction.isNone && exponent.isNone then
      let value := (Text.readDecimal digits).map fun n => Json.int (if negative then -n else n)
      (value, width)
    else
      let (power, exponentWidth) := match exponent with
        | some (power, exponentWidth, _) => (power, exponentWidth)
        | none => (0, 0)
      (.ok (.double (Binary64.ofDecimal negative (Text.ofDigits 10 (digits ++ fractionDigits))
        (power - fractionDigits.length))), width + exponentWidth)

/-- The token at the beginning of a text that begins at `position`, and the number of its
characters. -/
def readLexeme (position : Nat) (cs : List Char) : Lexeme × Nat :=
  match cs with
  | '[' :: _ => (.openArray, 1)
  | ']' :: _ => (.closeArray, 1)
  | '\x7b' :: _ => (.openObject, 1)
  | '\x7d' :: _ => (.closeObject, 1)
  | ':' :: _ => (.colon, 1)
  | ',' :: _ => (.comma, 1)
  | '\x22' :: rest =>
    match readString position 0 (position + 1) [] rest with
    | .ok (text, stop) => (.scalar (.str text), stop - position)
    | .error (reason, place) => (.malformed reason place, 1)
  | 'n' :: 'u' :: 'l' :: 'l' :: _ => (.scalar .null, 4)
  | 't' :: 'r' :: 'u' :: 'e' :: _ => (.scalar (.bool true), 4)
  | 'f' :: 'a' :: 'l' :: 's' :: 'e' :: _ => (.scalar (.bool false), 5)
  | 'N' :: 'a' :: 'N' :: _ => (.scalar (.double .nan), 3)
  | 'I' :: 'n' :: 'f' :: 'i' :: 'n' :: 'i' :: 't' :: 'y' :: _ =>
    (.scalar (.double (.infinite false)), 8)
  | '-' :: 'I' :: 'n' :: 'f' :: 'i' :: 'n' :: 'i' :: 't' :: 'y' :: _ =>
    (.scalar (.double (.infinite true)), 9)
  | _ =>
    match readNumber cs with
    | some (.ok value, width) => (.scalar value, width)
    | some (.error fault, width) => (.overlong fault, width)
    | none => (.unknown, 1)

/-- The characters that may stand between tokens. -/
def isSpace (c : Char) : Bool :=
  c = ' ' || c = '\t' || c = '\n' || c = '\r'

/-- Nothing is read behind this token. -/
def Lexeme.isLast : Lexeme → Bool
  | .malformed _ _ => true
  | .overlong _ => true
  | .unknown => true
  | _ => false

/-- The tokens of a text whose first character is at `position`, of which `skip` characters belong
to the token before. -/
def tokensFrom : Nat → Nat → List Char → List Token
  | _, _, [] => []
  | skip + 1, position, _ :: rest => tokensFrom skip (position + 1) rest
  | 0, position, c :: rest =>
    if isSpace c then tokensFrom 0 (position + 1) rest
    else
      let (lexeme, width) := readLexeme position (c :: rest)
      if lexeme.isLast then [⟨lexeme, position⟩]
      else ⟨lexeme, position⟩ :: tokensFrom (width - 1) (position + 1) rest

def tokens (cs : List Char) : List Token :=
  tokensFrom 0 0 cs

end SchemaForms.Json
