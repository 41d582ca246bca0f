import SchemaForms.Json.Token

/-!
# Reading JSON

A pushdown machine turns tokens into a value. Its state says what has to come next, so the message
about a text that is not JSON follows from the state at the first token that does not fit, or at
the end of the text. A name that occurs twice in an object keeps its first place and its last
value.
-/

namespace SchemaForms.Json

/-- What stops the machine: a token that does not fit, at its position, or an integer that cannot be
read. -/
inductive TokenFault where
  | unexpected (reason : SyntaxReason) (position : Nat)
  | digits (fault : Text.DigitFault)

/-- A container that is not complete yet, around the place of the machine. -/
inductive Frame where
  /-- An array with the elements so far, last one first. -/
  | elements (done : List Json)
  /-- An object with the members so far, reading the value of the named member. -/
  | member (done : Members) (name : String)

/-- What the machine expects, within the containers around it. -/
inductive ReaderState where
  /-- A value. -/
  | beforeValue (around : List Frame)
  /-- The first element of an array, or its end. -/
  | firstElement (around : List Frame)
  /-- A comma and more elements, or the end of the array. -/
  | afterElement (done : List Json) (around : List Frame)
  /-- The first name of an object, or its end. -/
  | firstName (around : List Frame)
  /-- The name of a member. -/
  | beforeName (done : Members) (around : List Frame)
  /-- The colon behind a name. -/
  | beforeColon (done : Members) (name : String) (around : List Frame)
  /-- A comma and more members, or the end of the object. -/
  | afterMember (done : Members) (around : List Frame)
  /-- The end of the text. -/
  | complete (value : Json)

namespace ReaderState

/-- The complaint about anything that the machine does not expect. -/
def expected : ReaderState → SyntaxReason
  | .beforeValue _ => .expectedValue
  | .firstElement _ => .expectedValue
  | .afterElement _ _ => .expectedComma
  | .firstName _ => .expectedName
  | .beforeName _ _ => .expectedName
  | .beforeColon _ _ _ => .expectedColon
  | .afterMember _ _ => .expectedComma
  | .complete _ => .extraData

/-- The state behind a complete value. -/
def settle (value : Json) : List Frame → ReaderState
  | [] => .complete value
  | .elements done :: around => .afterElement (value :: done) around
  | .member done name :: around => .afterMember (Members.set done name value) around

/-- The state behind the first token of a value. -/
def enter (around : List Frame) (token : Token) : Except TokenFault ReaderState :=
  match token.lexeme with
  | .scalar value => .ok (settle value around)
  | .openArray => .ok (.firstElement around)
  | .openObject => .ok (.firstName around)
  | .malformed reason place => .error (.unexpected reason place)
  | .overlong fault => .error (.digits fault)
  | _ => .error (.unexpected .expectedValue token.position)

/-- The state behind the name of a member. -/
def enterName (done : Members) (around : List Frame) (token : Token) :
    Except TokenFault ReaderState :=
  match token.lexeme with
  | .scalar (.str name) => .ok (.beforeColon done name around)
  | .malformed reason place => .error (.unexpected reason place)
  | _ => .error (.unexpected .expectedName token.position)

/-- The state behind a token. -/
def step (state : ReaderState) (token : Token) : Except TokenFault ReaderState :=
  match state, token.lexeme with
  | .beforeValue around, _ => enter around token
  | .firstElement around, .closeArray => .ok (settle (.arr []) around)
  | .firstElement around, _ => enter (.elements [] :: around) token
  | .afterElement done around, .closeArray => .ok (settle (.arr done.reverse) around)
  | .afterElement done around, .comma => .ok (.beforeValue (.elements done :: around))
  | .firstName around, .closeObject => .ok (settle (.obj []) around)
  | .firstName around, _ => enterName [] around token
  | .beforeName done around, _ => enterName done around token
  | .beforeColon done name around, .colon => .ok (.beforeValue (.member done name :: around))
  | .afterMember done around, .closeObject => .ok (settle (.obj done) around)
  | .afterMember done around, .comma => .ok (.beforeName done around)
  | _, _ => .error (.unexpected state.expected token.position)

end ReaderState

/-- The value that tokens write, given the position of the end of the text. -/
def ofTokens (tokens : List Token) (stop : Nat) : Except TokenFault Json := do
  match ← tokens.foldlM ReaderState.step (.beforeValue []) with
  | .complete value => return value
  | state => throw (.unexpected state.expected stop)

inductive ReadFault where
  | undecodable (fault : Text.DecodeFault)
  | malformed (reason : SyntaxReason) (line column position : Nat)
  /-- The text is JSON as far as it has been read, but an integer has too many digits. -/
  | digits (fault : Text.DigitFault)
deriving DecidableEq, Repr

/-- The line and the column behind code points, both counted from one. -/
def lineAndColumn (passed : List Nat) : Nat × Nat :=
  passed.foldl
    (fun (line, column) n => if n = '\n'.toNat then (line + 1, 1) else (line, column + 1)) (1, 1)

def ofChars (cs : List Char) : Except ReadFault Json :=
  match ofTokens (tokens cs) cs.length with
  | .ok value => .ok value
  | .error (.digits fault) => .error (.digits fault)
  | .error (.unexpected reason position) =>
    let passed := Text.codes (cs.take position)
    let (line, column) := lineAndColumn passed
    .error (.malformed reason line column passed.length)

/-- The value that a text writes. A byte order mark belongs to octets only. -/
def ofText (s : String) : Except ReadFault Json :=
  if s.toList.head? = some '\uFEFF' then .error (.malformed .byteOrderMark 1 1 0)
  else ofChars s.toList

def ofOctets (octets : List UInt8) : Except ReadFault Json :=
  match Text.decodeJsonText octets with
  | .error fault => .error (.undecodable fault)
  | .ok cs => ofChars cs

def SyntaxReason.text : SyntaxReason → String
  | .expectedValue => "Expecting value"
  | .expectedName => "Expecting property name enclosed in double quotes"
  | .expectedColon => "Expecting \x27:\x27 delimiter"
  | .expectedComma => "Expecting \x27,\x27 delimiter"
  | .extraData => "Extra data"
  | .unterminatedString => "Unterminated string starting at"
  | .controlCharacter => "Invalid control character at"
  | .invalidEscape => "Invalid \\escape"
  | .invalidUnicodeEscape => "Invalid \\uXXXX escape"
  | .byteOrderMark => "Unexpected UTF-8 BOM (decode using utf-8-sig)"

def ReadFault.text : ReadFault → String
  | .undecodable fault => fault.text
  | .malformed reason line column position =>
    reason.text ++ ": line " ++ toString line ++ " column " ++ toString column ++
      " (char " ++ toString position ++ ")"
  | .digits fault => fault.text

end SchemaForms.Json
