import SchemaForms.Json.Token
import SchemaForms.Text.Blank

/-!
# Numbers as people write them

Numbers in settings are read more freely than those of JSON texts. Blanks around them do not count,
a sign may stand in front, digits may come from any script, and single underscores may stand
between digits. A number with a point needs a digit on one side of it only, and infinity and the
missing number have names, in any case.
-/

namespace SchemaForms.Settings

/-- The character, with a digit of any script as a digit of ASCII. -/
def asciiDigit (c : Char) : Char :=
  match Text.decimalDigit? c with
  | some n => Char.ofNat ('0'.toNat + n)
  | none => c

/-- Remove the underscores, each of which has to stand between two digits. `afterDigit` says
whether a digit has just been passed. -/
def dropUnderscores (afterDigit : Bool) : List Char → Option (List Char)
  | [] => some []
  | '_' :: c :: rest =>
    if afterDigit && c.isDigit then (dropUnderscores true rest).map (c :: ·) else none
  | c :: rest => if c = '_' then none else (dropUnderscores c.isDigit rest).map (c :: ·)

/-- The characters of a written number, without blanks and underscores and with digits of ASCII. -/
def plainChars (text : String) : Option (List Char) :=
  dropUnderscores false ((Text.trim text).toList.map asciiDigit)

/-- The sign in front of a number, true for a minus, and the rest. -/
def readSign : List Char → Bool × List Char
  | '-' :: rest => (true, rest)
  | '+' :: rest => (false, rest)
  | cs => (false, cs)

/-- The integer that a text writes, with not too many digits. -/
def readInteger (text : String) : Option Int := do
  let (negative, rest) := readSign (← plainChars text)
  match Json.spanDigits rest with
  | (digit :: digits, []) =>
    let n : Int ← (Text.readDecimal (digit :: digits)).toOption
    return if negative then -n else n
  | _ => none

/-- The exponent that makes up the rest of a number; none is an exponent of zero. -/
def readPower (cs : List Char) : Option Int :=
  if cs.isEmpty then some 0
  else match Json.readExponent cs with
    | some (power, _, []) => some power
    | _ => none

/-- The digits in front of the point and behind it, and what follows them. -/
def readDigits (cs : List Char) : List Nat × List Nat × List Char :=
  match Json.spanDigits cs with
  | (whole, '.' :: rest) =>
    let (fraction, rest) := Json.spanDigits rest
    (whole, fraction, rest)
  | (whole, rest) => (whole, [], rest)

/-- The floating point number that a text without a sign writes. -/
def readMagnitude (negative : Bool) (cs : List Char) : Option Binary64 :=
  let name := String.ofList (cs.map Char.toLower)
  if name = "nan" then some .nan
  else if name = "inf" || name = "infinity" then some (.infinite negative)
  else
    let (whole, fraction, rest) := readDigits cs
    if whole.isEmpty && fraction.isEmpty then none
    else (readPower rest).map fun power =>
      Binary64.ofDecimal negative (Text.ofDigits 10 (whole ++ fraction)) (power - fraction.length)

def readNumber (text : String) : Option Binary64 := do
  let (negative, rest) := readSign (← plainChars text)
  readMagnitude negative rest

end SchemaForms.Settings
