import SchemaForms.Decimal.Shortest
import SchemaForms.Json.Basic
import SchemaForms.Text.Encoding
import SchemaForms.Text.Quoted

/-!
# Writing JSON

Values are written in the order of their members. A style says whether characters outside ASCII
are escaped and whether the text is laid out on indented lines. Messages show values in a notation
of their own, `Json.shown`, with quoted texts and the words `None`, `True` and `False`. An integer
with too many digits cannot be shown.
-/

namespace SchemaForms.Json

structure Style where
  /-- Escape every character that is not printable ASCII. -/
  ascii : Bool
  /-- Put each element and member on a line of its own, indented by this many spaces a level. -/
  indent : Option Nat

def Style.line : Style := ⟨true, none⟩

/-- On indented lines, with all characters as they are. -/
def Style.page : Style := ⟨false, some 2⟩

/-- Floating point numbers without digits, as JSON text names them. -/
def jsonNames : SpecialNames := ⟨"NaN", "Infinity"⟩

def shownNames : SpecialNames := ⟨"nan", "inf"⟩

def numberEscape (unit : Nat) : List Char :=
  '\\' :: 'u' :: Text.hexDigits 4 unit

/-- One character of a string, as it is or by its escape. -/
def escapeChar (ascii : Bool) (c : Char) : List Char :=
  if c = '\x22' then ['\\', '\x22']
  else if c = '\\' then ['\\', '\\']
  else if c = '\n' then ['\\', 'n']
  else if c = '\r' then ['\\', 'r']
  else if c = '\t' then ['\\', 't']
  else if c = '\x08' then ['\\', 'b']
  else if c = '\x0c' then ['\\', 'f']
  else if c.toNat < 0x20 then numberEscape c.toNat
  else if !ascii || c.toNat < 0x7F then Text.spell c.toNat
  else if c.toNat < 0x10000 then numberEscape c.toNat
  else
    let n := c.toNat - 0x10000
    numberEscape (0xD800 + n / 0x400) ++ numberEscape (0xDC00 + n % 0x400)

/-- One code point or half of a string; in ASCII a half is written by number. -/
def escapeCode (ascii : Bool) (n : Nat) : List Char :=
  if Text.isSurrogate n then (if ascii then numberEscape n else Text.spell n)
  else escapeChar ascii (Char.ofNat n)

def writeString (ascii : Bool) (s : String) : List Char :=
  '\x22' :: (Text.codesOf s).flatMap (escapeCode ascii) ++ ['\x22']

/-- The beginning of a line at a level, if lines are used. -/
def Style.newline (style : Style) (level : Nat) : List Char :=
  match style.indent with
  | none => []
  | some width => '\n' :: List.replicate (width * level) ' '

/-- What stands between two elements or members at a level. -/
def Style.separator (style : Style) (level : Nat) : List Char :=
  match style.indent with
  | none => [',', ' ']
  | some _ => ',' :: style.newline level

mutual

def writeChars (style : Style) (level : Nat) : Json → List Char
  | .null => ['n', 'u', 'l', 'l']
  | .bool true => ['t', 'r', 'u', 'e']
  | .bool false => ['f', 'a', 'l', 's', 'e']
  | .int n => (toString n).toList
  | .double x => (x.text jsonNames).toList
  | .str s => writeString style.ascii s
  | .arr [] => ['[', ']']
  | .arr elements =>
    '[' :: style.newline (level + 1) ++ writeElements style (level + 1) elements ++
      style.newline level ++ [']']
  | .obj [] => ['\x7b', '\x7d']
  | .obj members =>
    '\x7b' :: style.newline (level + 1) ++ writeMembers style (level + 1) members ++
      style.newline level ++ ['\x7d']

def writeElements (style : Style) (level : Nat) : List Json → List Char
  | [] => []
  | [value] => writeChars style level value
  | value :: rest =>
    writeChars style level value ++ style.separator level ++ writeElements style level rest

def writeMembers (style : Style) (level : Nat) : List (String × Json) → List Char
  | [] => []
  | [(name, value)] => writeString style.ascii name ++ ':' :: ' ' :: writeChars style level value
  | (name, value) :: rest =>
    writeString style.ascii name ++ ':' :: ' ' :: writeChars style level value ++
      style.separator level ++ writeMembers style level rest

end

def write (style : Style) (value : Json) : String :=
  String.ofList (writeChars style 0 value)

mutual

def shown : Json → Except Text.DigitFault String
  | .null => .ok "None"
  | .bool true => .ok "True"
  | .bool false => .ok "False"
  | .int n => Text.writeDecimal n
  | .double x => .ok (x.text shownNames)
  | .str s => .ok (Text.quoted s)
  | .arr elements => (shownElements elements).map fun text => "[" ++ text ++ "]"
  | .obj members => (shownMembers members).map fun text => "\x7b" ++ text ++ "\x7d"

def shownElements : List Json → Except Text.DigitFault String
  | [] => .ok ""
  | [value] => shown value
  | value :: rest => do
    let text ← shown value
    let texts ← shownElements rest
    return text ++ ", " ++ texts

def shownMembers : List (String × Json) → Except Text.DigitFault String
  | [] => .ok ""
  | [(name, value)] => (shown value).map fun text => Text.quoted name ++ ": " ++ text
  | (name, value) :: rest => do
    let text ← shown value
    let texts ← shownMembers rest
    return Text.quoted name ++ ": " ++ text ++ ", " ++ texts

end

end SchemaForms.Json
