import SchemaForms.Text.Digit
import SchemaForms.Text.Printable
import SchemaForms.Text.Surrogate

/-!
# Quoted text

The form in which messages show a text: between quotation marks, with escapes for what would not
be visible. Single quotes are used unless the text holds a single quote and no double quote.
-/

namespace SchemaForms.Text

/-- The quotation mark for a text. -/
def quoteFor (cs : List Char) : Char :=
  if cs.contains '\x27' && !cs.contains '\x22' then '\x22' else '\x27'

/-- The escape of a code point or a half by its number, in two, four or eight hexadecimal digits. -/
def numberEscape (n : Nat) : List Char :=
  if n < 0x100 then '\\' :: 'x' :: hexDigits 2 n
  else if n < 0x10000 then '\\' :: 'u' :: hexDigits 4 n
  else '\\' :: 'U' :: hexDigits 8 n

/-- One character between the quotation marks `quote`. The mark itself, the backslash and the three
usual controls have short escapes; other characters that are not printable are written by number. -/
def quoteChar (quote c : Char) : List Char :=
  if c = quote || c = '\\' then ['\\', c]
  else if c = '\n' then ['\\', 'n']
  else if c = '\r' then ['\\', 'r']
  else if c = '\t' then ['\\', 't']
  else if isPrintable c then [c]
  else numberEscape c.toNat

/-- One code point or half between the quotation marks `quote`; a half is written by number. -/
def quoteCode (quote : Char) (n : Nat) : List Char :=
  if isSurrogate n then numberEscape n else quoteChar quote (Char.ofNat n)

def quoted (s : String) : String :=
  let quote := quoteFor s.toList
  String.ofList (quote :: (codesOf s).flatMap (quoteCode quote) ++ [quote])

end SchemaForms.Text
