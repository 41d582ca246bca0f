/-!
# Digits

The decimal digits of all scripts. Each script has its ten digits in a row, so the table lists
where each row starts, which is the script's zero.

There is a limit on the digits with which an integer is read or written in base ten. Zeros in front
count, a sign does not.
-/

namespace SchemaForms.Text

/-- The zeros of the scripts, in increasing order. -/
def scriptZeros : List Nat := [
  0x30, 0x660, 0x6F0, 0x7C0, 0x966, 0x9E6, 0xA66, 0xAE6, 0xB66, 0xBE6, 0xC66, 0xCE6, 0xD66,
  0xDE6, 0xE50, 0xED0, 0xF20, 0x1040, 0x1090, 0x17E0, 0x1810, 0x1946, 0x19D0, 0x1A80, 0x1A90,
  0x1B50, 0x1BB0, 0x1C40, 0x1C50, 0xA620, 0xA8D0, 0xA900, 0xA9D0, 0xA9F0, 0xAA50, 0xABF0, 0xFF10,
  0x104A0, 0x10D30, 0x11066, 0x110F0, 0x11136, 0x111D0, 0x112F0, 0x11450, 0x114D0, 0x11650,
  0x116C0, 0x11730, 0x118E0, 0x11950, 0x11C50, 0x11D50, 0x11DA0, 0x16A60, 0x16AC0, 0x16B50,
  0x1D7CE, 0x1D7D8, 0x1D7E2, 0x1D7EC, 0x1D7F6, 0x1E140, 0x1E2F0, 0x1E950, 0x1FBF0]

/-- The value of a decimal digit of any script. -/
def decimalDigit? (c : Char) : Option Nat :=
  (scriptZeros.find? fun start => start ≤ c.toNat && c.toNat < start + 10).map (c.toNat - ·)

/-- The value of one of the ten digits of ASCII. -/
def asciiDigit? (c : Char) : Option Nat :=
  if c.isDigit then some (c.toNat - '0'.toNat) else none

/-- The value of a hexadecimal digit of ASCII, in either case. -/
def hexDigit? (c : Char) : Option Nat :=
  if c.isDigit then some (c.toNat - '0'.toNat)
  else if 'a' ≤ c ∧ c ≤ 'f' then some (c.toNat - 'a'.toNat + 10)
  else if 'A' ≤ c ∧ c ≤ 'F' then some (c.toNat - 'A'.toNat + 10)
  else none

/-- The number that a row of digits writes in the given base, the first digit leading. -/
def ofDigits (base : Nat) (digits : List Nat) : Nat :=
  digits.foldl (fun n d => n * base + d) 0

/-- The most digits with which an integer is read or written. -/
def digitLimit : Nat := 4300

/-- An integer with more digits than the limit. -/
inductive DigitFault where
  | read (digits : Nat)
  | write
deriving DecidableEq, Repr

def DigitFault.text (fault : DigitFault) : String :=
  let value : String :=
    match fault with
    | .read digits => ": value has " ++ toString digits ++ " digits"
    | .write => ""
  "Exceeds the limit (" ++ toString digitLimit ++ " digits) for integer string conversion" ++ value ++
    "; use sys.set_int_max_str_digits() to increase the limit"

/-- The number that decimal digits write. -/
def readDecimal (digits : List Nat) : Except DigitFault Nat :=
  if digitLimit < digits.length then .error (.read digits.length) else .ok (ofDigits 10 digits)

/-- The decimal digits of an integer, with its sign. -/
def writeDecimal (n : Int) : Except DigitFault String :=
  if digitLimit < (Nat.toDigits 10 n.natAbs).length then .error .write else .ok (toString n)

/-- The character of a hexadecimal digit, in lower case. -/
def hexChar (n : Nat) : Char :=
  if n < 10 then Char.ofNat ('0'.toNat + n) else Char.ofNat ('a'.toNat + (n - 10))

/-- The last `width` hexadecimal digits of a number. -/
def hexDigits : Nat → Nat → List Char
  | 0, _ => []
  | width + 1, n => hexDigits width (n / 16) ++ [hexChar (n % 16)]

end SchemaForms.Text
