import SchemaForms.Text.Utf8

/-!
# The encoding of a JSON text

JSON text arrives as octets in one of the Unicode encodings. A byte order mark tells which; without
one the places of the zero octets among the first four tell, since JSON text begins with an ASCII
character. Octets of UTF-16 and UTF-32 are counted from the beginning, byte order mark included.
-/

namespace SchemaForms.Text

/-- The order of the octets within a unit of UTF-16 or UTF-32. -/
inductive ByteOrder where
  | big
  | little
deriving DecidableEq, Repr

/-- A Unicode encoding, with how many octets of byte order mark the text begins with. -/
inductive Encoding where
  | utf8 (mark : Nat)
  | utf16 (order : ByteOrder) (mark : Nat)
  | utf32 (order : ByteOrder) (mark : Nat)
deriving DecidableEq, Repr

/-- The byte order marks, with the encodings that they tell. The mark of UTF-16 is the beginning of
one of UTF-32, which is looked for before it. -/
def Encoding.marks : List (List UInt8 × Encoding) := [
  ([0x00, 0x00, 0xFE, 0xFF], .utf32 .big 4),
  ([0xFF, 0xFE, 0x00, 0x00], .utf32 .little 4),
  ([0xFE, 0xFF], .utf16 .big 2),
  ([0xFF, 0xFE], .utf16 .little 2),
  ([0xEF, 0xBB, 0xBF], .utf8 3)]

def Encoding.marked? (octets : List UInt8) : Option Encoding :=
  (marks.find? fun entry => entry.1.isPrefixOf octets).map fun entry => entry.2

/-- The encoding that the places of zero octets tell. -/
def Encoding.unmarked : List UInt8 → Encoding
  | a :: b :: c :: d :: _ =>
    if a = 0 then (if b = 0 then .utf32 .big 0 else .utf16 .big 0)
    else if b = 0 then (if c = 0 && d = 0 then .utf32 .little 0 else .utf16 .little 0)
    else .utf8 0
  | [a, b] =>
    if a = 0 then .utf16 .big 0
    else if b = 0 then .utf16 .little 0
    else .utf8 0
  | _ => .utf8 0

def Encoding.detect (octets : List UInt8) : Encoding :=
  (marked? octets).getD (unmarked octets)

/-- The unit that two octets write. -/
def ByteOrder.unit16 (order : ByteOrder) (a b : UInt8) : Nat :=
  match order with
  | .big => a.toNat * 256 + b.toNat
  | .little => b.toNat * 256 + a.toNat

/-- The unit that four octets write. -/
def ByteOrder.unit32 (order : ByteOrder) (a b c d : UInt8) : Nat :=
  match order with
  | .big => order.unit16 a b * 65536 + order.unit16 c d
  | .little => order.unit16 c d * 65536 + order.unit16 a b

def ByteOrder.name (order : ByteOrder) (base : String) : String :=
  match order with
  | .big => base ++ "-be"
  | .little => base ++ "-le"

/-- Read UTF-16 from `position` on. `half` is the first half of a pair just before; `done` holds the
text so far, last character first. -/
def decode16 (order : ByteOrder) (position : Nat) (half : Option Nat) (done : List Char) :
    List UInt8 → Except DecodeFault (List Char)
  | a :: b :: rest =>
    let unit := order.unit16 a b
    match half with
    | some high =>
      if isLowSurrogate unit then
        decode16 order (position + 2) none
          ((spell (joinSurrogates high unit)).reverse ++ done) rest
      else if isHighSurrogate unit then
        decode16 order (position + 2) (some unit) ((spell high).reverse ++ done) rest
      else decode16 order (position + 2) none ((spellAll [high, unit]).reverse ++ done) rest
    | none =>
      if isHighSurrogate unit then decode16 order (position + 2) (some unit) done rest
      else decode16 order (position + 2) none ((spell unit).reverse ++ done) rest
  | [a] => .error ⟨order.name "utf-16", a, position, 1, .truncated⟩
  | [] => .ok (match half with
    | some high => done.reverse ++ spell high
    | none => done.reverse)

/-- Read UTF-32 from `position` on; `done` holds the text so far, last character first. -/
def decode32 (order : ByteOrder) (position : Nat) (done : List Char) :
    List UInt8 → Except DecodeFault (List Char)
  | a :: b :: c :: d :: rest =>
    let unit := order.unit32 a b c d
    if unit < 0x110000 then decode32 order (position + 4) ((spell unit).reverse ++ done) rest
    else .error ⟨order.name "utf-32", a, position, 4, .outOfRange⟩
  | [] => .ok done.reverse
  | a :: rest => .error ⟨order.name "utf-32", a, position, rest.length + 1, .truncated⟩

def Encoding.decode (octets : List UInt8) : Encoding → Except DecodeFault (List Char)
  | .utf8 mark => Utf8.decode (octets.drop mark)
  | .utf16 order mark => decode16 order mark none [] (octets.drop mark)
  | .utf32 order mark => decode32 order mark [] (octets.drop mark)

def decodeJsonText (octets : List UInt8) : Except DecodeFault (List Char) :=
  (Encoding.detect octets).decode octets

end SchemaForms.Text
