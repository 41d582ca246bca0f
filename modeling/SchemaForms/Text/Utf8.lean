import SchemaForms.Text.Digit
import SchemaForms.Text.Surrogate

/-!
# Octets as UTF-8 text

One machine reads UTF-8 an octet at a time. It serves two readers: `Utf8.lossy` puts a replacement
character for every ill-formed part, as long a part as could have begun a character, and
`Utf8.decode` stops at the first ill-formed part and reports where it is and what is wrong there.
-/

namespace SchemaForms.Text

inductive DecodeReason where
  | invalidStart
  | invalidContinuation
  | unexpectedEnd
  | truncated
  | outOfRange
deriving DecidableEq, Repr

def DecodeReason.text : DecodeReason → String
  | .invalidStart => "invalid start byte"
  | .invalidContinuation => "invalid continuation byte"
  | .unexpectedEnd => "unexpected end of data"
  | .truncated => "truncated data"
  | .outOfRange => "code point not in range(0x110000)"

/-- Octets that are no text in the named encoding: the `width` octets from position `start`, of
which `octet` is the first. -/
structure DecodeFault where
  encoding : String
  octet : UInt8
  start : Nat
  width : Nat
  reason : DecodeReason
deriving DecidableEq, Repr

def DecodeFault.text (f : DecodeFault) : String :=
  let place :=
    if f.width = 1 then
      "byte 0x" ++ String.ofList (hexDigits 2 f.octet.toNat) ++ " in position " ++ toString f.start
    else
      "bytes in position " ++ toString f.start ++ "-" ++ toString (f.start + f.width - 1)
  "\x27" ++ f.encoding ++ "\x27 codec can\x27t decode " ++ place ++ ": " ++ f.reason.text

namespace Utf8

/-- A character of several octets that is not complete yet: the bits and octets it has, how many
more octets it needs, and the least and greatest value of the next one. -/
structure Partial where
  value : Nat
  width : Nat
  owed : Nat
  low : Nat
  high : Nat
deriving DecidableEq, Repr

/-- The machine after the first octet of a character that has more than one. -/
def lead? (octet : UInt8) : Option Partial :=
  let n := octet.toNat
  if 0xC2 ≤ n ∧ n ≤ 0xDF then some ⟨n % 32, 1, 1, 0x80, 0xBF⟩
  else if n = 0xE0 then some ⟨0, 1, 2, 0xA0, 0xBF⟩
  else if n = 0xED then some ⟨13, 1, 2, 0x80, 0x9F⟩
  else if 0xE1 ≤ n ∧ n ≤ 0xEF then some ⟨n % 16, 1, 2, 0x80, 0xBF⟩
  else if n = 0xF0 then some ⟨0, 1, 3, 0x90, 0xBF⟩
  else if 0xF1 ≤ n ∧ n ≤ 0xF3 then some ⟨n % 8, 1, 3, 0x80, 0xBF⟩
  else if n = 0xF4 then some ⟨4, 1, 3, 0x80, 0x8F⟩
  else none

/-- The next octet is one that the incomplete character can go on with. -/
def Partial.accepts (p : Partial) (octet : UInt8) : Bool :=
  p.low ≤ octet.toNat && octet.toNat ≤ p.high

/-- The incomplete character with one more octet. -/
def Partial.extend (p : Partial) (octet : UInt8) : Partial :=
  ⟨p.value * 64 + octet.toNat % 64, p.width + 1, p.owed - 1, 0x80, 0xBF⟩

/-- The machine between two characters reads an octet: what it writes, and where it then is. -/
def first (octet : UInt8) : List Char × Option Partial :=
  if octet.toNat < 0x80 then ([Char.ofNat octet.toNat], none)
  else match lead? octet with
    | some p => ([], some p)
    | none => ([replacement], none)

/-- The machine reads an octet: what it writes, and where it then is. -/
def step : Option Partial → UInt8 → List Char × Option Partial
  | none, octet => first octet
  | some p, octet =>
    if p.accepts octet then
      if p.owed = 1 then (spell (p.extend octet).value, none)
      else ([], some (p.extend octet))
    else
      let (out, state) := first octet
      (replacement :: out, state)

/-- The text that the machine still writes for the octets to come. -/
def lossyFrom : Option Partial → List UInt8 → List Char
  | none, [] => []
  | some _, [] => [replacement]
  | state, octet :: rest =>
    let (out, next) := step state octet
    out ++ lossyFrom next rest

/-- The text of octets, with a replacement character for each ill-formed part. -/
def lossy (octets : List UInt8) : List Char :=
  lossyFrom none octets

/-- The incomplete character began with the octets of a surrogate half. -/
def Partial.isSurrogate (p : Partial) : Bool :=
  p.width = 2 && 0x360 ≤ p.value && p.value < 0x380

/-- The fault of an incomplete character whose next octet would be at `position`. A surrogate half
that is not complete is already at fault in its first octet. -/
def Partial.fault (p : Partial) (firstOctet : UInt8) (position : Nat) (reason : DecodeReason) :
    DecodeFault :=
  if p.isSurrogate then ⟨"utf-8", firstOctet, position - p.width, 1, .invalidContinuation⟩
  else ⟨"utf-8", firstOctet, position - p.width, p.width, reason⟩

/-- Like `lead?`, but admitting the surrogate halves U+D800 to U+DFFF. -/
def leadOrSurrogate? (octet : UInt8) : Option Partial :=
  (lead? octet).map fun p => if octet = 0xED then { p with high := 0xBF } else p

/-- Read octets strictly from `position` on. `state` is an incomplete character with its first
octet; `done` holds the text so far, last character first. -/
def decodeFrom (position : Nat) (state : Option (Partial × UInt8)) (done : List Char) :
    List UInt8 → Except DecodeFault (List Char)
  | [] =>
    match state with
    | none => .ok done.reverse
    | some (p, firstOctet) => .error (p.fault firstOctet position .unexpectedEnd)
  | octet :: rest =>
    match state with
    | none =>
      if octet.toNat < 0x80 then
        decodeFrom (position + 1) none (Char.ofNat octet.toNat :: done) rest
      else match leadOrSurrogate? octet with
        | some p => decodeFrom (position + 1) (some (p, octet)) done rest
        | none => .error ⟨"utf-8", octet, position, 1, .invalidStart⟩
    | some (p, firstOctet) =>
      if p.accepts octet then
        if p.owed = 1 then
          decodeFrom (position + 1) none ((spell (p.extend octet).value).reverse ++ done) rest
        else decodeFrom (position + 1) (some (p.extend octet, firstOctet)) done rest
      else .error (p.fault firstOctet position .invalidContinuation)

def decode (octets : List UInt8) : Except DecodeFault (List Char) :=
  decodeFrom 0 none [] octets

/-- The octet that goes on with a character, with the last six bits of a number. -/
def continuation (n : Nat) : UInt8 :=
  UInt8.ofNat (0x80 + n % 64)

/-- The octets of a code point; a surrogate half is written like one. -/
def encodeCode (n : Nat) : List UInt8 :=
  if n < 0x80 then [UInt8.ofNat n]
  else if n < 0x800 then [UInt8.ofNat (0xC0 + n / 64), continuation n]
  else if n < 0x10000 then
    [UInt8.ofNat (0xE0 + n / 4096), continuation (n / 64), continuation n]
  else
    [UInt8.ofNat (0xF0 + n / 262144), continuation (n / 4096), continuation (n / 64),
      continuation n]

def encode (s : String) : List UInt8 :=
  (codesOf s).flatMap encodeCode

theorem lossy_ascii {octets : List UInt8} (h : ∀ o ∈ octets, o.toNat < 0x80) :
    lossy octets = octets.map fun o => Char.ofNat o.toNat := by
  unfold lossy
  induction octets with
  | nil => rfl
  | cons o rest ih =>
    have ho := h o (by simp)
    have hr := ih fun x hx => h x (by simp [hx])
    simp [lossyFrom, step, first, ho, hr]

end Utf8

end SchemaForms.Text
