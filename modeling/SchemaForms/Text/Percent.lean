import SchemaForms.Text.Utf8

/-!
# Percent escapes

A percent sign followed by two hexadecimal digits stands for an octet. Escapes in a row are read
together as UTF-8, ill-formed parts being replaced. A percent sign that two digits do not follow
stands for itself.
-/

namespace SchemaForms.Text

def octet? (high low : Char) : Option UInt8 := do
  let h ← hexDigit? high
  let l ← hexDigit? low
  return UInt8.ofNat (h * 16 + l)

/-- The octet of the escape that `c`, followed by `rest`, begins. -/
def escape? (c : Char) (rest : List Char) : Option UInt8 :=
  if c = '%' then
    match rest with
    | high :: low :: _ => octet? high low
    | _ => none
  else none

/-- Decode with the octets of the escapes just before, last octet first, and with the number of
characters still to be passed over because an escape has taken them. -/
def percentDecodeFrom (octets : List UInt8) : Nat → List Char → List Char
  | _, [] => Utf8.lossy octets.reverse
  | skip + 1, _ :: rest => percentDecodeFrom octets skip rest
  | 0, c :: rest =>
    match escape? c rest with
    | some octet => percentDecodeFrom (octet :: octets) 2 rest
    | none => Utf8.lossy octets.reverse ++ c :: percentDecodeFrom [] 0 rest

def percentDecodeChars (cs : List Char) : List Char :=
  percentDecodeFrom [] 0 cs

def percentDecode (s : String) : String :=
  String.ofList (percentDecodeChars s.toList)

/-- A text in which no escape begins is its own decoding. -/
theorem percentDecodeFrom_of_no_escape {cs : List Char}
    (h : ∀ before c after, cs = before ++ c :: after → escape? c after = none) :
    percentDecodeFrom [] 0 cs = cs := by
  induction cs with
  | nil => rfl
  | cons c rest ih =>
    have hc : escape? c rest = none := h [] c rest rfl
    have hrest := ih fun before d after hd => h (c :: before) d after (by simp [hd])
    simp [percentDecodeFrom, hc, hrest, Utf8.lossy, Utf8.lossyFrom]

end SchemaForms.Text
