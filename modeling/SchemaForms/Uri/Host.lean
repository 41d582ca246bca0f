import SchemaForms.Text.Digit
import SchemaForms.Text.Split

/-!
# Hosts of URLs

What may stand between brackets in a URL: an IPv6 address, possibly with a zone, or an address of a
future version. Besides, the characters whose compatibility form holds a delimiter of URLs; a host
with one of them could be taken for another host.
-/

namespace SchemaForms.Uri

/-- The value of a part of an IPv4 address: at most three digits, no zero in front, at most 255. -/
def octet? (part : String) : Option Nat :=
  let cs := part.toList
  match cs.mapM Text.asciiDigit? with
  | none => none
  | some digits =>
    let value := Text.ofDigits 10 digits
    if cs.isEmpty || 3 < cs.length || (cs ≠ ['0'] && cs.head? = some '0') || 255 < value then none
    else some value

def isIPv4 (host : String) : Bool :=
  let parts := Text.split '.' host
  parts.length = 4 && parts.all fun part => (octet? part).isSome

/-- The text is a group of an IPv6 address: one to four hexadecimal digits. -/
def isGroup (part : String) : Bool :=
  let cs := part.toList
  !cs.isEmpty && cs.length ≤ 4 && cs.all fun c => (Text.hexDigit? c).isSome

/-- The parts between the colons of an IPv6 address, an IPv4 address at its end counting as two
groups; nothing if that is no IPv4 address. -/
def groupParts (address : String) : Option (List String) :=
  let parts := Text.split ':' address
  let last := parts.getLastD ""
  if last.toList.contains '.' then
    if isIPv4 last then some (parts.dropLast ++ ["0", "0"]) else none
  else some parts

/-- The parts form an IPv6 address: eight groups, of which one row of zeros may be left out by a
double colon. The double colon leaves an empty part, and two at an end of the address. -/
def formAddress (parts : List String) : Bool :=
  let inner := (parts.drop 1).dropLast
  match inner.filter (· = "") with
  | [] => parts.length = 8 && parts.all isGroup
  | [_] =>
    let high := parts.takeWhile fun part => part ≠ ""
    let high := if parts.head? = some "" then [] else high
    let low := (parts.reverse.takeWhile fun part => part ≠ "").reverse
    let low := if parts.getLast? = some "" then [] else low
    let endsOk :=
      (parts.head? ≠ some "" || inner.head? = some "") &&
      (parts.getLast? ≠ some "" || inner.getLast? = some "")
    endsOk && high.all isGroup && low.all isGroup && high.length + low.length ≤ 7
  | _ => false

def isAddress (address : String) : Bool :=
  3 ≤ (Text.split ':' address).length &&
    match groupParts address with
    | none => false
    | some parts => parts.length ≤ 9 && formAddress parts

/-- The text is an IPv6 address; a percent sign introduces a zone, which is not empty. -/
def isIPv6 (host : String) : Bool :=
  !host.toList.contains '/' &&
    match Text.cut '%' host with
    | (address, none) => isAddress address
    | (address, some zone) => zone ≠ "" && !zone.toList.contains '%' && isAddress address

/-- The text is an address of a future version: `v`, hexadecimal digits, a point, and more text,
which does not hold a line feed. -/
def isFutureAddress (host : String) : Bool :=
  match host.toList with
  | 'v' :: rest =>
    let digits := rest.takeWhile fun c => (Text.hexDigit? c).isSome
    match rest.drop digits.length with
    | '.' :: more => !digits.isEmpty && !more.isEmpty && !more.contains '\n'
    | _ => false
  | _ => false

/-- The characters outside ASCII whose compatibility form holds one of `/`, `?`, `#`, `@`, `:`. -/
def delimiterLike : List Nat := [
  0x2047, 0x2048, 0x2049, 0x2100, 0x2101, 0x2105, 0x2106, 0x2A74, 0xFE13, 0xFE16, 0xFE55, 0xFE56,
  0xFE5F, 0xFE6B, 0xFF03, 0xFF0F, 0xFF1A, 0xFF1F, 0xFF20]

end SchemaForms.Uri
