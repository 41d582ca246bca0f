import SchemaForms.Uri.Host
import SchemaForms.Text.Quoted

/-!
# Taking URLs apart

A URL has a scheme, an authority, a path, a query and a fragment, any of which may be missing. Tabs
and line ends inside it are ignored, as are controls and spaces in front.
-/

namespace SchemaForms

namespace Uri

inductive Fault where
  /-- A bracket without its partner, or brackets around something unusable. -/
  | brackets
  | notAddress (host : String)
  | futureAddress
  | bracketedIPv4
  /-- The compatibility form of the authority holds a delimiter. -/
  | compatibility (authority : String)
deriving DecidableEq, Repr

def Fault.text : Fault → String
  | .brackets => "Invalid IPv6 URL"
  | .notAddress host => Text.quoted host ++ " does not appear to be an IPv4 or IPv6 address"
  | .futureAddress => "IPvFuture address is invalid"
  | .bracketedIPv4 => "An IPv4 address cannot be in brackets"
  | .compatibility authority =>
    "netloc \x27" ++ authority ++ "\x27 contains invalid characters under NFKC normalization"

end Uri

structure Uri where
  scheme : String
  authority : String
  path : String
  query : String
  fragment : String
deriving DecidableEq, Repr

namespace Uri

/-- The text without controls and spaces in front, and without tabs and line ends. -/
def clean (text : String) : List Char :=
  (text.toList.dropWhile fun c => c.toNat ≤ 0x20).filter fun c =>
    c ≠ '\t' && c ≠ '\r' && c ≠ '\n'

def isSchemeChar (c : Char) : Bool :=
  c.isAlphanum || c = '+' || c = '-' || c = '.'

/-- The scheme in front of the first colon, in lower case, and the rest. -/
def splitScheme (cs : List Char) : List Char × List Char :=
  match Text.cutChars ':' cs with
  | (c :: before, some rest) =>
    if c.isAlpha && (c :: before).all isSchemeChar then ((c :: before).map Char.toLower, rest)
    else ([], cs)
  | _ => ([], cs)

def endsAuthority (c : Char) : Bool :=
  c = '/' || c = '?' || c = '#'

def splitAuthority : List Char → List Char × List Char
  | '/' :: '/' :: rest =>
    (rest.takeWhile fun c => !endsAuthority c, rest.dropWhile fun c => !endsAuthority c)
  | cs => ([], cs)

/-- A host for which brackets were used is an address of version 6 or of a future version. -/
def checkHost (host : String) : Except Fault Unit :=
  if Text.startsWith 'v' host then
    if isFutureAddress host then .ok () else .error .futureAddress
  else if isIPv4 host then .error .bracketedIPv4
  else if isIPv6 host then .ok ()
  else .error (.notAddress host)

/-- Brackets come in pairs, and stand around the whole host: nothing may follow them, unless it
begins with a colon. -/
def checkBrackets (authority : List Char) : Except Fault Unit :=
  match authority.contains '[', authority.contains ']' with
  | true, true =>
    let server := (authority.reverse.takeWhile (· ≠ '@')).reverse
    match Text.cutChars '[' server with
    | (before, some inside) =>
      let (host, behind) := Text.cutChars ']' inside
      let behind := behind.getD []
      if !before.isEmpty || (!behind.isEmpty && behind.head? ≠ some ':') then .error .brackets
      else checkHost (String.ofList host)
    | (host, none) => checkHost (String.ofList (Text.cutChars ':' host).1)
  | false, false => .ok ()
  | _, _ => .error .brackets

/-- No character of an authority turns into a delimiter. -/
def checkCompatibility (authority : List Char) : Except Fault Unit :=
  if authority.any fun c => delimiterLike.contains c.toNat then
    .error (.compatibility (String.ofList authority))
  else .ok ()

def parse (text : String) : Except Fault Uri := do
  let (scheme, rest) := splitScheme (clean text)
  let (authority, rest) := splitAuthority rest
  checkBrackets authority
  let (rest, fragment) := Text.cutChars '#' rest
  let (path, query) := Text.cutChars '?' rest
  checkCompatibility authority
  return {
    scheme := String.ofList scheme
    authority := String.ofList authority
    path := String.ofList path
    query := String.ofList (query.getD [])
    fragment := String.ofList (fragment.getD []) }

end Uri

end SchemaForms
