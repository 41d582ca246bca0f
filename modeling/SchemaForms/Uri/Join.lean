import SchemaForms.Path
import SchemaForms.Uri.Split

/-!
# References between URLs

A reference is joined to the URL of the document that makes it: what the reference leaves out is
taken from the base, and its path is walked from the directory of the base's path. Only schemes
with relative references are joined; for another scheme the reference stands alone.
-/

namespace SchemaForms.Uri

def relativeSchemes : List String := [
  "", "ftp", "http", "gopher", "nntp", "imap", "wais", "file", "https", "shttp", "mms", "prospero",
  "rtsp", "rtspu", "sftp", "svn", "svn+ssh", "ws", "wss"]

def authoritySchemes : List String := [
  "", "ftp", "http", "gopher", "nntp", "telnet", "imap", "wais", "file", "mms", "https", "shttp",
  "snews", "prospero", "rtsp", "rtspu", "rsync", "svn", "svn+ssh", "sftp", "nfs", "git", "git+ssh",
  "ws", "wss"]

def parameterSchemes : List String := [
  "", "ftp", "hdl", "prospero", "http", "imap", "https", "shttp", "rtsp", "rtspu", "sip", "sips",
  "mms", "sftp", "tel"]

/-- The text of the parts. The slashes of an authority are written where there is one, and in front
of the path of a scheme that could have one, unless the path begins with two slashes of its own. -/
def text (uri : Uri) : String :=
  let path := uri.path
  let slashed := path.toList.take 2 = ['/', '/']
  let body :=
    if uri.authority ≠ "" ||
        (uri.scheme ≠ "" && authoritySchemes.contains uri.scheme && !slashed) then
      let path := if path ≠ "" && !Text.startsWith '/' path then "/" ++ path else path
      "//" ++ uri.authority ++ path
    else path
  let body := if uri.scheme ≠ "" then uri.scheme ++ ":" ++ body else body
  let body := if uri.query ≠ "" then body ++ "?" ++ uri.query else body
  if uri.fragment ≠ "" then body ++ "#" ++ uri.fragment else body

/-- The path without the parameters behind its last component, and those parameters. -/
def splitParameters (uri : Uri) : String × String :=
  if parameterSchemes.contains uri.scheme then
    let cs := uri.path.toList
    let last := (cs.reverse.takeWhile (· ≠ '/')).reverse
    match Text.cutChars ';' last with
    | (before, some parameters) =>
      (String.ofList (cs.take (cs.length - last.length) ++ before), String.ofList parameters)
    | _ => (uri.path, "")
  else (uri.path, "")

def withParameters (path parameters : String) : String :=
  if parameters = "" then path else path ++ ";" ++ parameters

/-- Walk one component further, from the components passed so far, last one first. Climbing above
the root has no effect. -/
def advance (passed : List String) (component : String) : List String :=
  if component = ".." then passed.drop 1
  else if component = "." then passed
  else component :: passed

/-- The components of a reference's path, walked from the components of the base's path. -/
def components (base reference : String) : List String :=
  if Text.startsWith '/' reference then Text.split '/' reference
  else
    let baseParts := Text.split '/' base
    let baseParts := if baseParts.getLast? = some "" then baseParts else baseParts.dropLast
    let all := baseParts ++ Text.split '/' reference
    match all with
    | [] => []
    | first :: rest =>
      match rest.getLast? with
      | none => [first]
      | some last => first :: (rest.dropLast.filter (· ≠ "") ++ [last])

def joinPath (base reference : String) : String :=
  let all := components base reference
  let passed := (all.foldl advance []).reverse
  let last := all.getLast?
  let passed := if last = some "." || last = some ".." then passed ++ [""] else passed
  let joined := Text.join '/' passed
  if joined = "" then "/" else joined

/-- The URL that a reference denotes when the document at `base` makes it. -/
def join (base reference : String) : Except Fault String := do
  if base = "" then return reference
  if reference = "" then return base
  let b ← parse base
  let r ← parse reference
  let scheme := if r.scheme = "" then b.scheme else r.scheme
  let r := { r with scheme := scheme }
  let (bPath, bParameters) := b.splitParameters
  let (rPath, rParameters) := r.splitParameters
  if scheme ≠ b.scheme || !relativeSchemes.contains scheme then return reference
  if authoritySchemes.contains scheme && r.authority ≠ "" then
    return text { r with path := withParameters rPath rParameters }
  let authority := if authoritySchemes.contains scheme then b.authority else r.authority
  if rPath = "" && rParameters = "" then
    return text {
      scheme := scheme, authority := authority, path := withParameters bPath bParameters
      query := if r.query = "" then b.query else r.query, fragment := r.fragment }
  return text {
    scheme := scheme, authority := authority
    path := withParameters (joinPath bPath rPath) rParameters
    query := r.query, fragment := r.fragment }

end SchemaForms.Uri
