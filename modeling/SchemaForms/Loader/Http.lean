import SchemaForms.Loader.Basic

/-!
# Documents from the web

The loader for URLs asks a client, whose replies have a status and a body. Any status from 200 to
299 means success; for every other one the message gives the status with its usual reason, if it
has one.
-/

namespace SchemaForms

structure HttpReply where
  status : Nat
  body : Octets
deriving DecidableEq, Repr

/-- The reply to the request of a URL, or the reason why there is none. -/
abbrev HttpClient := String → Except String HttpReply

namespace HttpLoader

def reasons : List (Nat × String) := [
  (100, "Continue"), (101, "Switching Protocols"), (102, "Processing"), (103, "Early Hints"),
  (200, "OK"), (201, "Created"), (202, "Accepted"), (203, "Non-Authoritative Information"),
  (204, "No Content"), (205, "Reset Content"), (206, "Partial Content"), (207, "Multi-Status"),
  (208, "Already Reported"), (226, "IM Used"), (300, "Multiple Choices"),
  (301, "Moved Permanently"), (302, "Found"), (303, "See Other"), (304, "Not Modified"),
  (305, "Use Proxy"), (307, "Temporary Redirect"), (308, "Permanent Redirect"),
  (400, "Bad Request"), (401, "Unauthorized"), (402, "Payment Required"), (403, "Forbidden"),
  (404, "Not Found"), (405, "Method Not Allowed"), (406, "Not Acceptable"),
  (407, "Proxy Authentication Required"), (408, "Request Timeout"), (409, "Conflict"),
  (410, "Gone"), (411, "Length Required"), (412, "Precondition Failed"),
  (413, "Request Entity Too Large"), (414, "Request-URI Too Long"),
  (415, "Unsupported Media Type"), (416, "Requested Range Not Satisfiable"),
  (417, "Expectation Failed"), (418, "I\x27m a teapot"), (421, "Misdirected Request"),
  (422, "Unprocessable Entity"), (423, "Locked"), (424, "Failed Dependency"), (425, "Too Early"),
  (426, "Upgrade Required"), (428, "Precondition Required"), (429, "Too Many Requests"),
  (431, "Request Header Fields Too Large"), (451, "Unavailable For Legal Reasons"),
  (500, "Internal Server Error"), (501, "Not Implemented"), (502, "Bad Gateway"),
  (503, "Service Unavailable"), (504, "Gateway Timeout"), (505, "HTTP Version Not Supported"),
  (506, "Variant Also Negotiates"), (507, "Insufficient Storage"), (508, "Loop Detected"),
  (510, "Not Extended"), (511, "Network Authentication Required")]

def reason (status : Nat) : String :=
  (reasons.lookup status).getD ""

def isSuccess (status : Nat) : Bool :=
  200 ≤ status && status < 300

def fetch (client : HttpClient) : Fetch :=
  fun source => do
    Fetch.expectKind "http" .url source
    Fetch.expectLocation "url" source
    match client source.location with
    | .error why => throw (Fetch.error (.fetchFailed why) source.location)
    | .ok reply =>
      if isSuccess reply.status then Fetch.document source reply.body
      else
        let fault := .unexpectedStatus reply.status (reason reply.status)
        throw (Fetch.error fault source.location)

end HttpLoader

end SchemaForms
