import Pseudoscribe.Http.Media
import Pseudoscribe.Json.Form
import Pseudoscribe.Json.Printer
import Pseudoscribe.Text.Trim

/-!
# Messages over HTTP

What a caller sends and what it is answered, with the number that the answer begins with.  A body is looked at in
three steps: its type, its length, and what it says.

A browser asks whether a page from another place may speak to the service, and is told that every page
may.
-/

namespace Pseudoscribe.Http

/-! ## Status codes -/

/-- The number that an answer begins with. -/
structure Status where
  code : Nat
deriving DecidableEq, Repr

namespace Status

/-- The words that go with each number. -/
def reasons : List (Nat × String) :=
  [(100, "Continue"), (101, "Switching Protocols"), (102, "Processing"), (103, "Early Hints"),
    (200, "OK"), (201, "Created"), (202, "Accepted"), (203, "Non Authoritative Information"),
    (204, "No Content"), (205, "Reset Content"), (206, "Partial Content"), (207, "Multi-Status"),
    (208, "Already Reported"), (226, "IM Used"),
    (300, "Multiple Choices"), (301, "Moved Permanently"), (302, "Found"), (303, "See Other"),
    (304, "Not Modified"), (305, "Use Proxy"), (307, "Temporary Redirect"),
    (308, "Permanent Redirect"),
    (400, "Bad Request"), (401, "Unauthorized"), (402, "Payment Required"), (403, "Forbidden"),
    (404, "Not Found"), (405, "Method Not Allowed"), (406, "Not Acceptable"),
    (407, "Proxy Authentication Required"), (408, "Request Timeout"), (409, "Conflict"),
    (410, "Gone"), (411, "Length Required"), (412, "Precondition Failed"),
    (413, "Payload Too Large"), (414, "URI Too Long"), (415, "Unsupported Media Type"),
    (416, "Range Not Satisfiable"), (417, "Expectation Failed"), (418, "I\x27m a teapot"),
    (421, "Misdirected Request"), (422, "Unprocessable Entity"), (423, "Locked"),
    (424, "Failed Dependency"), (425, "Too Early"), (426, "Upgrade Required"),
    (428, "Precondition Required"), (429, "Too Many Requests"),
    (431, "Request Header Fields Too Large"), (451, "Unavailable For Legal Reasons"),
    (500, "Internal Server Error"), (501, "Not Implemented"), (502, "Bad Gateway"),
    (503, "Service Unavailable"), (504, "Gateway Timeout"), (505, "HTTP Version Not Supported"),
    (506, "Variant Also Negotiates"), (507, "Insufficient Storage"), (508, "Loop Detected"),
    (510, "Not Extended"), (511, "Network Authentication Required")]

/-- The number and its words. -/
def text (s : Status) : String :=
  toString s.code ++ " " ++ (reasons.lookup s.code).getD "<unknown status code>"

def isSuccess (s : Status) : Bool := 200 ≤ s.code && s.code < 300

end Status

/-! ## Messages -/

/-- What a caller sends. -/
structure Request where
  method : String
  path : String
  contentType : Option String := none
  body : String := ""
deriving DecidableEq, Repr

/-- What a caller is answered. -/
structure Response where
  status : Status
  body : Option Json := none
  headers : List (String × String) := []
deriving Repr

/-- An answer without content. -/
def Response.bare (code : Nat) : Response := { status := ⟨code⟩ }

def Response.ofJson (j : Json) : Response := { status := ⟨200⟩, body := some j }

/-- A path without what stands behind a question mark. -/
def placeOf (path : String) : String := String.ofList (path.toList.takeWhile (· != '?'))

namespace Request

/-- A body that is read, or the number of the answer that refuses it. -/
def read (r : Request) (limit : Nat) (form : Json.Form) : Except Nat Json :=
  if !(r.contentType.bind MediaType.ofString?).any (·.isJson) then .error 415
  else if limit < r.body.utf8ByteSize then .error 413
  else
    match form.read r.body with
    | .ok j => .ok j
    | .error .malformed => .error 400
    | .error .misfit => .error 422

end Request

/-! ## Callers from other places -/

namespace Cors

/-- What every answer says about pages from other places. -/
def common : List (String × String) :=
  [("access-control-allow-origin", "*"), ("access-control-expose-headers", "*")]

/-- What a browser is told that asks beforehand. -/
def beforehand : List (String × String) :=
  [("access-control-allow-headers", "authorization,content-type"),
    ("access-control-allow-methods", "*"), ("access-control-allow-origin", "*"),
    ("access-control-max-age", "3600")]

/-- The answer to a browser that asks beforehand; nothing if the message is no such question. -/
def answer? (r : Request) : Option Response :=
  if r.method == "OPTIONS" then some { Response.bare 200 with headers := beforehand } else none

/-- An answer for pages from other places. -/
def allow (r : Response) : Response := { r with headers := common ++ r.headers }

end Cors

/-! ## Messages as they are sent -/

/-- What stands before the body of a message. -/
structure Head where
  method : String
  path : String
  fields : List (String × String)
deriving DecidableEq, Repr

namespace Head

/-- A line with a name and a value. -/
def fieldOf? (line : String) : Option (String × String) :=
  (Text.cutAt [':'] line.toList).map fun (name, value) =>
    (Text.lower (Text.trim name), String.ofList (Text.trim value))

/-- Read the lines before the body: a method, a path and a version, and then names with values. -/
def ofLines? : List String → Option Head
  | [] => none
  | first :: rest => do
    match (Text.splitOn ' ' (Text.trimEnd first.toList)).map String.ofList with
    | [method, path, _] => pure { method, path, fields := ← rest.mapM fieldOf? }
    | _ => none

def field? (h : Head) (name : String) : Option String := h.fields.lookup name

/-- How many bytes of body follow. -/
def length (h : Head) : Nat := ((h.field? "content-length").bind String.toNat?).getD 0

/-- The whole message. -/
def withBody (h : Head) (body : String) : Request :=
  { method := h.method, path := h.path, contentType := h.field? "content-type", body }

end Head

/-- An answer with its lines and its body. -/
def Response.wire (r : Response) : String :=
  let body := (r.body.map Json.text).getD ""
  let kind := if r.body.isSome then [("content-type", "application/json")] else []
  let fields := kind ++ r.headers ++ [("content-length", toString body.utf8ByteSize)]
  let lines := s!"HTTP/1.1 {r.status.text}" :: fields.map fun (name, value) => s!"{name}: {value}"
  "".intercalate (lines.map (· ++ "\r\n")) ++ "\r\n" ++ body

end Pseudoscribe.Http
