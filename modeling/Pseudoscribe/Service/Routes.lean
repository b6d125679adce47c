import Pseudoscribe.Http.Message
import Pseudoscribe.Json.Members
import Pseudoscribe.Options
import Pseudoscribe.Pool.Basic
import Pseudoscribe.Service.Basic
import Pseudoscribe.Url.Reader

/-!
# The service over HTTP

Each place of the service has one method.  A question that the service refuses is answered like any other,
with a number and words in the answer; only a message that is no proper question gets a status of its
own.
-/

namespace Pseudoscribe

/-- The places of the service. -/
inductive Route where
  | ping
  | convert
  | submit
  | status
  | cancel
  | active
  | poolStatus
  | metrics
  /-- the socket of a request -/
  | watch (request : String)
deriving DecidableEq, Repr

namespace Route

/-- The places that have a fixed path. -/
def fixed : List (String × Route) :=
  [("/api/ping", ping), ("/api/translate", convert), ("/api/translate/submit", submit),
    ("/api/translate/status", status), ("/api/translate/cancel", cancel),
    ("/api/translate/active", active), ("/api/pool/status", poolStatus),
    ("/api/pool/metrics", metrics)]

/-- The place of a path. -/
def ofPath? (path : String) : Option Route :=
  match fixed.lookup path with
  | some r => some r
  | none =>
    match Text.splitOn '/' path.toList with
    | [[], front, middle, request@(_ :: _)] =>
      if front == "ws".toList && middle == "translation".toList then
        some (watch (String.ofList request))
      else none
    | _ => none

/-- Is this a place to ask at, and not one to be told something? -/
def isQuestion : Route → Bool
  | convert | submit | status | cancel => false
  | _ => true

def allows (r : Route) (method : String) : Bool :=
  if r.isQuestion then method == "GET" || method == "HEAD" else method == "POST"

end Route

namespace Submission

/-- What a caller is expected to write who has a source. -/
def form : Json.Form :=
  .record [("source_text", .required, .text), ("target_language", .optional, .orNull .text),
    ("options", .defaulted, Options.form)]

/-- Read what a caller asks for; options that are not named are taken from `d`. -/
def ofJson (d : Options) (j : Json) : Submission :=
  { source := j.textAt "source_text"
    language := (j.get "target_language").asText?
    options := (d.patch? ((j.member? "options").getD (.obj []))).getD d }

end Submission

namespace Service

/-- The version that the service tells. -/
def version : String := "0.1.0"

/-- How long a body may be, in bytes, if nothing else is said. -/
def bodyLimit : Nat := 2 * 1024 * 1024

/-- An answer that says something. -/
def envelope (errno : Nat) (error : String) (data : Json) : Http.Response :=
  .ofJson (.obj [("errno", .ofNat errno), ("error", .str error), ("data", data)])

def success (data : List (String × Json)) : Http.Response := envelope 0 "" (.obj data)

def refusal (e : ServiceError) : Http.Response :=
  let e := ApiError.ofService e
  envelope e.code e.message .null

/-- What is told of a request; the times of this service are no times of day. -/
def trackedJson (t : TrackedRequest) : Json := t.toJson fun time => toString time

/-- The requests that have not ended, in the order in which they were handed in. -/
def active (s : Service) : List TrackedRequest :=
  s.register.active.mergeSort fun x y => x.createdAt ≤ y.createdAt

/-- Answer a question. -/
def answer (s : Service) : Route → Http.Response
  | .ping =>
    let live := s.engine.crew.pool.status.live
    .ofJson (.obj [("status", .str (if 0 < live then "ok" else "degraded")),
      ("version", .str version), ("live_workers", .ofNat live)])
  | .active => success [("translations", .ofList trackedJson s.active)]
  | .poolStatus => envelope 0 "" s.engine.crew.pool.toJson
  | .metrics =>
    let p := s.engine.crew.pool.status
    success [("live_workers", .ofNat p.live), ("busy_workers", .ofNat p.busy),
      ("total_restarts", .ofNat p.restarts), ("translations", s.engine.metrics.toJson)]
  | _ => .bare 400

/-- What a caller is expected to write who asks about a request. -/
def idForm : Json.Form := .record [("request_id", .required, .text)]

/-- Do what a caller wants who has written something; `id` is for a new request.  Nothing is answered by a
service that breaks down. -/
def act (s : Service) (id : RequestId) (r : Route) (j : Json) : Option Http.Response × Service :=
  let name := j.textAt "request_id"
  match r with
  | .convert =>
    match s.convert id (.ofJson s.options j) with
    | (.ok (a, cached), s) =>
      (some (success [("cached", .bool cached), ("translation", a.toJson)]), s)
    | (.error (.refused e), s) => (some (refusal e), s)
    | (.error .stranded, s) => (none, s)
  | .submit =>
    match s.submit id (.ofJson s.options j) with
    | (.ok cached, s) =>
      (some (success [("request_id", .str id.text), ("cached", .bool cached)]), s)
    | (.error e, s) => (some (refusal e), s)
  | .status =>
    match s.register.status name with
    | .ok t => (some (envelope 0 "" (trackedJson t)), s)
    | .error e => (some (refusal e), s)
  | .cancel =>
    match s.register.stop name with
    | .ok (id, running, register) =>
      (some (success [("request_id", .str id.text), ("was_running", .bool running)]),
        { s with register })
    | .error e => (some (refusal e), s)
  | _ => (some (.bare 405), s)

/-- What a place expects to be told. -/
def formOf : Route → Json.Form
  | .convert | .submit => Submission.form
  | _ => idForm

/-- Answer a message; `id` is for a new request. -/
def handle (s : Service) (id : RequestId) (r : Http.Request) (limit : Nat := bodyLimit) :
    Option Http.Response × Service :=
  match Route.ofPath? (Http.placeOf r.path) with
  | none => (some (.bare 404), s)
  | some route =>
    if !route.allows r.method then (some (.bare 405), s)
    else if route.isQuestion then
      match route, r.method with
      | .watch _, "HEAD" => (some (.bare 405), s)
      | _, "HEAD" => (some { s.answer route with body := none }, s)
      | _, _ => (some (s.answer route), s)
    else
      match r.read limit (formOf route) with
      | .error code => (some (.bare code), s)
      | .ok j => s.act id route j

/-- How long a body may be for a server, in bytes. -/
def serverBodyLimit : Nat := 8 * 1024 * 1024

/-- Answer a message that comes over the network, perhaps from a page from another place. -/
def serve (s : Service) (id : RequestId) (r : Http.Request) : Option Http.Response × Service :=
  match Http.Cors.answer? r with
  | some a => (some a, s)
  | none =>
    let (a, s) := s.handle id r serverBodyLimit
    (a.map Http.Cors.allow, s)

/-- Open a socket for a client: the status, and the service afterwards. -/
def openSocket (s : Service) (client path : String) : Http.Status × Service :=
  match Route.ofPath? (Http.placeOf path) with
  | some (.watch written) =>
    match String.fromUTF8? (Url.bytes written.toList).toByteArray with
    | some request => (⟨101⟩, s.watch client request)
    | none => (⟨400⟩, s)
  | some route => (⟨if route.isQuestion then 200 else 405⟩, s)
  | none => (⟨404⟩, s)

end Service

end Pseudoscribe
