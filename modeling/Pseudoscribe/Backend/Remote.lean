import Pseudoscribe.Answer
import Pseudoscribe.Backend.Spec
import Pseudoscribe.Error
import Pseudoscribe.Http.Message
import Pseudoscribe.Json.Members
import Pseudoscribe.Json.Printer
import Pseudoscribe.Json.Reader
import Pseudoscribe.Number.Duration
import Pseudoscribe.Prompt
import Pseudoscribe.Url.Reader

/-!
# Remote models

A remote model is asked over the network.  Whatever goes wrong on the way, there is an answer: one with
an error in it.  What happens on the network is not decided here; it comes as a `RemoteReply`.
-/

namespace Pseudoscribe

/-- A remote model whose address was understood. -/
structure RemoteBackend where
  settings : RemoteModel
  /-- where it is asked -/
  endpoint : Url
deriving Repr

/-- A question to a remote model. -/
structure RemoteCall where
  endpoint : Url
  apiKey : Option String
  body : Json
deriving Repr

/-- The first line and the headers of the message, and what it says. -/
def RemoteCall.toJson (c : RemoteCall) : Json :=
  let path := String.join (c.endpoint.path.map ("/" ++ ·))
  .obj [("line", .str ("POST " ++ path ++ " HTTP/1.1")),
    ("authorization", .ofText? (c.apiKey.map ("Bearer " ++ ·))),
    ("content_type", .str "application/json"), ("body", c.body)]

/-- What comes back over the network. -/
inductive RemoteReply where
  /-- there was no connection -/
  | unreachable
  /-- the connection ended without an answer -/
  | dropped
  /-- there was no answer in time -/
  | silent
  | answered (status : Http.Status) (body : String)
deriving Repr

/-- Read what comes back from a description of it: the connection is closed, or nothing comes, or an answer
with a status and a body; null if there is no connection. -/
def RemoteReply.ofJson (j : Json) : RemoteReply :=
  if j.isNull then unreachable
  else if j.flagAt "close" then dropped
  else if j.flagAt "hang" then silent
  else
    let code := String.ofList ((j.textAt "status" "200 OK").toList.takeWhile Char.isDigit)
    answered ⟨code.toNat?.getD 200⟩ (match j.get "body" with
      | .str t => t
      | .null => ""
      | v => v.text)

namespace RemoteBackend

/-- Check the settings of a remote model. -/
def ofSettings (s : RemoteModel) : Except BackendError RemoteBackend :=
  match Url.ofText s.baseUrl with
  | .error fault => .error (.configuration s!"invalid remote url '{s.baseUrl}': {fault.message}")
  | .ok url =>
    if url.scheme != "http" && url.scheme != "https" then
      .error (.configuration s!"unsupported url scheme '{url.scheme}'")
    else if !(s.timeoutSeconds.isFinite && Double.lt 0 s.timeoutSeconds) then
      .error (.configuration s!"timeout_secs must be positive, got {s.timeoutSeconds.display}")
    else .ok ⟨s, url.below ["v1", "translate"]⟩

def capabilities (b : RemoteBackend) : Capabilities :=
  ⟨false, b.settings.maxContextTokens, b.settings.languages⟩

def provenance (b : RemoteBackend) : Provenance :=
  { model := b.settings.model, revision := b.settings.revision, backend := .remote }

/-- What can be checked without asking the model. -/
def check (b : RemoteBackend) : Except BackendError Unit :=
  if Text.isBlank b.settings.model.toList then .error (.configuration "remote model name is empty")
  else .ok ()

/-- The share of the time for an attempt that the model may take. -/
def timeoutShare : Double := Double.ofRatio false 4 5

/-- How long the model may take: as long as its settings say, but not longer than its share of the
attempt.  Nothing if the settings name more seconds than a length of time can have. -/
def timeout? (b : RemoteBackend) (attempt : Duration) : Option Duration := do
  let configured ← Duration.ofSeconds? b.settings.timeoutSeconds
  let share ← Duration.ofSeconds? (timeoutShare * attempt.seconds)
  pure (min configured share)

/-- The question for the code of a chunk. -/
def call (b : RemoteBackend) (chunk : Chunk) (language : Language) : RemoteCall where
  endpoint := b.endpoint
  apiKey := b.settings.apiKey
  body := .obj
    ([("model", .str b.settings.model), ("revision", .str b.settings.revision),
      ("target_language", .str language.name), ("prompt", .str (Prompt.ofChunk chunk language)),
      ("source", .str chunk.text)] ++
    (chunk.context.map fun c => ("context", Json.str c)).toList ++
    [("nesting_depth", .ofNat chunk.depth)])

/-- What a model says. -/
structure Said where
  code : String
  confidence : Option Double
  warnings : List String

def Said.ofJson? (j : Json) : Option Said := do
  let r ← j.record? [("code", .required), ("confidence", .defaulted), ("warnings", .defaulted)]
  let code ← r.read? "code" Json.asText?
  let confidence ← r.readOr? "confidence" none (Json.optional? Json.asDouble?)
  let warnings ← r.readOr? "warnings" [] (Json.listOf? Json.asText?)
  pure { code, confidence, warnings }

/-- What a model says in its reply, or what went wrong. -/
def said (b : RemoteBackend) (timeout : Duration) : RemoteReply → Except String Said
  | .unreachable =>
    .error s!"network error: error sending request for url ({b.endpoint.text})"
  | .dropped => .error s!"request failed: error sending request for url ({b.endpoint.text})"
  | .silent => .error s!"remote model timed out after {timeout.text}"
  | .answered status body =>
    if !status.isSuccess then
      let detail := String.ofList (Text.trim body.toList)
      .error s!"HTTP {status.text}: {detail}"
    else
      match (Json.ofString? body).bind Said.ofJson? with
      | some said => .ok said
      | none => .error "invalid response: error decoding response body"

/-- The answer made of what the model says. -/
def answerOf (b : RemoteBackend) (chunk : Chunk) (said : Said) : Answer :=
  let code := Prompt.extract said.code.toList
  if Text.isBlank code && !chunk.isBlank then
    .ofError "remote model returned empty code" b.provenance
  else
    let confidence := (said.confidence.filter Double.isFinite).getD b.settings.defaultConfidence
    (Answer.ofCode (String.ofList code) confidence b.provenance).addWarnings said.warnings

/-- The answer for a chunk; a language that the model does not have is not asked for. -/
def answer (b : RemoteBackend) (timeout : Duration) (reply : RemoteReply) (chunk : Chunk)
    (language : Language) : Answer :=
  if !b.capabilities.supports language then
    .ofError
      (s!"remote model {b.settings.model} does not support " ++
        s!"target language '{language.name}'")
      b.provenance
  else
    match b.said timeout reply with
    | .ok said => b.answerOf chunk said
    | .error e => .ofError e b.provenance

end RemoteBackend

end Pseudoscribe
