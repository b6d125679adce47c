import Pseudoscribe.Backend.Kind
import Pseudoscribe.Error
import Pseudoscribe.Json.Record
import Pseudoscribe.Language

/-!
# Describing backends

A backend is described completely by a value that can be sent to a worker.  Its identity is the text
by which a worker finds a backend that it has created before.

A request names the kind of a backend and the revision of its model; everything else about the backend
is configured.  A revision must be pinned: a name that moves, such as `latest`, is refused.
-/

namespace Pseudoscribe

/-- A model that is read from files. -/
structure LocalModel where
  directory : String := "models"
  model : String := "pseudo-rules"
  revision : String := "v1"
deriving DecidableEq, Repr, Inhabited

/-- A model in a service. -/
structure RemoteModel where
  baseUrl : String
  model : String
  revision : String
  apiKey : Option String := none
  timeoutSeconds : Double
  defaultConfidence : Double
  languages : List String := []
  maxContextTokens : Nat
deriving DecidableEq, Repr, Inhabited

/-- A complete description of a backend. -/
inductive BackendSpec where
  | embedded (settings : LocalModel)
  | remote (settings : RemoteModel)
deriving DecidableEq, Repr, Inhabited

namespace BackendSpec

def kind : BackendSpec → BackendKind
  | embedded _ => .embedded
  | remote _ => .remote

def model : BackendSpec → String
  | embedded s => s.model
  | remote s => s.model

def revision : BackendSpec → String
  | embedded s => s.revision
  | remote s => s.revision

def withRevision (revision : String) : BackendSpec → BackendSpec
  | embedded s => embedded { s with revision }
  | remote s => remote { s with revision }

/-- The text by which a backend that was created before is found again. -/
def identity : BackendSpec → String
  | embedded s => s!"local:{s.directory}:{s.model}@{s.revision}"
  | remote s => s!"remote:{s.baseUrl}:{s.model}@{s.revision}"

def toJson : BackendSpec → Json
  | embedded s =>
    .obj [("kind", .str "local"), ("models_dir", .str s.directory), ("model_name", .str s.model),
      ("revision", .str s.revision)]
  | remote s =>
    .obj [("kind", .str "remote"), ("base_url", .str s.baseUrl), ("model_name", .str s.model),
      ("revision", .str s.revision), ("api_key", .ofText? s.apiKey),
      ("timeout_secs", .real s.timeoutSeconds), ("default_confidence", .real s.defaultConfidence),
      ("supported_languages", .texts s.languages), ("max_context_tokens", .ofNat s.maxContextTokens)]

end BackendSpec

namespace LocalModel

def ofJson? (j : Json) : Option LocalModel := do
  let r ← j.record?
    [("models_dir", .required), ("model_name", .required), ("revision", .required)]
  let directory ← r.read? "models_dir" Json.asText?
  let model ← r.read? "model_name" Json.asText?
  let revision ← r.read? "revision" Json.asText?
  pure { directory, model, revision }

end LocalModel

namespace RemoteModel

def ofJson? (j : Json) : Option RemoteModel := do
  let r ← j.record?
    [("base_url", .required), ("model_name", .required), ("revision", .required),
      ("api_key", .defaulted), ("timeout_secs", .required), ("default_confidence", .required),
      ("supported_languages", .defaulted), ("max_context_tokens", .required)]
  let baseUrl ← r.read? "base_url" Json.asText?
  let model ← r.read? "model_name" Json.asText?
  let revision ← r.read? "revision" Json.asText?
  let apiKey ← r.readOr? "api_key" none (Json.optional? Json.asText?)
  let timeoutSeconds ← r.read? "timeout_secs" Json.asDouble?
  let defaultConfidence ← r.read? "default_confidence" Json.asDouble?
  let languages ← r.readOr? "supported_languages" [] (Json.listOf? Json.asText?)
  let maxContextTokens ← r.read? "max_context_tokens" Json.asNat?
  pure { baseUrl, model, revision, apiKey, timeoutSeconds, defaultConfidence, languages,
         maxContextTokens }

end RemoteModel

/-- Read a description: the member `kind` says which one it is. -/
def BackendSpec.ofJson? (j : Json) : Option BackendSpec :=
  match j.tagged? "kind" with
  | some ("local", rest) => (LocalModel.ofJson? rest).map embedded
  | some ("remote", rest) => (RemoteModel.ofJson? rest).map remote
  | _ => none

/-- What a backend can do. -/
structure Capabilities where
  streaming : Bool
  maxContextTokens : Nat
  /-- languages it can write; none named means all -/
  languages : List String
deriving DecidableEq, Repr, Inhabited

namespace Capabilities

def toJson (c : Capabilities) : Json :=
  .obj [("supports_streaming", .bool c.streaming), ("max_context_tokens", .ofNat c.maxContextTokens),
    ("supported_languages", .texts c.languages)]

def supports (c : Capabilities) (language : Language) : Bool :=
  c.languages.isEmpty || c.languages.any fun l => Text.isWord l language.name.toList

end Capabilities

/-! ## Choosing a backend -/

namespace Revision

/-- Names of revisions that move. -/
def moving : List String := ["latest", "main", "head", "master"]

/-- Is this no name of one fixed revision? -/
def isUnpinned (revision : String) : Bool :=
  let name := Text.trim revision.toList
  name.isEmpty || moving.any (Text.isWord · name)

end Revision

/-- The backends that are configured. -/
structure Profiles where
  embedded : Option LocalModel := none
  remote : Option RemoteModel := none
deriving DecidableEq, Repr

namespace Profiles

def spec? (p : Profiles) : BackendKind → Option BackendSpec
  | .embedded => p.embedded.map BackendSpec.embedded
  | .remote => p.remote.map BackendSpec.remote

/-- The backend of a kind, with the given revision of its model. -/
def resolve (p : Profiles) (kind : BackendKind) (revision : String) : Except RunError BackendSpec :=
  match p.spec? kind with
  | some s => .ok (s.withRevision revision)
  | none => .error (.configuration s!"model backend '{kind.name}' is not configured")

end Profiles

end Pseudoscribe
