import Pseudoscribe.Backend.Spec
import Pseudoscribe.Json.Members
import Pseudoscribe.Number.Duration
import Pseudoscribe.Options

/-!
# Configuration

Everything about the service that can be configured, and what it is when nothing is.
-/

namespace Pseudoscribe

namespace Config

/-- Where the service listens. -/
structure Server where
  host : String := "0.0.0.0"
  port : Nat := 5080
deriving DecidableEq, Repr

/-- The workers. -/
structure Pool where
  /-- how many; as many as a request has chunks under way, if it is not said -/
  workerCount : Option Nat := none
  /-- the program that a worker runs -/
  program : Option String := none
  queueCapacity : Nat := 64
  startupSeconds : Nat := 10
deriving DecidableEq, Repr

/-- Where local models are found. -/
structure Embedded where
  directory : String := "models"
  model : String := "pseudo-rules"
deriving DecidableEq, Repr

/-- The service of a remote model; there is none when the address is blank. -/
structure Remote where
  url : String := ""
  model : String := ""
  apiKey : Option String := none
  timeoutSeconds : Double := Double.ofNat 120
  defaultConfidence : Double := Double.ofRatio false 8 10
  languages : List String := []
  maxContextTokens : Nat := 8192
deriving DecidableEq, Repr

/-- The store of results. -/
structure Store where
  enabled : Bool := true
  path : String := "data/translations.sled"
  maxEntries : Nat := 10000
deriving DecidableEq, Repr

structure Log where
  level : String := "info"
  json : Bool := false
deriving DecidableEq, Repr

end Config

/-- The configuration of the service. -/
structure Config where
  server : Config.Server := {}
  /-- the language of requests that name none -/
  language : String := "python"
  /-- the options of requests, as far as they do not give their own -/
  options : Options := {}
  pool : Config.Pool := {}
  embedded : Config.Embedded := {}
  remote : Config.Remote := {}
  store : Config.Store := {}
  log : Config.Log := {}
deriving DecidableEq, Repr

namespace Config

/-- The address to listen at. -/
def Server.address (s : Server) : String := s!"{s.host}:{s.port}"

def Remote.isConfigured (r : Remote) : Bool := !Text.isBlank r.url.toList

/-- The remote model in one of its revisions. -/
def Remote.model? (r : Remote) (revision : String) : Option RemoteModel :=
  if r.isConfigured then
    some
      { baseUrl := r.url
        model := r.model
        revision
        apiKey := r.apiKey
        timeoutSeconds := r.timeoutSeconds
        defaultConfidence := r.defaultConfidence
        languages := r.languages
        maxContextTokens := r.maxContextTokens }
  else none

/-- The backends that are configured. -/
def profiles (c : Config) : Profiles :=
  { embedded := some ⟨c.embedded.directory, c.embedded.model, c.options.revision⟩
    remote := c.remote.model? c.options.revision }

/-- How many workers there are. -/
def workerCount (c : Config) : Nat := c.pool.workerCount.getD c.options.workerCount

/-! ## Checking -/

/-- Why a configuration is refused. -/
inductive Fault where
  | noPort
  | options (refusal : Options.Refusal)
  | noLanguage
  | noWorkers
  | noQueue
  | noModel
  | noRemoteModel
  | badRemoteTimeout
  | badRemoteConfidence
  | noStoreEntries
deriving DecidableEq, Repr

def Fault.message : Fault → String
  | noPort => "Server port cannot be 0"
  | options refusal => s!"translator: {refusal.message}"
  | noLanguage => "translator.target_language cannot be empty"
  | noWorkers => "pool.worker_count must be greater than 0"
  | noQueue => "pool.queue_capacity must be greater than 0"
  | noModel => "local_model.model_name cannot be empty"
  | noRemoteModel => "remote_model.model_name cannot be empty when url is set"
  | badRemoteTimeout => "remote_model.timeout_secs must be positive"
  | badRemoteConfidence => "remote_model.default_confidence must be within [0, 1]"
  | noStoreEntries => "cache.max_entries cannot be 0 when cache is enabled"

/-- The first fault of a remote model. -/
def Remote.fault? (r : Remote) : Option Fault :=
  if Text.isBlank r.model.toList then some .noRemoteModel
  else if !Options.isPositive r.timeoutSeconds then some .badRemoteTimeout
  else if !(Double.le 0 r.defaultConfidence && Double.le r.defaultConfidence 1) then
    some .badRemoteConfidence
  else none

/-- The first fault of a configuration. -/
def fault? (c : Config) : Option Fault :=
  if c.server.port = 0 then some .noPort
  else
    match c.options.validate with
    | .error refusal => some (.options refusal)
    | .ok () =>
      if Text.isBlank c.language.toList then some .noLanguage
      else if c.pool.workerCount = some 0 then some .noWorkers
      else if c.pool.queueCapacity = 0 then some .noQueue
      else if Text.isBlank c.embedded.model.toList then some .noModel
      else
        match if c.remote.isConfigured then c.remote.fault? else none with
        | some fault => some fault
        | none =>
          if c.store.enabled ∧ c.store.maxEntries = 0 then some .noStoreEntries else none

/-- Check a configuration. -/
def validate (c : Config) : Except Fault Unit :=
  match c.fault? with
  | some fault => .error fault
  | none => .ok ()

end Config

/-!
## A configuration as JSON

What a configuration comes to: the address, the options of requests, and the backends that it describes.
-/

/-- The settings of a described backend, without its kind. -/
def BackendSpec.settings (s : BackendSpec) : Json :=
  match s.toJson with
  | .obj ms => .obj (ms.filter (·.1 != "kind"))
  | j => j

namespace Config

def summary (c : Config) : Json :=
  .obj [("addr", .str c.server.address), ("language", .str c.language),
    ("options", c.options.toJson),
    ("pool", .obj [("worker_count", .ofNat? c.pool.workerCount),
      ("worker_program", .ofText? c.pool.program), ("queue_capacity", .ofNat c.pool.queueCapacity),
      ("startup_ms", .ofNat (Duration.ofSeconds c.pool.startupSeconds).millis)]),
    ("local", .ofOption (fun m => (BackendSpec.embedded m).settings) c.profiles.embedded),
    ("remote", .ofOption (fun m => (BackendSpec.remote m).settings) c.profiles.remote),
    ("remote_configured", .bool c.remote.isConfigured),
    ("cache", .obj [("enabled", .bool c.store.enabled), ("path", .str c.store.path),
      ("max_entries", .ofNat c.store.maxEntries)]),
    ("log", .obj [("level", .str c.log.level), ("json", .bool c.log.json)])]

end Config

end Pseudoscribe
