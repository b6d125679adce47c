import Pseudoscribe.Backend.Kind
import Pseudoscribe.Json.Form
import Pseudoscribe.Number.Duration
import Pseudoscribe.Text.Trim

/-!
# Options of a request

How a source text is to be converted.  Options are checked before anything is done with them.

A caller names only the options that are to differ from the defaults; an option that is null is not named.
-/

namespace Pseudoscribe

/-- How a source text is to be converted. -/
structure Options where
  /-- greatest length of a chunk in characters -/
  maxChunkSize : Nat := 2000
  /-- lines of context that a piece of a block carries along -/
  overlapLines : Nat := 3
  /-- how often a chunk is tried again after its first attempt -/
  maxRetries : Nat := 2
  /-- chunks of one request that are under way at the same time -/
  workerCount : Nat := 4
  /-- time that one attempt may take -/
  timeoutSeconds : Double := Double.ofNat 60
  backend : BackendKind := .embedded
  /-- the revision of the model -/
  revision : String := "v1"
  /-- the delay before the first new attempt -/
  retryBackoffMs : Nat := 250
deriving DecidableEq, Repr

namespace Options

/-- Why options are refused. -/
inductive Refusal where
  | noChunkSize
  | noWorkers
  | badTimeout (seconds : Double)
  | noRevision
deriving DecidableEq, Repr

def Refusal.message : Refusal → String
  | noChunkSize => "max_chunk_size must be greater than 0"
  | noWorkers => "worker_count must be greater than 0"
  | badTimeout seconds => s!"timeout_seconds must be a positive number, got {seconds.display}"
  | noRevision => "model_revision must be pinned"

/-- A finite number of seconds greater than zero. -/
def isPositive (seconds : Double) : Bool := seconds.isFinite && Double.lt 0 seconds

/-- Check options; the first fault is reported. -/
def validate (o : Options) : Except Refusal Unit :=
  if o.maxChunkSize = 0 then .error .noChunkSize
  else if o.workerCount = 0 then .error .noWorkers
  else if !isPositive o.timeoutSeconds then .error (.badTimeout o.timeoutSeconds)
  else if Text.isBlank o.revision.toList then .error .noRevision
  else .ok ()

/-- The time that one attempt may take; nothing when the number of seconds is too great for a length
of time. -/
def timeout? (o : Options) : Option Duration := Duration.ofSeconds? o.timeoutSeconds

def toJson (o : Options) : Json :=
  .obj [("max_chunk_size", .ofNat o.maxChunkSize), ("overlap_lines", .ofNat o.overlapLines),
    ("max_retries", .ofNat o.maxRetries), ("worker_count", .ofNat o.workerCount),
    ("timeout_seconds", .real o.timeoutSeconds), ("model_backend", .str o.backend.name),
    ("model_revision", .str o.revision), ("retry_backoff_ms", .ofNat o.retryBackoffMs)]

/-! ## Options that a caller leaves out -/

/-- The options that can be named. -/
def fields : List (String × Json.Form) :=
  [("max_chunk_size", .count 64), ("overlap_lines", .count 64), ("max_retries", .count 32),
    ("worker_count", .count 64), ("timeout_seconds", .number),
    ("model_backend", .word (BackendKind.all.map BackendKind.name)), ("model_revision", .text),
    ("retry_backoff_ms", .count 64)]

/-- What a caller who names options is expected to write. -/
def form : Json.Form := .record (fields.map fun (name, form) => (name, .optional, .orNull form))

/-- Read the named options; all others are taken from `d`. -/
def patch? (d : Options) (j : Json) : Option Options := do
  let r ← j.record? (fields.map fun f => (f.1, .optional))
  let named {α : Type} (name : String) (otherwise : α) (read : Json → Option α) : Option α :=
    (r.read? name (Json.optional? read)).map (·.getD otherwise)
  let maxChunkSize ← named "max_chunk_size" d.maxChunkSize Json.asNat?
  let overlapLines ← named "overlap_lines" d.overlapLines Json.asNat?
  let maxRetries ← named "max_retries" d.maxRetries (Json.asUnsigned? 32)
  let workerCount ← named "worker_count" d.workerCount Json.asNat?
  let timeoutSeconds ← named "timeout_seconds" d.timeoutSeconds Json.asDouble?
  let backend ← named "model_backend" d.backend fun j => j.word?.bind BackendKind.ofName?
  let revision ← named "model_revision" d.revision Json.asText?
  let retryBackoffMs ← named "retry_backoff_ms" d.retryBackoffMs Json.asNat?
  pure { maxChunkSize, overlapLines, maxRetries, workerCount, timeoutSeconds, backend, revision,
         retryBackoffMs }

end Options

end Pseudoscribe
