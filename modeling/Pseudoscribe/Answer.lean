import Pseudoscribe.Backend.Kind
import Pseudoscribe.Json.Record
import Pseudoscribe.Text.Trim

/-!
# Answers

What a backend answers for one chunk: code with a confidence between 0 and 1, or at least one error.  Answers
that are made here keep to that (`Answer.Sound`); an answer that another process sends is taken as it is.
-/

namespace Pseudoscribe

/-- Where an answer comes from. -/
structure Provenance where
  model : String := "m"
  revision : String := "r"
  backend : BackendKind := .embedded
  latencyMs : Nat := 0
  /-- the answer may be incomplete -/
  bestEffort : Bool := false
  /-- the process that made it -/
  workerPid : Option Nat := none
deriving DecidableEq, Repr, Inhabited

/-- What a backend answers for one chunk. -/
structure Answer where
  success : Bool
  code : Option String
  errors : List String
  warnings : List String
  confidence : Double
  provenance : Provenance
deriving DecidableEq, Repr, Inhabited

namespace Answer

/-- A confidence brought into the range from 0 to 1; what is no finite number counts as 0. -/
def clampConfidence (x : Double) : Double :=
  if !x.isFinite then 0
  else if Double.lt x 0 then 0
  else if Double.lt 1 x then 1
  else x

/-- Code with a confidence. -/
def ofCode (code : String) (confidence : Double) (provenance : Provenance) : Answer :=
  { success := true
    code := some code
    errors := []
    warnings := []
    confidence := clampConfidence confidence
    provenance }

/-- An error; one without text is named unknown. -/
def ofError (error : String) (provenance : Provenance) : Answer :=
  { success := false
    code := none
    errors := [if Text.isBlank error.toList then "unknown backend failure" else error]
    warnings := []
    confidence := 0
    provenance }

def addWarning (a : Answer) (warning : String) : Answer :=
  { a with warnings := a.warnings ++ [warning] }

def addWarnings (a : Answer) (warnings : List String) : Answer :=
  { a with warnings := a.warnings ++ warnings }

/-- Add an error to an answer that has one; code stays code. -/
def addError (a : Answer) (error : String) : Answer :=
  if a.success then a else { a with errors := a.errors ++ [error] }

def markBestEffort (a : Answer) : Answer :=
  { a with provenance := { a.provenance with bestEffort := true } }

def withPid (a : Answer) (pid : Option Nat) : Answer :=
  { a with provenance := { a.provenance with workerPid := pid } }

def withLatency (a : Answer) (ms : Nat) : Answer :=
  { a with provenance := { a.provenance with latencyMs := ms } }

/-- All errors on one line. -/
def errorSummary (a : Answer) : String := String.intercalate "; " a.errors

/-- Code without errors and with a confidence in range, or errors without code and confidence. -/
def Sound (a : Answer) : Prop :=
  if a.success then
    a.code.isSome ∧ a.errors = [] ∧ a.confidence.isFinite ∧
      Double.le 0 a.confidence ∧ Double.le a.confidence 1
  else a.code = none ∧ a.errors ≠ [] ∧ a.confidence = 0

end Answer

namespace Provenance

def toJson (p : Provenance) : Json :=
  .obj [("model_name", .str p.model), ("model_revision", .str p.revision),
    ("backend", .str p.backend.name), ("latency_ms", .ofNat p.latencyMs),
    ("best_effort", .bool p.bestEffort), ("worker_pid", .ofNat? p.workerPid)]

def ofJson? (j : Json) : Option Provenance := do
  let r ← j.record?
    [("model_name", .required), ("model_revision", .required), ("backend", .required),
      ("latency_ms", .required), ("best_effort", .defaulted), ("worker_pid", .defaulted)]
  let model ← r.read? "model_name" Json.asText?
  let revision ← r.read? "model_revision" Json.asText?
  let backend ← r.read? "backend" fun j => j.word?.bind BackendKind.ofName?
  let latencyMs ← r.read? "latency_ms" Json.asNat?
  let bestEffort ← r.readOr? "best_effort" false Json.asBool?
  let workerPid ← r.readOr? "worker_pid" none (Json.optional? (Json.asUnsigned? 32))
  pure { model, revision, backend, latencyMs, bestEffort, workerPid }

end Provenance

namespace Answer

def toJson (a : Answer) : Json :=
  .obj [("success", .bool a.success), ("code", .ofText? a.code), ("errors", .texts a.errors),
    ("warnings", .texts a.warnings), ("confidence", .real a.confidence),
    ("metadata", a.provenance.toJson)]

def ofJson? (j : Json) : Option Answer := do
  let r ← j.record?
    [("success", .required), ("code", .optional), ("errors", .required), ("warnings", .required),
      ("confidence", .required), ("metadata", .required)]
  let success ← r.read? "success" Json.asBool?
  let code ← r.read? "code" (Json.optional? Json.asText?)
  let errors ← r.read? "errors" (Json.listOf? Json.asText?)
  let warnings ← r.read? "warnings" (Json.listOf? Json.asText?)
  let confidence ← r.read? "confidence" Json.asDouble?
  let provenance ← r.read? "metadata" Provenance.ofJson?
  pure { success, code, errors, warnings, confidence, provenance }

end Answer

end Pseudoscribe
