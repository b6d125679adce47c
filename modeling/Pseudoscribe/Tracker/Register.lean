import Pseudoscribe.Assembly.Basic
import Pseudoscribe.Error

/-!
# The register of requests

Requests that were handed in to be carried out in the background: where they stand, how far they are and
what came of them.  A request that has ended does not change its state again; after some time it is
forgotten.
-/

namespace Pseudoscribe

/-! ## States of a request -/

/-- Where a request stands. -/
inductive RequestState where
  /-- accepted and not yet begun -/
  | pending
  | running
  /-- there is a result, though perhaps not for every chunk -/
  | completed
  /-- there is no result -/
  | failed
  | cancelled
deriving DecidableEq, Repr, Inhabited

namespace RequestState

def name : RequestState → String
  | pending => "pending"
  | running => "running"
  | completed => "completed"
  | failed => "failed"
  | cancelled => "cancelled"

def ofName? : String → Option RequestState
  | "pending" => some pending
  | "running" => some running
  | "completed" => some completed
  | "failed" => some failed
  | "cancelled" => some cancelled
  | _ => none

/-- The request has ended. -/
def isFinished : RequestState → Bool
  | completed | failed | cancelled => true
  | _ => false

theorem ofName?_name (s : RequestState) : ofName? s.name = some s := by cases s <;> rfl

end RequestState

/-! ## Requests in the register -/

/-- A request in the register. -/
structure TrackedRequest where
  id : RequestId
  language : String
  state : RequestState := .pending
  totalChunks : Nat := 0
  completedChunks : Nat := 0
  /-- when it was handed in, in nanoseconds -/
  createdAt : Int
  finishedAt : Option Int := none
  result : Option Assembly := none
  error : Option String := none
  /-- it was asked to stop -/
  cancelled : Bool := false
deriving DecidableEq, Repr

/-- All requests that are known. -/
structure Register where
  entries : List TrackedRequest := []
deriving Repr

namespace Register

def size (r : Register) : Nat := r.entries.length

def find? (r : Register) (id : RequestId) : Option TrackedRequest :=
  r.entries.find? (·.id == id)

/-- Change the request of an identifier. -/
def update (r : Register) (id : RequestId) (f : TrackedRequest → TrackedRequest) : Register :=
  ⟨r.entries.map fun t => if t.id == id then f t else t⟩

/-- Take a request in, unless its identifier is in use. -/
def insert (r : Register) (t : TrackedRequest) : Except TrackerError Register :=
  match r.find? t.id with
  | some _ => .error (.alreadyExists t.id.text)
  | none => .ok ⟨r.entries ++ [t]⟩

/-- Change the state of a request that has not ended. -/
def setState (r : Register) (now : Int) (id : RequestId) (state : RequestState) :
    Except TrackerError Register :=
  match r.find? id with
  | none => .error (.notFound id.text)
  | some t =>
    if t.state.isFinished then .error (.invalidTransition s!"{t.state.name} -> {state.name}")
    else
      .ok (r.update id fun t =>
        { t with state, finishedAt := if state.isFinished then some now else t.finishedAt })

/-- Note how far a request is.  Requests that are not known are passed over. -/
def setProgress (r : Register) (id : RequestId) (completed total : Nat) : Register :=
  r.update id fun t => { t with completedChunks := completed, totalChunks := total }

/-- End a request that has not ended. -/
def finish (r : Register) (now : Int) (id : RequestId) (state : RequestState)
    (result : Option Assembly) (error : Option String) : Except TrackerError Register :=
  match r.find? id with
  | none => .error (.notFound id.text)
  | some t =>
    if t.state.isFinished then
      .error (.invalidTransition s!"{id.text} is already {t.state.name}")
    else .ok (r.update id fun t => { t with state, result, error, finishedAt := some now })

/-- End a request with a result. -/
def complete (r : Register) (now : Int) (id : RequestId) (result : Assembly) :
    Except TrackerError Register :=
  r.finish now id (if result.cancelled then .cancelled else .completed) (some result) none

/-- End a request without a result. -/
def fail (r : Register) (now : Int) (id : RequestId) (error : String) :
    Except TrackerError Register :=
  r.finish now id .failed none (some error)

/-- Ask a request to stop; `false` if it is not known or has ended. -/
def cancel (r : Register) (id : RequestId) : Bool × Register :=
  match r.find? id with
  | some t =>
    if t.state.isFinished then (false, r)
    else (true, r.update id fun t => { t with cancelled := true })
  | none => (false, r)

/-- The requests that have not ended. -/
def active (r : Register) : List TrackedRequest :=
  r.entries.filter (!·.state.isFinished)

/-- Forget the requests that ended before a time; how many they were. -/
def cleanup (r : Register) (before : Int) : Nat × Register :=
  let kept := r.entries.filter fun t => t.finishedAt.all (before ≤ ·)
  (r.entries.length - kept.length, ⟨kept⟩)

/-! ## Questions from outside -/

/-- The identifier in a text. -/
def readId (text : String) : Except ServiceError RequestId :=
  match RequestId.parse? text with
  | some id => .ok id
  | none => .error (.validation s!"Invalid request_id: {text}")

/-- The request that a text names. -/
def status (r : Register) (text : String) : Except ServiceError TrackedRequest := do
  let id ← readId text
  match r.find? id with
  | some t => .ok t
  | none => .error (.notFound "Translation" id.text)

/-- Ask the request that a text names to stop: its identifier, and whether it was under way. -/
def stop (r : Register) (text : String) : Except ServiceError (RequestId × Bool × Register) := do
  let t ← r.status text
  pure (t.id, r.cancel t.id)

end Register

/-- What is told of a request; `showTime` writes a time. -/
def TrackedRequest.toJson (showTime : Int → String) (t : TrackedRequest) : Json :=
  .obj ([("request_id", .str t.id.text), ("target_language", .str t.language),
      ("state", .str t.state.name), ("total_chunks", .ofNat t.totalChunks),
      ("completed_chunks", .ofNat t.completedChunks), ("created_at", .str (showTime t.createdAt))] ++
    (t.finishedAt.map fun time => ("finished_at", Json.str (showTime time))).toList ++
    (t.result.map fun a => ("result", a.toJson)).toList ++
    (t.error.map fun e => ("error", Json.str e)).toList)

end Pseudoscribe
