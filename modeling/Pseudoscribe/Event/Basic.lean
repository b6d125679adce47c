import Pseudoscribe.Json.Record
import Pseudoscribe.Task.State

/-!
# Events

What is told of a request while it is carried out: that it began, what its chunks are doing, and how it
ended.
-/

namespace Pseudoscribe

/-- What happened. -/
inductive EventBody where
  | started (totalChunks : Nat)
  | chunkState (chunk attempt : Nat) (state : TaskState)
  | chunkCompleted (chunk attempts : Nat) (confidence : Double) (finished total : Nat)
  | chunkRetrying (chunk attempt delayMs : Nat) (reason : String)
  | chunkAbandoned (chunk attempts : Nat) (reason : String)
  | completed (success : Bool) (confidence : Double) (warnings errors : Nat)
  | cancelled (finished total : Nat)
  | failed (error : String)
deriving DecidableEq, Repr

/-- Something that happened to a request. -/
structure Event where
  request : String
  body : EventBody
deriving DecidableEq, Repr

namespace EventBody

/-- The request has ended. -/
def isTerminal : EventBody → Bool
  | completed .. | cancelled .. | failed _ => true
  | _ => false

/-- The chunk that the event is about. -/
def chunk? : EventBody → Option Nat
  | chunkState c .. | chunkCompleted c .. | chunkRetrying c .. | chunkAbandoned c .. => some c
  | _ => none

/-- The name of the event on the wire. -/
def name : EventBody → String
  | started _ => "Started"
  | chunkState .. => "ChunkState"
  | chunkCompleted .. => "ChunkCompleted"
  | chunkRetrying .. => "ChunkRetrying"
  | chunkAbandoned .. => "ChunkAbandoned"
  | completed .. => "Completed"
  | cancelled .. => "Cancelled"
  | failed _ => "Failed"

/-- What the event carries on the wire. -/
def members : EventBody → List (String × Json)
  | started total => [("total_chunks", .ofNat total)]
  | chunkState chunk attempt state =>
    [("chunk_index", .ofNat chunk), ("attempt", .ofNat attempt), ("state", .str state.name)]
  | chunkCompleted chunk attempts confidence finished total =>
    [("chunk_index", .ofNat chunk), ("attempts", .ofNat attempts), ("confidence", .real confidence),
      ("completed", .ofNat finished), ("total", .ofNat total)]
  | chunkRetrying chunk attempt delayMs reason =>
    [("chunk_index", .ofNat chunk), ("attempt", .ofNat attempt), ("delay_ms", .ofNat delayMs),
      ("reason", .str reason)]
  | chunkAbandoned chunk attempts reason =>
    [("chunk_index", .ofNat chunk), ("attempts", .ofNat attempts), ("reason", .str reason)]
  | completed success confidence warnings errors =>
    [("success", .bool success), ("confidence", .real confidence), ("warnings", .ofNat warnings),
      ("errors", .ofNat errors)]
  | cancelled finished total => [("completed", .ofNat finished), ("total", .ofNat total)]
  | failed error => [("error", .str error)]

end EventBody

namespace Event

def isTerminal (e : Event) : Bool := e.body.isTerminal

def toJson (e : Event) : Json :=
  .obj [("event", .str e.body.name),
    ("data", .obj (("request_id", .str e.request) :: e.body.members))]

/-- Read what an event of the given name carries. -/
def ofData? (name : String) (data : Json) : Option Event := do
  let fields ← match name with
    | "Started" => some ["total_chunks"]
    | "ChunkState" => some ["chunk_index", "attempt", "state"]
    | "ChunkCompleted" => some ["chunk_index", "attempts", "confidence", "completed", "total"]
    | "ChunkRetrying" => some ["chunk_index", "attempt", "delay_ms", "reason"]
    | "ChunkAbandoned" => some ["chunk_index", "attempts", "reason"]
    | "Completed" => some ["success", "confidence", "warnings", "errors"]
    | "Cancelled" => some ["completed", "total"]
    | "Failed" => some ["error"]
    | _ => none
  let r ← data.record? (("request_id" :: fields).map (·, .required))
  let count (name : String) := r.read? name Json.asNat?
  let small (name : String) := r.read? name (Json.asUnsigned? 32)
  let text (name : String) := r.read? name Json.asText?
  let body ← match name with
    | "Started" => do pure (EventBody.started (← count "total_chunks"))
    | "ChunkState" => do
      let state ← r.read? "state" fun j => j.word?.bind TaskState.ofName?
      pure (.chunkState (← count "chunk_index") (← small "attempt") state)
    | "ChunkCompleted" => do
      let confidence ← r.read? "confidence" Json.asDouble?
      pure (.chunkCompleted (← count "chunk_index") (← small "attempts") confidence
        (← count "completed") (← count "total"))
    | "ChunkRetrying" => do
      pure (.chunkRetrying (← count "chunk_index") (← small "attempt") (← count "delay_ms")
        (← text "reason"))
    | "ChunkAbandoned" => do
      pure (.chunkAbandoned (← count "chunk_index") (← small "attempts") (← text "reason"))
    | "Completed" => do
      let success ← r.read? "success" Json.asBool?
      let confidence ← r.read? "confidence" Json.asDouble?
      pure (.completed success confidence (← count "warnings") (← count "errors"))
    | "Cancelled" => do pure (.cancelled (← count "completed") (← count "total"))
    | _ => do pure (.failed (← text "error"))
  pure ⟨← text "request_id", body⟩

/-- Read an event. -/
def ofJson? (j : Json) : Option Event := do
  let r ← j.record? [("event", .required), ("data", .required)]
  let name ← r.read? "event" Json.asText?
  ofData? name (← r.find? "data")

end Event

end Pseudoscribe
