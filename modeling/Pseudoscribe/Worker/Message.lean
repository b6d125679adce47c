import Pseudoscribe.Answer
import Pseudoscribe.Backend.Spec
import Pseudoscribe.Chunk.Basic
import Pseudoscribe.Json.Printer
import Pseudoscribe.Json.Reader
import Pseudoscribe.RequestId

/-!
# Messages to and from workers

A worker and the pool speak in lines of JSON.  The worker says that it is ready, is asked for the code
of chunks, answers each question under its identifier, and ends when it is told to.
-/

namespace Pseudoscribe

/-- A question for the code of a chunk. -/
structure WorkOrder where
  id : RequestId
  chunk : Chunk
  spec : BackendSpec
  language : Language
  /-- which attempt this is, from 1 -/
  attempt : Nat
  timeoutMs : Nat
deriving DecidableEq, Repr

/-- What a worker is told. -/
inductive WorkerRequest where
  | convert (order : WorkOrder)
  | shutdown
deriving DecidableEq, Repr

/-- What a worker says. -/
inductive WorkerReply where
  | ready (pid : Nat)
  | result (id : RequestId) (answer : Answer)
  /-- a line that could not be read -/
  | error (id : Option RequestId) (message : String)
deriving DecidableEq, Repr

def RequestId.ofJson? (j : Json) : Option RequestId := j.asText?.bind RequestId.parse?

namespace WorkerRequest

def toJson : WorkerRequest → Json
  | convert o =>
    .obj [("type", .str "translate"), ("task_id", .str o.id.text), ("chunk", o.chunk.toJson),
      ("spec", o.spec.toJson), ("target_language", .str o.language.name),
      ("attempt", .ofNat o.attempt), ("timeout_ms", .ofNat o.timeoutMs)]
  | shutdown => .obj [("type", .str "shutdown")]

def orderOfJson? (j : Json) : Option WorkOrder := do
  let r ← j.record?
    [("task_id", .required), ("chunk", .required), ("spec", .required),
      ("target_language", .required), ("attempt", .required), ("timeout_ms", .required)]
  let id ← r.read? "task_id" RequestId.ofJson?
  let chunk ← r.read? "chunk" Chunk.ofJson?
  let spec ← r.read? "spec" BackendSpec.ofJson?
  let language ← r.read? "target_language" Json.asText?
  let attempt ← r.read? "attempt" (Json.asUnsigned? 32)
  let timeoutMs ← r.read? "timeout_ms" Json.asNat?
  pure { id, chunk, spec, language := ⟨language⟩, attempt, timeoutMs }

def ofJson? (j : Json) : Option WorkerRequest :=
  match j.tagged? "type" with
  | some ("translate", rest) => (orderOfJson? rest).map convert
  | some ("shutdown", _) => some shutdown
  | _ => none

end WorkerRequest

namespace WorkerReply

def toJson : WorkerReply → Json
  | ready pid => .obj [("type", .str "ready"), ("pid", .ofNat pid)]
  | result id answer =>
    .obj [("type", .str "result"), ("task_id", .str id.text), ("result", answer.toJson)]
  | error id message =>
    .obj [("type", .str "error"), ("task_id", .ofText? (id.map RequestId.text)),
      ("message", .str message)]

def ofJson? (j : Json) : Option WorkerReply :=
  match j.tagged? "type" with
  | some ("ready", rest) => do
    let r ← rest.record? [("pid", .required)]
    let pid ← r.read? "pid" (Json.asUnsigned? 32)
    pure (ready pid)
  | some ("result", rest) => do
    let r ← rest.record? [("task_id", .required), ("result", .required)]
    let id ← r.read? "task_id" RequestId.ofJson?
    let answer ← r.read? "result" Answer.ofJson?
    pure (result id answer)
  | some ("error", rest) => do
    let r ← rest.record? [("task_id", .defaulted), ("message", .required)]
    let id ← r.readOr? "task_id" none (Json.optional? RequestId.ofJson?)
    let message ← r.read? "message" Json.asText?
    pure (error id message)
  | _ => none

end WorkerReply

/-- A message as one line, with the newline that ends it. -/
def encodeLine (message : Json) : String := message.text ++ "\n"

/-- The value on a line; blanks behind it do not count. -/
def decodeLine? (line : String) : Option Json := Json.ofChars? (Text.trimEnd line.toList)

end Pseudoscribe
