import Pseudoscribe.Backend.Registry
import Pseudoscribe.Worker.Message

/-!
# The life of a worker

A worker says that it is ready and then goes through the lines that it is given, one after the other.  Blank lines
are passed over.  A line that cannot be read is answered with an error, a question with a result
under its identifier; it ends with the lines or when it is told to shut down.
-/

namespace Pseudoscribe

/-- A worker: the process it is, and the backends it has made. -/
structure Worker where
  pid : Nat
  backends : Backends

/-- How a worker came to its end. -/
inductive WorkerEnd where
  /-- the lines ended, or it was told to shut down -/
  | finished
  /-- it broke down over a question, with these words -/
  | brokeDown (words : String)
  /-- it works on a question for ever -/
  | stuck
deriving DecidableEq, Repr

/-- What a worker makes of a line. -/
inductive WorkerStep where
  | reply (reply : WorkerReply)
  | skip
  | stop (how : WorkerEnd)
deriving Repr

namespace Worker

/-- Work on a question. -/
def convert (w : Worker) (order : WorkOrder) : WorkerStep × Worker :=
  let (work, backends) :=
    w.backends.work order.spec order.chunk order.language (.ofMillis order.timeoutMs)
  let step := match work with
    | ⟨none, _⟩ => .stop .stuck
    | ⟨some _, .ok a⟩ => .reply (.result order.id (a.withPid (some w.pid)))
    | ⟨some _, .error words⟩ => .stop (.brokeDown words)
  (step, { w with backends })

/-- Take up a line. -/
def step (w : Worker) (line : String) : WorkerStep × Worker :=
  if Text.isBlank line.toList then (.skip, w)
  else
    match (decodeLine? line).bind WorkerRequest.ofJson? with
    | none => (.reply (.error none "invalid request"), w)
    | some .shutdown => (.stop .finished, w)
    | some (.convert order) => w.convert order

/-- Go through lines: the replies in order, and the end. -/
def answer (w : Worker) : List String → List WorkerReply × WorkerEnd × Worker
  | [] => ([], .finished, w)
  | line :: rest =>
    match w.step line with
    | (.skip, w) => w.answer rest
    | (.stop how, w) => ([], how, w)
    | (.reply reply, w) =>
      let (replies, how, w) := w.answer rest
      (reply :: replies, how, w)

/-- Everything that a worker says for these lines. -/
def serve (w : Worker) (lines : List String) : List WorkerReply × WorkerEnd × Worker :=
  let (replies, how, w) := w.answer lines
  (.ready w.pid :: replies, how, w)

end Worker

end Pseudoscribe
