import Pseudoscribe.Pool.Basic
import Pseudoscribe.Text.Quoted
import Pseudoscribe.Worker.Loop
import Pseudoscribe.Worker.StandIn

/-!
# Links to workers

A link joins the pool with a worker in a process of its own.  It is made when the worker has said in time that
it is ready.  A question goes out as a line; of the lines that come back the first that decides it is
the answer, and answers to other questions are passed over.
-/

namespace Pseudoscribe

/-- The process at the other end of a link. -/
inductive Peer where
  /-- a worker, what it has said, and how it ended -/
  | worker (worker : Worker) (said : List String) (how : Option ProcessEnd)
  | standIn (program : StandIn)

namespace Peer

/-- A reply as it is sent, without the end of its line. -/
def lineOf (reply : WorkerReply) : String := reply.toJson.text

def ofWorker (w : Worker) : Peer := worker w [lineOf (.ready w.pid)] none

/-- Send a line. -/
def send (p : Peer) (line : String) : Peer :=
  match p with
  | standIn s => standIn { s with unread := s.unread ++ [line] }
  | worker w said (some how) => worker w said (some how)
  | worker w said none =>
    match w.step line with
    | (.reply reply, w) => worker w (said ++ [lineOf reply]) none
    | (.stop .finished, w) => worker w said (some (.code 0))
    | (.stop (.brokeDown _), w) => worker w said (some (.code 101))
    | (_, w) => worker w said none

/-- Listen for the next line, up to a time in milliseconds since the beginning. -/
def listen (p : Peer) (limit : Option Nat) : Heard × Peer :=
  match p with
  | standIn s =>
    let (heard, s) := s.listen limit
    (heard, standIn s)
  | worker w (line :: said) how => (.line line, worker w said how)
  | worker w [] (some how) => (.finished how, worker w [] (some how))
  | worker w [] none => (.silence, worker w [] none)

/-- How the process ends by itself: without waiting for anything, or with all the time that it needs. -/
def end? (p : Peer) (waits : Bool) : Option ProcessEnd :=
  match p with
  | standIn s => s.end? (if waits then none else some s.clock)
  | worker _ _ how => how

end Peer

namespace WorkerReply

def shownTexts (ts : List String) : String := "[" ++ ", ".intercalate (ts.map Text.shown) ++ "]"

def shownOption (x : Option String) : String := x.elim "None" fun t => s!"Some({t})"

/-- Named values in braces. -/
def shownFields (name : String) (fields : List (String × String)) : String :=
  name ++ " \x7b " ++ ", ".intercalate (fields.map fun f => f.1 ++ ": " ++ f.2) ++ " \x7d"

def shownId (id : RequestId) : String := s!"TaskId({id.text})"

/-- A reply as it is shown to those who look for faults. -/
def shown : WorkerReply → String
  | ready pid => shownFields "Ready" [("pid", toString pid)]
  | error id message =>
    shownFields "Error"
      [("task_id", shownOption (id.map shownId)), ("message", Text.shown message)]
  | result id a =>
    let p := a.provenance
    let provenance := shownFields "ResultMetadata"
      [("model_name", Text.shown p.model), ("model_revision", Text.shown p.revision),
        ("backend", match p.backend with
          | .embedded => "Local"
          | .remote => "Remote"),
        ("latency_ms", toString p.latencyMs), ("best_effort", toString p.bestEffort),
        ("worker_pid", shownOption (p.workerPid.map toString))]
    let answer := shownFields "TranslationResult"
      [("success", toString a.success), ("code", shownOption (a.code.map Text.shown)),
        ("errors", shownTexts a.errors), ("warnings", shownTexts a.warnings),
        ("confidence", a.confidence.dataText), ("metadata", provenance)]
    shownFields "Result" [("task_id", shownId id), ("result", answer)]

/-- Read a line of a worker. -/
def ofLine? (line : String) : Option WorkerReply := (decodeLine? line).bind ofJson?

/-- What a line decides about a question; nothing if it is passed over. -/
def verdict? (id : RequestId) (line : String) : Option (Except WorkerFault Answer) :=
  if Text.isBlank line.toList then none
  else
    match ofLine? line with
    | some (.result other a) => if other = id then some (.ok a) else none
    | some (.error _ message) => some (.error (.protocol message))
    | some (.ready _) => none
    | none => some (.error (.protocol "invalid reply"))

end WorkerReply

/-- The question for a task, under an identifier. -/
def PoolTask.order (t : PoolTask) (id : RequestId) : WorkOrder where
  id
  chunk := t.chunk
  spec := t.spec
  language := t.language
  attempt := t.attempt
  timeoutMs := t.timeout.millisWord.toNat

/-- A link to a worker in a process of its own. -/
structure Link where
  peer : Peer
  pid : Nat
  /-- how its process ended, if it was stopped by force -/
  stopped : Option ProcessEnd := none

namespace Link

/-- Wait until a worker is ready. -/
def ofPeer (peer : Peer) (startup : Duration) : Except WorkerFault Link :=
  match peer.listen (some startup.millis) with
  | (.silence, _) => .error (.startup s!"no ready message within {startup.text}")
  | (.finished how, _) =>
    let ending := s!"Some(ExitStatus(unix_wait_status({how.word})))"
    .error (.startup s!"worker exited before ready ({ending})")
  | (.line line, peer) =>
    match WorkerReply.ofLine? line with
    | some (.ready pid) => .ok { peer, pid }
    | some reply => .error (.startup s!"unexpected message: {reply.shown}")
    | none => .error (.startup "invalid ready message")

/-- How the process has ended by now. -/
def ended? (l : Link) : Option ProcessEnd := l.stopped <|> l.peer.end? false

def isAlive (l : Link) : Bool := l.ended?.isNone

/-- Stop the process by force. -/
def kill (l : Link) : Link := { l with stopped := l.ended? <|> some .killed }

/-- How the process ends, if it does. -/
def end? (l : Link) : Option ProcessEnd := l.stopped <|> l.peer.end? true

/-- Wait for the line that decides a question; nothing if none comes. -/
def awaitFor (l : Link) (id : RequestId) : Nat → Option (Except WorkerFault Answer) × Link
  | 0 => (none, l)
  | fuel + 1 =>
    match l.peer.listen none with
    | (.silence, peer) => (none, { l with peer })
    | (.finished how, peer) => (some (.error (.exited how.text)), { l with peer })
    | (.line line, peer) =>
      match WorkerReply.verdict? id line with
      | some verdict => (some verdict, { l with peer })
      | none => { l with peer }.awaitFor id fuel

/-- More lines than can come before a question is decided. -/
def lines (l : Link) : Nat :=
  match l.peer with
  | .worker _ said _ => said.length + 1
  | .standIn s => s.bound + s.unread.length

/-- Have a question answered. -/
def execute (l : Link) (order : WorkOrder) : Option (Except WorkerFault Answer) × Link :=
  if l.isAlive then
    let l := { l with peer := l.peer.send (WorkerRequest.convert order).toJson.text }
    l.awaitFor order.id l.lines
  else (some (.error (.io "Broken pipe (os error 32)")), l)

/-- Have a task carried out. -/
def carryOut (l : Link) (id : RequestId) (t : PoolTask) : Option (Except WorkerFault Answer) × Link :=
  l.execute (t.order id)

/-- The process of a program; nothing is known of most programs, and then there is none. -/
def peerOf (program : String) (args : List String) : Except WorkerFault Peer :=
  let name := ((Text.splitOn '/' program.toList).getLast?.map String.ofList).getD ""
  let known := ["", "/bin/", "/usr/bin/"].any fun place => program == place ++ name
  if !known then .error (.spawn s!"{program}: No such file or directory (os error 2)")
  else
    match name, args with
    | "sh", ["-c", text] => .ok (.standIn (.ofText text))
    | "true", _ | "false", _ | "cat", _ | "echo", _ | "sleep", _ =>
      let (acts, status) := StandIn.actsOf (name :: args)
      .ok (.standIn { acts := acts ++ [.finish (.code status)] })
    | _, _ => .error (.spawn s!"{program}: No such file or directory (os error 2)")

end Link

end Pseudoscribe
