import Pseudoscribe.Assembly.Basic
import Pseudoscribe.Event.Basic
import Pseudoscribe.Options
import Pseudoscribe.Task.Handle
import Pseudoscribe.Task.Retry

/-!
# One chunk on its way

A chunk is offered to the pool, and when an attempt fails it rests and is offered again, up to a number of
attempts.  It ends converted, abandoned or cancelled.  A blank chunk is its own conversion and needs
no attempt.  What happens to a chunk comes from outside (`ChunkInput`), and every step tells what has
happened.
-/

namespace Pseudoscribe

/-- Something that a run tells while it goes on. -/
inductive Note where
  /-- for whoever listens -/
  | event (body : EventBody)
  /-- for the metrics -/
  | figure (name : String) (duration : Option Duration) (counters : List (String × Nat))
  /-- for the log: a chunk was to enter a state that may not follow its own -/
  | violated (chunk attempt : Nat) (transition : InvalidTransition)
deriving DecidableEq, Repr

/-- Where a chunk stands. -/
inductive ChunkStage where
  /-- an attempt is offered to the pool -/
  | offered
  /-- the pool has taken the attempt -/
  | underWay
  /-- the next attempt begins at a time -/
  | resting (time : Nat)
  | ended (final : ChunkEnd)
deriving DecidableEq, Repr

/-- A chunk on its way. -/
structure ChunkRun where
  chunk : Chunk
  /-- when it was begun -/
  since : Nat
  /-- the number of the attempt, from 1 -/
  attempt : Nat := 1
  /-- when the attempt was begun -/
  attemptSince : Nat := since
  lifecycle : Lifecycle := {}
  stage : ChunkStage := .offered
deriving DecidableEq, Repr

/-- What can happen to a chunk on its way. -/
inductive ChunkInput where
  /-- the pool takes the attempt -/
  | accepted
  /-- the pool has shut down -/
  | refused
  /-- the attempt has ended -/
  | outcome (outcome : TaskOutcome)
  /-- the rest is over -/
  | rested
  /-- the request is to stop -/
  | withdrawn
deriving DecidableEq, Repr

def ChunkInput.isWithdrawal : ChunkInput → Bool
  | withdrawn => true
  | _ => false

/-- How often a chunk is tried at most. -/
def Options.maxAttempts (o : Options) : Nat := min (o.maxRetries + 1) (Nat.pow 2 32 - 1)

namespace ChunkRun

/-- The time since a moment. -/
def elapsed (now since : Nat) : Option Duration := some (.ofMillis (now - since))

/-- Go through states and tell of each; a state that may not follow is passed over. -/
def enter (c : ChunkRun) : List TaskState → ChunkRun × List Note
  | [] => (c, [])
  | next :: rest =>
    match c.lifecycle.advance next with
    | .error transition =>
      let (c', notes) := c.enter rest
      (c', .violated c.chunk.index c.attempt transition :: notes)
    | .ok lifecycle =>
      let (c', notes) := { c with lifecycle }.enter rest
      (c', .event (.chunkState c.chunk.index c.attempt next) :: notes)

/-- The chunk has come to its end. -/
def finish (c : ChunkRun) (now : Nat) (final : ChunkEnd) : ChunkRun × List Note :=
  ({ c with stage := .ended final },
    [.figure "chunk" (elapsed now c.since)
      [(final.status.name, 1), ("attempts", final.attempts), ("retries", final.attempts - 1)]])

/-- Begin with a chunk; the answer for a blank one comes from `provenance`. -/
def start (now : Nat) (provenance : Provenance) (chunk : Chunk) : ChunkRun × List Note :=
  let c : ChunkRun := { chunk, since := now }
  if chunk.isBlank then c.finish now (.converted (.ofCode chunk.text 1 provenance) 0)
  else (c, [])

/-- The figure of an attempt that has ended. -/
def attemptFigure (c : ChunkRun) (now : Nat) (state : TaskState) : Note :=
  .figure "chunk.attempt" (elapsed now c.attemptSince) [(state.name, 1)]

/-- Give the chunk up because the request is to stop. -/
def cancel (c : ChunkRun) (now : Nat) : ChunkRun × List Note :=
  let (c, entered) := c.enter [.cancelled]
  let (c, finished) := c.finish now (.cancelled c.attempt)
  (c, entered ++ finished)

/-- Give the chunk up after its last attempt. -/
def abandon (c : ChunkRun) (now : Nat) (reason : String) : ChunkRun × List Note :=
  let (c, entered) := c.enter [.abandoned]
  let (c, finished) := c.finish now (.abandoned reason c.attempt)
  (c, entered ++ [.event (.chunkAbandoned c.chunk.index c.attempt reason)] ++ finished)

/-- Rest before the next attempt. -/
def rest (c : ChunkRun) (now : Nat) (delayMs : Nat) (reason : String) : ChunkRun × List Note :=
  let (c, entered) := c.enter [.retrying]
  ({ c with stage := .resting (now + delayMs) },
    entered ++ [.event (.chunkRetrying c.chunk.index c.attempt delayMs reason)])

/-- The attempt has failed. -/
def fail (c : ChunkRun) (now : Nat) (o : Options) (outcome : TaskOutcome) : ChunkRun × List Note :=
  let reason := outcome.failureReason?.getD "unknown failure"
  if o.maxAttempts ≤ c.attempt then c.abandon now reason
  else c.rest now (Retry.delayMs o.retryBackoffMs c.attempt (outcome.state == .timedOut)) reason

/-- The attempt has ended. -/
def conclude (c : ChunkRun) (now : Nat) (o : Options) (outcome : TaskOutcome) :
    ChunkRun × List Note :=
  let figure := c.attemptFigure now outcome.state
  match outcome with
  | .cancelled =>
    let (c, notes) := c.cancel now
    (c, figure :: notes)
  | outcome =>
    let (c, entered) := c.enter [.running, outcome.state]
    let (c, ended) := match outcome with
      | .completed a =>
        if a.success then c.finish now (.converted a c.attempt) else c.fail now o outcome
      | outcome => c.fail now o outcome
    (c, figure :: entered ++ ended)

/-- The rest is over. -/
def wake (c : ChunkRun) (now : Nat) : ChunkRun × List Note :=
  { c with attempt := c.attempt + 1, attemptSince := now, stage := .offered }.enter [.submitted]

/-- The outcome of an attempt that the pool refuses. -/
def refusal : TaskOutcome := .crashed "submission rejected: Pool is shut down"

/-- One step; nothing if what is said to have happened cannot happen now. -/
def step? (c : ChunkRun) (now : Nat) (o : Options) : ChunkInput → Option (ChunkRun × List Note)
  | .accepted => if c.stage = .offered then some ({ c with stage := .underWay }, []) else none
  | .refused => if c.stage = .offered then some (c.conclude now o refusal) else none
  | .outcome outcome => if c.stage = .underWay then some (c.conclude now o outcome) else none
  | .rested =>
    match c.stage with
    | .resting time => if time ≤ now then some (c.wake now) else none
    | _ => none
  | .withdrawn =>
    match c.stage with
    | .ended _ => none
    | .resting _ => some (c.cancel now)
    | _ => some (c.conclude now o .cancelled)

end ChunkRun

end Pseudoscribe
