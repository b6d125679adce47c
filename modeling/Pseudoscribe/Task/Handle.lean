import Pseudoscribe.Answer
import Pseudoscribe.Number.Duration
import Pseudoscribe.Task.State

/-!
# Waiting for a task

Whoever hands in a task gets two signals: that a worker has begun with it, and its outcome.  The wait for the
begin is not limited.  From then on the outcome may take the time of the task and some grace, in
which the worker is replaced; after that the task is told to stop and counts as timed out.  Times
are in milliseconds.
-/

namespace Pseudoscribe

/-! ## Outcomes of an attempt -/

/-- How one attempt at a chunk ended. -/
inductive TaskOutcome where
  /-- the backend answered -/
  | completed (answer : Answer)
  /-- the worker broke down -/
  | crashed (reason : String)
  | timedOut (after : Duration)
  | cancelled
deriving DecidableEq, Repr

namespace TaskOutcome

/-- The state that the outcome brings a running task to. -/
def state : TaskOutcome → TaskState
  | completed a => if a.success then .succeeded else .failed
  | crashed _ => .failed
  | timedOut _ => .timedOut
  | cancelled => .cancelled

/-- Why the attempt failed; nothing for a success. -/
def failureReason? : TaskOutcome → Option String
  | completed a => if a.success then none else some a.errorSummary
  | crashed reason => some s!"worker crashed: {reason}"
  | timedOut after => some s!"timed out after {after.text}"
  | cancelled => some "cancelled"

def answer? : TaskOutcome → Option Answer
  | completed a => some a
  | _ => none

def toJson (o : TaskOutcome) : Json :=
  .obj [("state", .str o.state.name), ("reason", .ofText? o.failureReason?),
    ("result", (o.answer?.map Answer.toJson).getD .null)]

end TaskOutcome

/-! ## Waits -/

/-- A signal that is given once, if ever. -/
inductive Signal (α : Type) where
  | never
  | given (time : Nat) (value : α)
  /-- from this time on it can no longer be given -/
  | lost (time : Nat)
deriving Repr, DecidableEq

namespace Signal

variable {α : Type}

/-- When it is known whether the signal is given. -/
def time? : Signal α → Option Nat
  | never => none
  | given t _ => some t
  | lost t => some t

end Signal

/-- The end of a wait. -/
structure Collected where
  outcome : TaskOutcome
  /-- when the wait ended -/
  time : Nat
  /-- the task was told to stop -/
  cancels : Bool
deriving Repr, DecidableEq

namespace Collected

/-- The outcome of a task that was dropped. -/
def dropped : TaskOutcome := .crashed "pool dropped the task"

/-- What the signal for the outcome says, for a wait that has begun at `now`. -/
def ofOutcome? (now : Nat) : Signal TaskOutcome → Option Collected
  | .never => none
  | .given t outcome => some ⟨outcome, max now t, false⟩
  | .lost t => some ⟨dropped, max now t, false⟩

/-- How long the outcome may take beyond the time of the task. -/
def grace : Nat := 5000

/-- The wait from `now` on; nothing if it never ends. -/
def wait? (now : Nat) (timeout grace : Duration) (started : Signal Unit)
    (outcome : Signal TaskOutcome) : Option Collected :=
  match started.time?, ofOutcome? now outcome with
  | none, r => r
  | some s, r =>
    let limit := max now s + (timeout + grace).ticks
    match r with
    | some r => if r.time ≤ limit then some r else some ⟨.timedOut timeout, limit, true⟩
    | none => some ⟨.timedOut timeout, limit, true⟩

end Collected

end Pseudoscribe
