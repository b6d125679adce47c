import Pseudoscribe.Answer
import Pseudoscribe.Backend.Spec
import Pseudoscribe.Chunk.Basic
import Pseudoscribe.Json.Members
import Pseudoscribe.Number.Total
import Pseudoscribe.Task.Handle

/-!
# The pool

A fixed number of slots take tasks from one queue of limited length.  In each slot a worker runs one task at a time.
A worker that breaks down, is killed, takes too long or is to give its task up is replaced, and the
outcome of its task is held back until the new worker stands.

A pool goes on in labelled steps (`Pool.step?`); a step that cannot be taken now is refused.  Which of the
possible steps is taken next is decided elsewhere, so that what holds after every sequence of steps
holds for every order in which workers, tasks and signals may meet.
-/

namespace Pseudoscribe

/-- A task: an attempt at a chunk. -/
structure PoolTask where
  /-- the number under which the pool knows it -/
  ticket : Nat
  chunk : Chunk
  spec : BackendSpec
  language : Language
  attempt : Nat
  timeout : Duration
deriving DecidableEq, Repr

/-- How the work on a task came to an end. -/
inductive Ending where
  | answered (answer : Answer)
  /-- the worker broke down -/
  | broken (reason : String)
  | outOfTime
  /-- the task was to be given up, or the pool shut down -/
  | withdrawn
  | killed
deriving DecidableEq, Repr

namespace Ending

/-- The outcome of the task. -/
def outcome (task : PoolTask) : Ending → TaskOutcome
  | answered a => .completed a
  | broken reason => .crashed reason
  | outOfTime => .timedOut task.timeout
  | withdrawn => .cancelled
  | killed => .crashed "worker killed"

/-- Only a worker that has answered goes on. -/
def keepsWorker : Ending → Bool
  | answered _ => true
  | _ => false

end Ending

/-- What a slot has to do when its new worker stands. -/
inductive Debt where
  | nothing
  /-- hand out the outcome of the task that ended with the old worker -/
  | outcome (task : PoolTask) (outcome : TaskOutcome)
  /-- run the task that was taken when the old worker was found dead -/
  | task (task : PoolTask)
deriving DecidableEq, Repr

/-- What a slot is doing. -/
inductive Stage where
  | idle
  | running (task : PoolTask) (since : Nat)
  /-- a new worker is being started; after failures it is tried again at `retryAt` -/
  | replacing (debt : Debt) (failures : Nat) (retryAt : Nat)
  | stopped
deriving DecidableEq, Repr

/-- A slot and what is told of it. -/
structure Slot where
  stage : Stage := .idle
  alive : Bool := true
  busy : Bool := false
  completed : Nat := 0
  restarts : Nat := 0
  /-- its worker is to be killed -/
  killPending : Bool := false
deriving DecidableEq, Repr, Inhabited

/-- A signal of the pool, with its ticket and time. -/
structure Delivery where
  ticket : Nat
  time : Nat
  /-- nothing if the task was dropped -/
  outcome : Option TaskOutcome
deriving DecidableEq, Repr

/-- The pool. -/
structure Pool where
  /-- how many tasks may wait -/
  capacity : Nat
  slots : List Slot
  queue : List PoolTask := []
  isShut : Bool := false
  /-- tickets of tasks that are to be given up -/
  withdrawn : List Nat := []
  /-- the tasks that were begun, and when -/
  started : List (Nat × Nat) := []
  /-- what became of tasks, in order -/
  delivered : List Delivery := []
deriving Repr

/-- What can happen to a pool. -/
inductive PoolEvent where
  /-- a task is handed in -/
  | submit (task : PoolTask)
  /-- an idle slot takes the first task of the queue -/
  | take (slot : Nat)
  /-- so it does, and finds that its worker has died -/
  | takeDead (slot : Nat)
  /-- the worker of an idle slot is found dead -/
  | exit (slot : Nat)
  /-- the worker of an idle slot is killed, as it was to be -/
  | killIdle (slot : Nat)
  /-- the work on a task ends -/
  | finish (slot : Nat) (how : Ending)
  /-- a new worker is started -/
  | relaunch (slot : Nat)
  /-- a new worker fails to start -/
  | relaunchFails (slot : Nat)
  /-- after the shutdown a slot stops -/
  | stop (slot : Nat)
  /-- the worker of a slot is to be killed -/
  | kill (slot : Nat)
  /-- a task is to be given up -/
  | withdraw (ticket : Nat)
  | shutdown
deriving Repr

/-- The slot whose step it is. -/
def PoolEvent.slot? : PoolEvent → Option Nat
  | submit _ | withdraw _ | shutdown => none
  | take i | takeDead i | exit i | killIdle i | finish i _ | relaunch i | relaunchFails i | stop i
  | kill i => some i

/-- Why a pool is not started. -/
inductive PoolError where
  | noWorkers
  | noQueue
  | notSpawned (detail : String)
  | shutDown
deriving DecidableEq, Repr

namespace PoolError

def name : PoolError → String
  | noWorkers | noQueue => "InvalidConfig"
  | notSpawned _ => "SpawnFailed"
  | shutDown => "ShutDown"

def message : PoolError → String
  | noWorkers => "Invalid pool configuration: worker_count must be positive"
  | noQueue => "Invalid pool configuration: queue_capacity must be positive"
  | notSpawned detail => s!"Failed to spawn worker: {detail}"
  | shutDown => "Pool is shut down"

end PoolError

namespace Slot

/-- The old worker is gone and a new one is to be started. -/
def replace (s : Slot) (debt : Debt) (now : Nat) : Slot :=
  { s with stage := .replacing debt 0 now, alive := false }

/-- Begin with a task. -/
def run (s : Slot) (task : PoolTask) (now : Nat) : Slot :=
  { s with stage := .running task now, busy := true }

/-- A task has ended and its outcome is handed out. -/
def release (s : Slot) : Slot :=
  { s with stage := .idle, busy := false, completed := s.completed + 1 }

/-- A new worker stands. -/
def renew (s : Slot) : Slot := { s with alive := true, restarts := s.restarts + 1 }

def halt (s : Slot) : Slot := { s with stage := .stopped, alive := false, busy := false }

/-- The pause after a number of failures to start a worker, in milliseconds. -/
def pause (failures : Nat) : Nat := min (100 * Nat.pow 2 failures) 5000

end Slot

namespace Pool

/-- A pool whose workers all stand. -/
def start (workers capacity : Nat) : Except PoolError Pool :=
  if workers = 0 then .error .noWorkers
  else if capacity = 0 then .error .noQueue
  else .ok { capacity, slots := List.replicate workers {} }

def hasRoom (p : Pool) : Bool := p.queue.length < p.capacity

def isWithdrawn (p : Pool) (ticket : Nat) : Bool := p.withdrawn.contains ticket

def setSlot (p : Pool) (i : Nat) (s : Slot) : Pool := { p with slots := p.slots.set i s }

def deliver (p : Pool) (now ticket : Nat) (outcome : Option TaskOutcome) : Pool :=
  { p with delivered := p.delivered ++ [⟨ticket, now, outcome⟩] }

/-- Begin with a task, unless it is to be given up: then the slot stays as it is. -/
def dispatch (p : Pool) (now i : Nat) (s : Slot) (task : PoolTask) : Pool :=
  if p.isWithdrawn task.ticket then
    (p.setSlot i { s with stage := .idle }).deliver now task.ticket (some .cancelled)
  else
    { p.setSlot i (s.run task now) with started := p.started ++ [(task.ticket, now)] }

/-- Do what was held back until a worker stands. -/
def payDebt (p : Pool) (now i : Nat) (s : Slot) : Debt → Pool
  | .nothing => p.setSlot i { s with stage := .idle }
  | .outcome task outcome => (p.setSlot i s.release).deliver now task.ticket (some outcome)
  | .task task => p.dispatch now i s task

/-- Do what can be done without a worker when the pool has shut down. -/
def writeOff (p : Pool) (now i : Nat) (s : Slot) : Debt → Pool
  | .nothing => p.setSlot i s.halt
  | .outcome task outcome => (p.setSlot i s.release.halt).deliver now task.ticket (some outcome)
  | .task task => (p.setSlot i s.halt).deliver now task.ticket (some .cancelled)

def allStopped (p : Pool) : Bool := p.slots.all (·.stage == .stopped)

/-- When the last slot has stopped, the tasks that still wait are dropped. -/
def dropQueue (p : Pool) (now : Nat) : Pool :=
  if p.allStopped then
    { p with
      queue := []
      delivered := p.delivered ++ p.queue.map fun t => ⟨t.ticket, now, none⟩ }
  else p

/-- A task ends in a slot. -/
def finish (p : Pool) (now i : Nat) (s : Slot) (task : PoolTask) (how : Ending) : Pool :=
  let s := if how = .killed then { s with killPending := false } else s
  let outcome := how.outcome task
  if how.keepsWorker then (p.setSlot i s.release).deliver now task.ticket (some outcome)
  else p.setSlot i (s.replace (.outcome task outcome) now)

/-- May the work on a task end like this?  It never goes on beyond the time of the task. -/
def mayFinish (p : Pool) (now : Nat) (s : Slot) (task : PoolTask) (since : Nat) : Ending → Bool
  | .outOfTime => now == since + task.timeout.ticks
  | .withdrawn => now ≤ since + task.timeout.ticks && (p.isShut || p.isWithdrawn task.ticket)
  | .killed => now ≤ since + task.timeout.ticks && s.killPending
  | _ => now ≤ since + task.timeout.ticks

/-- The step of a slot. -/
def slotStep? (p : Pool) (now i : Nat) (s : Slot) : PoolEvent → Option Pool
  | .take _ =>
    match s.stage, p.queue with
    | .idle, task :: rest => some ({ p with queue := rest }.dispatch now i s task)
    | _, _ => none
  | .takeDead _ =>
    match s.stage, p.queue with
    | .idle, task :: rest =>
      some ({ p with queue := rest }.setSlot i (s.replace (.task task) now))
    | _, _ => none
  | .exit _ => if s.stage = .idle then some (p.setSlot i (s.replace .nothing now)) else none
  | .killIdle _ =>
    if s.stage = .idle ∧ s.killPending then
      some (p.setSlot i ({ s with killPending := false }.replace .nothing now))
    else none
  | .finish _ how =>
    match s.stage with
    | .running task since =>
      if p.mayFinish now s task since how then some (p.finish now i s task how) else none
    | _ => none
  | .relaunch _ =>
    match s.stage with
    | .replacing debt _ retryAt =>
      if retryAt ≤ now then some (p.payDebt now i s.renew debt) else none
    | _ => none
  | .relaunchFails _ =>
    match s.stage with
    | .replacing debt failures retryAt =>
      if retryAt ≤ now then
        let retryAt := now + Slot.pause failures
        some (p.setSlot i { s with stage := .replacing debt (failures + 1) retryAt })
      else none
    | _ => none
  | .stop _ =>
    match p.isShut, s.stage with
    | true, .idle => some ((p.setSlot i s.halt).dropQueue now)
    | true, .replacing debt _ _ => some ((p.writeOff now i s debt).dropQueue now)
    | _, _ => none
  | .kill _ => some (p.setSlot i { s with killPending := true })
  | _ => none

/-- One step at a time; nothing if the step cannot be taken. -/
def step? (p : Pool) (now : Nat) : PoolEvent → Option Pool
  | .submit task =>
    if !p.allStopped && p.hasRoom then some { p with queue := p.queue ++ [task] } else none
  | .withdraw ticket => some { p with withdrawn := ticket :: p.withdrawn }
  | .shutdown => some { p with isShut := true }
  | e => do
    let i ← e.slot?
    let s ← p.slots[i]?
    p.slotStep? now i s e

/-! ## What is known of tasks -/

/-- The signal that a task was begun. -/
def startSignal (p : Pool) (ticket : Nat) : Signal Unit :=
  match p.started.lookup ticket with
  | some t => .given t ()
  | none =>
    match p.delivered.find? (·.ticket == ticket) with
    | some d => .lost d.time
    | none => .never

/-- The signal with the outcome of a task. -/
def outcomeSignal (p : Pool) (ticket : Nat) : Signal TaskOutcome :=
  match p.delivered.find? (·.ticket == ticket) with
  | some ⟨_, time, some outcome⟩ => .given time outcome
  | some ⟨_, time, none⟩ => .lost time
  | none => .never

/-- What is told of the pool. -/
structure Status where
  workerCount : Nat
  live : Nat
  busy : Nat
  restarts : Nat
  completed : Nat
deriving DecidableEq, Repr

def status (p : Pool) : Status where
  workerCount := p.slots.length
  live := p.slots.countP (·.alive)
  busy := p.slots.countP (·.busy)
  restarts := total (p.slots.map (·.restarts))
  completed := total (p.slots.map (·.completed))

/-! ## The state of a pool as JSON -/

/-- Each slot; `pid` is the process of its worker, if that is one of its own. -/
def slotsJson (p : Pool) (pid : Nat → Option Nat := fun _ => none) : Json :=
  .ofList (fun (s, i) =>
    .obj [("slot", .ofNat i), ("pid", .ofNat? (pid i)), ("alive", .bool s.alive),
      ("busy", .bool s.busy), ("tasks_completed", .ofNat s.completed),
      ("restarts", .ofNat s.restarts)]) p.slots.zipIdx

def toJson (p : Pool) (pid : Nat → Option Nat := fun _ => none) : Json :=
  let s := p.status
  .obj [("worker_count", .ofNat s.workerCount), ("live_workers", .ofNat s.live),
    ("busy_workers", .ofNat s.busy), ("total_restarts", .ofNat s.restarts),
    ("workers", p.slotsJson pid)]

end Pool

end Pseudoscribe
