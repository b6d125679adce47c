import Pseudoscribe.Backend.Registry
import Pseudoscribe.Pool.Basic
import Pseudoscribe.Worker.Fault

/-!
# Workers in the same process

A crew is a pool together with workers that live in the same process.  A new worker stands at once, and a worker
that breaks down takes only its own task along.  The crew keeps a clock of milliseconds: at each moment it
takes all steps that are due, in a fixed order, and the clock is moved on from outside.
-/

namespace Pseudoscribe

/-- Work under way in a slot: when it ends, and how. -/
structure Job where
  slot : Nat
  due : Nat
  how : Ending

/-- A pool with workers in the same process. -/
structure Crew where
  pool : Pool
  backends : Backends
  now : Nat := 0
  /-- idle slots, in the order in which they take tasks -/
  idle : List Nat
  /-- work under way, in the order in which it was begun -/
  jobs : List Job := []

namespace Crew

def ofPool (pool : Pool) (backends : Backends) : Crew :=
  { pool, backends, idle := List.range pool.slots.length }

/-- How work ends that was begun at a time: with its result, unless the time of the task is over before. -/
def jobOf (slot : Nat) (task : PoolTask) (since : Nat) (work : Work) : Job :=
  let limit := since + task.timeout.ticks
  match work.lasts with
  | some ms =>
    if since + ms ≤ limit then
      ⟨slot, since + ms, match work.result with
        | .ok a => .answered a
        | .error words => .broken (WorkerFault.panicked words).message⟩
    else ⟨slot, limit, .outOfTime⟩
  | none => ⟨slot, limit, .outOfTime⟩

/-- The step that a slot must take before it does anything else. -/
def urgent? (p : Pool) (s : Slot) (i : Nat) : Option PoolEvent :=
  match s.stage with
  | .replacing .. => some (if p.isShut then .stop i else .relaunch i)
  | .idle =>
    if p.isShut then some (.stop i)
    else if s.killPending then some (.killIdle i)
    else none
  | .running task _ =>
    if p.isShut || p.isWithdrawn task.ticket then some (.finish i .withdrawn)
    else if s.killPending then some (.finish i .killed)
    else none
  | .stopped => none

/-- The next step that is due: what is urgent, then work that has ended, then a task for an idle slot. -/
def next? (c : Crew) : Option PoolEvent :=
  match c.pool.slots.zipIdx.findSome? fun (s, i) => urgent? c.pool s i with
  | some e => some e
  | none =>
    match c.jobs.find? (·.due ≤ c.now) with
    | some job => some (.finish job.slot job.how)
    | none =>
      match c.pool.queue, c.idle with
      | _ :: _, i :: _ => some (.take i)
      | _, _ => none

/-- See what a slot does after a step. -/
def follow (c : Crew) (i : Nat) : Crew :=
  let c := { c with idle := c.idle.filter (· != i), jobs := c.jobs.filter (·.slot != i) }
  match (c.pool.slots[i]?).map Slot.stage with
  | some .idle => { c with idle := c.idle ++ [i] }
  | some (.running task since) =>
    let (work, backends) := c.backends.work task.spec task.chunk task.language task.timeout
    { c with backends, jobs := c.jobs ++ [jobOf i task since work] }
  | _ => c

/-- Take a step; one that cannot be taken changes nothing. -/
def apply (c : Crew) (e : PoolEvent) : Crew :=
  match c.pool.step? c.now e with
  | none => c
  | some pool =>
    let c := { c with pool }
    match e with
    | .kill _ => c
    | e => e.slot?.elim c c.follow

/-- More steps than can be due at one moment. -/
def dueSteps (c : Crew) : Nat := 4 * c.pool.queue.length + 8 * c.pool.slots.length + 8

def settleFor (c : Crew) : Nat → Crew
  | 0 => c
  | fuel + 1 =>
    match c.next? with
    | none => c
    | some e => (c.apply e).settleFor fuel

/-- Take all steps that are due. -/
def settle (c : Crew) : Crew := c.settleFor c.dueSteps

/-- When the next work ends. -/
def nextTime? (c : Crew) : Option Nat := (c.jobs.map (·.due)).min?

/-- More moments than there can be at which work ends. -/
def moments (c : Crew) : Nat := c.jobs.length + c.pool.queue.length + 1

def runFor (c : Crew) (time : Nat) : Nat → Crew
  | 0 => { c with now := time }
  | fuel + 1 =>
    let c := c.settle
    match c.nextTime? with
    | some t =>
      if t ≤ time then { c with now := t }.runFor time fuel else { c with now := time }
    | none => { c with now := time }

/-- Move the clock on to a time; whatever is due on the way is done. -/
def runTo (c : Crew) (time : Nat) : Crew := (c.runFor time c.moments).settle

/-! ## Handing in tasks and waiting for them -/

/-- Hand in a task, if the pool takes it. -/
def submit? (c : Crew) (task : PoolTask) : Option Crew :=
  if c.pool.isShut then none
  else (c.pool.step? c.now (.submit task)).map fun pool => { c with pool }

/-- What came of a task that was offered to the pool. -/
inductive Offer where
  | accepted
  | refused
  /-- there was no room for it -/
  | blocked
deriving DecidableEq, Repr

def offerFor (c : Crew) (task : PoolTask) (limit : Nat) : Nat → Offer × Crew
  | 0 => (.blocked, c)
  | fuel + 1 =>
    if c.pool.isShut then (.refused, c)
    else
      match c.submit? task with
      | some c => (.accepted, c)
      | none =>
        match c.settle.submit? task with
        | some c => (.accepted, c)
        | none =>
          match c.settle.nextTime? with
          | some t =>
            if t ≤ limit then { c.settle with now := t }.offerFor task limit fuel
            else (.blocked, { c.settle with now := limit })
          | none => (.blocked, { c.settle with now := limit })

/-- Offer a task, and wait for room for it up to a number of milliseconds. -/
def offer (c : Crew) (task : PoolTask) (patience : Nat) : Offer × Crew :=
  c.offerFor task (c.now + patience) (c.moments + 1)

/-- What a wait for a task that has begun at `since` has come to by now. -/
def collected? (c : Crew) (since : Nat) (timeout grace : Duration) (ticket : Nat) :
    Option Collected :=
  (Collected.wait? since timeout grace (c.pool.startSignal ticket)
    (c.pool.outcomeSignal ticket)).filter (·.time ≤ c.now)

/-- When such a wait is given up, if the task was begun. -/
def giveUpTime? (c : Crew) (since : Nat) (timeout grace : Duration) (ticket : Nat) : Option Nat :=
  (c.pool.startSignal ticket).time?.map fun s => max since s + (timeout + grace).ticks

def collectFor (c : Crew) (since : Nat) (timeout grace : Duration) (ticket : Nat) :
    Nat → Option Collected × Crew
  | 0 => (none, c)
  | fuel + 1 =>
    let c := c.settle
    match c.collected? since timeout grace ticket with
    | some r => (some r, if r.cancels then c.apply (.withdraw ticket) else c)
    | none =>
      match [c.nextTime?, c.giveUpTime? since timeout grace ticket].reduceOption.min? with
      | some t => { c with now := t }.collectFor since timeout grace ticket fuel
      | none => (none, c)

/-- Wait for a task; nothing comes of it if the task never ends. -/
def collect (c : Crew) (timeout grace : Duration) (ticket : Nat) : Option Collected × Crew :=
  c.collectFor c.now timeout grace ticket (c.moments + 2)

end Crew

end Pseudoscribe
