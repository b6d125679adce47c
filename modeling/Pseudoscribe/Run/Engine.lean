import Pseudoscribe.Backend.Spec
import Pseudoscribe.Event.Publisher
import Pseudoscribe.Metrics
import Pseudoscribe.Number.Total
import Pseudoscribe.Pool.Crew
import Pseudoscribe.Run.Basic

/-!
# Runs and the pool together

An engine carries runs out with the workers of a crew.  At each moment it takes all steps that are due: first those
of the workers, then it hands outcomes on in the order in which they came, ends rests, and offers
attempts to the pool in the order in which they were made.  Then its clock may move on.
-/

namespace Pseudoscribe

/-- An attempt of a run: the number of the run and the index of the chunk. -/
structure AttemptKey where
  run : Nat
  chunk : Nat
deriving DecidableEq, Repr

/-- Runs that are carried out with the workers of a crew. -/
structure Engine where
  crew : Crew
  profiles : Profiles
  /-- what the backends can do that were found to be usable, by identity -/
  verified : List (String × Capabilities) := []
  publisher : Publisher := {}
  metrics : Metrics := {}
  /-- every event so far, the last one first -/
  told : List Event := []
  runs : List (Nat × Run) := []
  /-- attempts that wait for room in the pool -/
  offers : List AttemptKey := []
  /-- attempts that the pool has taken, by ticket -/
  tickets : List (Nat × AttemptKey) := []
  nextRun : Nat := 0
  nextTicket : Nat := 0
  /-- how many deliveries of the pool were handed on -/
  handedOn : Nat := 0

/-- The error with which a backend that cannot be used stops a request. -/
def RunError.ofBackend (spec : BackendSpec) (e : BackendError) : RunError :=
  match e with
  | .modelNotFound _ | .unpinnedRevision _ | .invalidManifest _ =>
    .unresolvableRevision spec.model spec.revision e.message
  | .configuration _ | .unregistered _ => .configuration e.message
  | _ => .backendUnavailable e.message

namespace Engine

def now (e : Engine) : Nat := e.crew.now

/-! ## Telling -/

/-- Tell what a run has to tell. -/
def tell (e : Engine) (id : RequestId) (note : Note) : Engine :=
  match note with
  | .event body =>
    let event : Event := ⟨id.text, body⟩
    { e with publisher := e.publisher.publish event, told := event :: e.told }
  | .figure name duration counters =>
    { e with metrics := e.metrics.record name duration counters }
  | .violated .. => e

def tellAll (e : Engine) (id : RequestId) (notes : List Note) : Engine :=
  notes.foldl (·.tell id) e

/-! ## Checking backends -/

/-- What a backend can do, if it can be used; a backend is checked until it was found usable once. -/
def preflight (e : Engine) (spec : BackendSpec) : Except RunError Capabilities × Engine :=
  match e.verified.lookup spec.identity with
  | some c => (.ok c, e)
  | none =>
    let (found, backends) := e.crew.backends.check spec
    let e := { e with crew := { e.crew with backends } }
    match found with
    | .ok c => (.ok c, { e with verified := (spec.identity, c) :: e.verified })
    | .error err => (.error (.ofBackend spec err), e)

/-- Check the backend of a kind; its description if it can be used. -/
def verify (e : Engine) (kind : BackendKind) (revision : String) :
    Except RunError BackendSpec × Engine :=
  match e.profiles.resolve kind revision with
  | .error err => (.error err, e)
  | .ok spec =>
    match e.preflight spec with
    | (.ok _, e) => (.ok spec, e)
    | (.error err, e) => (.error err, e)

/-- What is checked before any chunk is begun. -/
def clear (e : Engine) (request : Request) : Except RunError BackendSpec × Engine :=
  match e.profiles.resolve request.options.backend request.options.revision with
  | .error err => (.error err, e)
  | .ok spec =>
    match e.preflight spec with
    | (.error err, e) => (.error err, e)
    | (.ok c, e) =>
      if c.supports request.language then (.ok spec, e)
      else
        (.error (.invalidRequest
          (s!"target language '{request.language.name}' is not supported by " ++
            s!"{spec.kind.name} model {spec.model}@{spec.revision}")), e)

/-! ## Steps -/

def run? (e : Engine) (number : Nat) : Option Run := e.runs.lookup number

def setRun (e : Engine) (number : Nat) (r : Run) : Engine :=
  { e with runs := e.runs.map fun x => if x.1 = number then (number, r) else x }

/-- Offer the attempts of a run that are new. -/
def offerNew (e : Engine) (number : Nat) (r : Run) : Engine :=
  let keys := (r.onWay.filter (·.stage = .offered)).map fun c => AttemptKey.mk number c.chunk.index
  { e with offers := e.offers ++ keys.filter (!e.offers.contains ·) }

/-- Take over what a step of a run has come to. -/
def follow (e : Engine) (number : Nat) (step : Run × List Note) : Engine :=
  let (r, notes) := step
  ((e.setRun number r).tellAll r.request.id notes).offerNew number r

/-- A run takes a step; one that it cannot take changes nothing. -/
def feed (e : Engine) (number : Nat) (m : RunMove) : Engine :=
  match (e.run? number).bind (·.step? e.now m) with
  | some step => e.follow number step
  | none => e

/-- The task for an attempt. -/
def taskOf? (e : Engine) (key : AttemptKey) : Option PoolTask := do
  let r ← e.run? key.run
  let c ← r.find? key.chunk
  let timeout ← r.timeout?
  pure
    { ticket := e.nextTicket
      chunk := c.chunk
      spec := r.spec
      language := r.request.language
      attempt := c.attempt
      timeout }

/-- Offer the first attempt that waits to the pool; nothing if there is no room for it. -/
def offerFirst? (e : Engine) : Option Engine :=
  match e.offers with
  | [] => none
  | key :: rest =>
    match e.taskOf? key with
    | none => some { e with offers := rest }
    | some task =>
      if e.crew.pool.isShut then some ({ e with offers := rest }.feed key.run (.chunk key.chunk .refused))
      else
        (e.crew.submit? task).map fun crew =>
          { e with
            crew
            offers := rest
            tickets := (task.ticket, key) :: e.tickets
            nextTicket := e.nextTicket + 1 }.feed key.run (.chunk key.chunk .accepted)

/-- Hand the next outcome on to the run that waits for it. -/
def handOn? (e : Engine) : Option Engine := do
  let d ← e.crew.pool.delivered[e.handedOn]?
  let tickets := e.tickets.filter (·.1 != d.ticket)
  let e' := { e with handedOn := e.handedOn + 1, tickets }
  match e.tickets.lookup d.ticket with
  | some key => some (e'.feed key.run (.chunk key.chunk (.outcome (d.outcome.getD Collected.dropped))))
  | none => some e'

/-- The rests of a run. -/
def restsOf (r : Run) : List (Nat × Nat) :=
  r.onWay.filterMap fun c =>
    match c.stage with
    | .resting time => some (time, c.chunk.index)
    | _ => none

/-- End a rest that is over. -/
def wake? (e : Engine) : Option Engine :=
  e.runs.findSome? fun (number, r) =>
    ((restsOf r).find? (·.1 ≤ e.now)).map fun (_, chunk) => e.feed number (.chunk chunk .rested)

/-- The next step that is due. -/
def act? (e : Engine) : Option Engine :=
  match e.crew.next? with
  | some event => some { e with crew := e.crew.apply event }
  | none =>
    match e.handOn? with
    | some e => some e
    | none =>
      match e.wake? with
      | some e => some e
      | none => e.offerFirst?

/-- A bound for the attempts that runs can still make. -/
def attemptsLeft (e : Engine) : Nat :=
  total (e.runs.map fun (_, r) => (r.total + 1) * (r.options.maxAttempts + 1))

/-- More steps than can still be taken without anything from outside. -/
def stepsLeft (e : Engine) : Nat :=
  16 * (e.attemptsLeft + e.offers.length + e.crew.dueSteps + e.crew.pool.delivered.length + 1)

def settleFor (e : Engine) : Nat → Engine
  | 0 => e
  | fuel + 1 =>
    match e.act? with
    | some e => e.settleFor fuel
    | none => e

/-- Take all steps that are due. -/
def settle (e : Engine) : Engine := e.settleFor e.stepsLeft

/-- When something is due next. -/
def nextTime? (e : Engine) : Option Nat :=
  (e.crew.nextTime?.toList ++ (e.runs.flatMap fun x => (restsOf x.2).map (·.1))).min?

def moveTo (e : Engine) (time : Nat) : Engine := { e with crew := { e.crew with now := time } }

/-! ## Runs from outside -/

/-- Offer waiting attempts as long as the pool has room. -/
def offerAll (e : Engine) : Nat → Engine
  | 0 => e
  | fuel + 1 =>
    match e.offerFirst? with
    | some e => e.offerAll fuel
    | none => e

/-- Begin with a request: the number of its run, or why there is none. -/
def start (e : Engine) (request : Request) (cancelled : Bool) : Except RunError Nat × Engine :=
  match e.clear request with
  | (.error err, e) =>
    (.error err, e.tellAll request.id
      [.figure "translation.rejected" none [], .event (.failed err.message)])
  | (.ok spec, e) =>
    let number := e.nextRun
    let (r, notes) := Run.start e.now request spec cancelled
    let e := { e with runs := e.runs ++ [(number, r)], nextRun := number + 1 }
    let e := e.follow number (r, notes)
    (.ok number, e.offerAll e.offers.length)

/-- Stop a run. -/
def cancel (e : Engine) (number : Nat) : Engine :=
  let mine := (e.tickets.filter (·.2.run = number)).map (·.1)
  let e := { e with
    offers := e.offers.filter (·.run != number)
    tickets := e.tickets.filter (·.2.run != number)
    crew := mine.foldl (fun c ticket => c.apply (.withdraw ticket)) e.crew }
  e.feed number .cancel

def runFor (e : Engine) (time : Nat) : Nat → Engine
  | 0 => e.moveTo time
  | fuel + 1 =>
    let e := e.settle
    match e.nextTime? with
    | some t => if t ≤ time then (e.moveTo t).runFor time fuel else e.moveTo time
    | none => e.moveTo time

/-- Move the clock on to a time; whatever is due on the way is done. -/
def runTo (e : Engine) (time : Nat) : Engine := (e.runFor time e.stepsLeft).settle

def isDone (e : Engine) (number : Nat) : Bool :=
  (e.run? number).all fun r => r.result.isSome || r.isStranded

def awaitFor (e : Engine) (number : Nat) (limit : Option Nat) : Nat → Engine
  | 0 => e
  | fuel + 1 =>
    let e := e.settle
    if e.isDone number then e
    else
      match (e.nextTime?.toList ++ limit.toList).min? with
      | some t =>
        if limit.any (· ≤ e.now) then e else (e.moveTo t).awaitFor number limit fuel
      | none => e

/-- Go on until a run has ended, or up to a time. -/
def await (e : Engine) (number : Nat) (limit : Option Nat := none) : Engine :=
  e.awaitFor number limit e.stepsLeft

/-- Go on until a run has ended that is to stop at a time, if it has not ended by then. -/
def awaitCancelled (e : Engine) (number : Nat) (time : Nat) : Engine :=
  let e := e.await number (some time)
  if e.isDone number then e else (e.cancel number).await number

/-- Carry a request out: the number of its run, which is told to stop at the given time. -/
def carryOut (e : Engine) (request : Request) (stopAt : Option Nat) : Except RunError Nat × Engine :=
  match e.start request (stopAt == some 0) with
  | (.error err, e) => (.error err, e)
  | (.ok number, e) =>
    (.ok number, match stopAt with
      | some time => e.awaitCancelled number time
      | none => e.await number)

/-- Shut the pool down. -/
def shutDown (e : Engine) : Engine := { e with crew := (e.crew.apply .shutdown).settle }

/-- The result of a run. -/
def result? (e : Engine) (number : Nat) : Option Assembly := (e.run? number).bind (·.result)

end Engine

end Pseudoscribe
