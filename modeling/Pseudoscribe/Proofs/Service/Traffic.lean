import Pseudoscribe.Service.Basic

/-!
# Requests at the same time

Several requests are in the hands of the service at the same time, those of callers who wait and those in the
background.  Each goes through the same stages: its result is looked up in the store, a run carries it out, its result
is kept, and it is answered.  Between two stages of a request anything can happen to the others.  A turn of the traffic
is one such step.  Before it the store may fail in any way, except that it makes up no results.
-/

namespace Pseudoscribe

/-- How many chunks of a result were not cut off. -/
def Assembly.doneChunks (a : Assembly) : Nat := a.chunks.countP (·.status != .cancelled)

/-- How far a request is. -/
inductive CallStage where
  /-- the key of its result is known -/
  | arrived
  /-- the store was asked -/
  | looked (found : Option Assembly)
  /-- it is in the register, and its result was in the store -/
  | entered (found : Assembly)
  /-- a run carries it out -/
  | begun (run : Nat)
  /-- the result of its run is there -/
  | ended (run : Nat) (result : Assembly)
  /-- the result was given to be kept -/
  | kept (run : Nat) (result : Assembly)

/-- A request in the hands of the service. -/
structure Call where
  /-- its caller waits for the result -/
  waits : Bool
  request : Request
  /-- the key of its result -/
  key : String
  stage : CallStage := .arrived

namespace Traffic

/-- What is written down of the traffic. -/
inductive Entry where
  /-- the result of a run was stored under a key -/
  | kept (key : String) (result : Assembly) (run : Nat)
  /-- a caller who waits was told the result -/
  | told (request : Request) (result : Assembly) (cached : Bool)
  /-- a request for the background was taken in; with its result, if that was in the store -/
  | taken (request : Request) (found : Option Assembly)
  | refused (id : RequestId) (reason : Service.NoResult)

/-- What can happen next. -/
inductive Move where
  /-- a request comes in -/
  | arrive (waits : Bool) (id : RequestId) (x : Submission)
  /-- a request goes on to its next stage -/
  | go (i : Nat)
  /-- a request is given up -/
  | giveUp (i : Nat)
  /-- a request in the background is begun with, or stopped -/
  | urge (i : Nat)
  /-- how far a request in the background is, is recorded -/
  | follow (i : Nat)
  /-- the engine takes a step that is due -/
  | act
  | moveTo (time : Nat)
  | stopRun (run : Nat)
  /-- something happens to the pool -/
  | pool (event : PoolEvent)
  /-- whatever else the service does: it changes the register and serves those who watch -/
  | others (register : Register) (publisher : Publisher) (sockets : List (String × Socket))

/-- A move, and the store as its failures leave it before. -/
structure Turn where
  store : Option ResultStore := none
  move : Move

end Traffic

/-- The service with all requests in its hands. -/
structure Traffic where
  service : Service
  calls : List Call := []
  /-- what was written down, the last first -/
  log : List Traffic.Entry := []

namespace Traffic

open Service (NoResult)

/-! ## The stages of a request -/

def write (w : Traffic) (e : Entry) : Traffic := { w with log := e :: w.log }

/-- A request is at another stage. -/
def setStage (w : Traffic) (i : Nat) (c : Call) (stage : CallStage) : Traffic :=
  { w with calls := w.calls.set i { c with stage } }

/-- A request leaves the hands of the service. -/
def drop (w : Traffic) (i : Nat) : Traffic := { w with calls := w.calls.eraseIdx i }

def arrive (w : Traffic) (waits : Bool) (id : RequestId) (x : Submission) : Traffic :=
  match w.service.prepare id x with
  | .error e => w.write (.refused id (.refused e))
  | .ok (request, key) => { w with calls := w.calls ++ [{ waits, request, key }] }

/-- The store is asked for the result of a request. -/
def look (w : Traffic) (i : Nat) (c : Call) : Traffic :=
  { w with service := (w.service.lookUp c.key c.request.id).2 }.setStage i c
    (.looked (w.service.lookUp c.key c.request.id).1)

/-- A run is begun for a caller who waits. -/
def begin (w : Traffic) (i : Nat) (c : Call) : Traffic :=
  match w.service.engine.start c.request false with
  | (.ok number, engine) => { w with service := { w.service with engine } }.setStage i c (.begun number)
  | (.error e, engine) =>
    ({ w with service := { w.service with engine } }.drop i).write (.refused c.request.id (.refused (.ofRun e)))

/-- A request for the background is put into the register. -/
def enter (w : Traffic) (i : Nat) (c : Call) (found : Option Assembly) : Traffic :=
  let id := c.request.id
  match w.service.register.insert { id, language := c.request.language.name, createdAt := w.service.now } with
  | .error e => (w.drop i).write (.refused id (.refused (.ofTracker e)))
  | .ok register =>
    match found with
    | some a =>
      { w with
        service := { w.service with register := register.setProgress id a.chunks.length a.chunks.length } }.setStage i c
        (.entered a)
    | none =>
      let errands := w.service.errands ++ [{ request := c.request, key := c.key }]
      ({ w with service := { w.service with register, errands } }.drop i).write (.taken c.request none)

/-- A request in the background ends with a result that was in the store. -/
def completeFound (w : Traffic) (i : Nat) (c : Call) (found : Assembly) : Traffic :=
  match w.service.register.complete w.service.now c.request.id found with
  | .error e => (w.drop i).write (.refused c.request.id (.refused (.ofTracker e)))
  | .ok register =>
    ({ w with service := { w.service with register } }.drop i).write (.taken c.request (some found))

/-- A result is given to be kept. -/
def keep (w : Traffic) (i : Nat) (c : Call) (run : Nat) (result : Assembly) : Traffic :=
  let w' := { w with service := w.service.keep c.key result }.setStage i c (.kept run result)
  if result.success && !result.cancelled then w'.write (.kept c.key result run) else w'

/-- A result was given to be kept, and is told. -/
def tell (w : Traffic) (i : Nat) (c : Call) (result : Assembly) : Traffic :=
  if c.waits then (w.drop i).write (.told c.request result false)
  else { w with service := w.service.record (·.complete w.service.now c.request.id result) }.drop i

/-- A request goes on to its next stage. -/
def go (w : Traffic) (i : Nat) (c : Call) : Traffic :=
  match c.stage with
  | .arrived => w.look i c
  | .looked found =>
    if c.waits then
      match found with
      | some a => (w.drop i).write (.told c.request a true)
      | none => w.begin i c
    else w.enter i c found
  | .entered found => w.completeFound i c found
  | .begun run =>
    match w.service.engine.result? run with
    | some a => w.setStage i c (.ended run a)
    | none => w
  | .ended run result => w.keep i c run result
  | .kept _ result => w.tell i c result

/-- The service without an errand. -/
def withoutErrand (s : Service) (i : Nat) : Service := { s with errands := s.errands.eraseIdx i }

/-- It is recorded how far a request in the background is; if its result is there, that is to be kept. -/
def follow (w : Traffic) (i : Nat) (e : Errand) : Traffic :=
  match e.run.bind fun run => (w.service.engine.result? run).map fun a => (run, a) with
  | none => { w with service := (withoutErrand w.service i).follow e }
  | some (run, a) =>
    { w with
      service := { withoutErrand w.service i with
        register := w.service.register.setProgress e.request.id a.doneChunks a.chunks.length }
      calls := w.calls ++ [{ waits := false, request := e.request, key := e.key, stage := .ended run a }] }

/-! ## Turns -/

def withEngine (w : Traffic) (engine : Engine) : Traffic := { w with service := { w.service with engine } }

/-- What happens in a move; one that cannot be made changes nothing. -/
def make (w : Traffic) : Move → Traffic
  | .arrive waits id x => w.arrive waits id x
  | .go i => (w.calls[i]?).elim w (w.go i)
  | .giveUp i => (w.calls[i]?).elim w fun c => (w.drop i).write (.refused c.request.id .stranded)
  | .urge i => (w.service.errands[i]?).elim w fun e => { w with service := (withoutErrand w.service i).urge e }
  | .follow i => (w.service.errands[i]?).elim w (w.follow i)
  | .act => w.withEngine (w.service.engine.act?.getD w.service.engine)
  | .moveTo time => w.withEngine (w.service.engine.moveTo time)
  | .stopRun run => w.withEngine (w.service.engine.cancel run)
  | .pool event => w.withEngine { w.service.engine with crew := w.service.engine.crew.apply event }
  | .others register publisher sockets =>
    { w with
      service := { w.service with register, sockets, engine := { w.service.engine with publisher } } }

section Make

variable (w : Traffic) (i : Nat)

theorem make_arrive (waits : Bool) (id : RequestId) (x : Submission) :
    w.make (.arrive waits id x) = w.arrive waits id x := rfl

theorem make_go : w.make (.go i) = (w.calls[i]?).elim w (w.go i) := rfl

theorem make_giveUp : w.make (.giveUp i) =
    (w.calls[i]?).elim w fun c => (w.drop i).write (.refused c.request.id .stranded) := rfl

theorem make_urge : w.make (.urge i) =
    (w.service.errands[i]?).elim w fun e => { w with service := (withoutErrand w.service i).urge e } := rfl

theorem make_follow : w.make (.follow i) = (w.service.errands[i]?).elim w (w.follow i) := rfl

end Make

/-- This result was stored under this key. -/
def hasKept (w : Traffic) (key : String) (a : Assembly) : Bool :=
  w.log.any fun
    | .kept k b _ => k == key && b == a
    | _ => false

/-- All results in a store that can be read were stored before under their keys. -/
def accountsFor (w : Traffic) (store : ResultStore) : Bool := store.entries.all fun x => x.value.all (w.hasKept x.key)

/-- The store fails: results get lost or cannot be read, old ones come back, and its counts are wrong. -/
def disturb (w : Traffic) : Option ResultStore → Traffic
  | none => w
  | some store =>
    if w.accountsFor store then
      { w with service := { w.service with store := w.service.store.map fun _ => store } }
    else w

def step (w : Traffic) (t : Turn) : Traffic := (w.disturb t.store).make t.move

/-- The traffic after some turns. -/
def run (w : Traffic) (turns : List Turn) : Traffic := turns.foldl step w

theorem run_append (w : Traffic) (turns turns' : List Turn) : w.run (turns ++ turns') = (w.run turns).run turns' :=
  List.foldl_append

end Traffic

end Pseudoscribe
