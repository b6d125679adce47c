import Pseudoscribe.Cache.Store
import Pseudoscribe.Run.Engine
import Pseudoscribe.Service.Socket
import Pseudoscribe.Tracker.Register

/-!
# The service

The service takes requests in, carries them out with its engine and keeps the results that are whole.  A
request is carried out while its caller waits, or in the background, where the register tells how far it is.  Work in the
background goes on whenever the clock may move.
-/

namespace Pseudoscribe

/-- What a caller asks for. -/
structure Submission where
  source : String
  /-- the language; the language of the service if there is none or a blank one -/
  language : Option String
  options : Options

/-- A request in the background. -/
structure Errand where
  request : Request
  /-- the key of its result -/
  key : String
  /-- the number of its run, once it has begun -/
  run : Option Nat := none
  /-- its run was told to stop -/
  stopped : Bool := false

structure Service where
  engine : Engine
  register : Register := {}
  /-- the results that are kept, if any are -/
  store : Option ResultStore := none
  /-- the language of requests that name none -/
  language : String := "python"
  /-- the options of requests, as far as they do not give their own -/
  options : Options := {}
  errands : List Errand := []
  /-- the clients that watch a request, by their names -/
  sockets : List (String × Socket) := []

namespace Service

/-- The time in nanoseconds. -/
def now (s : Service) : Int := s.engine.now * 1000000

/-! ## Keeping results -/

/-- The key of the result of a request. -/
def keyOf (s : Service) (r : Request) : Except RunError String :=
  (s.engine.profiles.resolve r.options.backend r.options.revision).map fun spec =>
    CacheQuery.key
      { source := r.source
        language := r.language.name
        backend := spec.kind.name
        model := spec.model
        revision := spec.revision
        maxChunkSize := r.options.maxChunkSize
        overlapLines := r.options.overlapLines }

/-- The result that is kept under a key, for a new request.  A result that cannot be read counts as
missing. -/
def lookUp (s : Service) (key : String) (id : RequestId) : Option Assembly × Service :=
  match s.store with
  | none => (none, s)
  | some store =>
    let (found, store) := store.retrieve key
    (found.toOption.join.map ({ · with id }), { s with store := some store })

/-- Keep a result if it is whole. -/
def keep (s : Service) (key : String) (result : Assembly) : Service :=
  if result.success && !result.cancelled then
    { s with store := s.store.map (·.save key result) }
  else s

/-! ## Work in the background -/

/-- Change the register; a step that it refuses changes nothing. -/
def record (s : Service) (step : Register → Except TrackerError Register) : Service :=
  match step s.register with
  | .ok register => { s with register }
  | .error _ => s

/-- Was a request asked to stop? -/
def isCancelled (s : Service) (id : RequestId) : Bool := (s.register.find? id).any (·.cancelled)

/-- Has the request of an identifier ended?  One that is not known has. -/
def isFinished (s : Service) (id : Option RequestId) : Bool :=
  (id.bind s.register.find?).all (·.state.isFinished)

/-- Begin with a request in the background, or pass on that it is to stop. -/
def urge (s : Service) (e : Errand) : Service :=
  let id := e.request.id
  match e.run with
  | none =>
    let s := s.record (·.setState s.now id .running)
    match s.engine.start e.request (s.isCancelled id) with
    | (.ok number, engine) =>
      let e := { e with run := some number, stopped := s.isCancelled id }
      { s with engine, errands := s.errands ++ [e] }
    | (.error err, engine) => { s with engine }.record (·.fail s.now id err.message)
  | some number =>
    if s.isCancelled id && !e.stopped then
      { s with engine := s.engine.cancel number, errands := s.errands ++ [{ e with stopped := true }] }
    else { s with errands := s.errands ++ [e] }

/-- Record how far a request is, and its result when there is one. -/
def follow (s : Service) (e : Errand) : Service :=
  let id := e.request.id
  match e.run.bind s.engine.run? with
  | none => { s with errands := s.errands ++ [e] }
  | some r =>
    match r.result with
    | some a =>
      let total := a.chunks.length
      let done := a.chunks.countP (·.status != .cancelled)
      (({ s with register := s.register.setProgress id done total }).keep e.key a).record
        (·.complete s.now id a)
    | none =>
      if r.isStranded then
        s.record (·.fail s.now id (RunError.internal "the request was given up").message)
      else
        { s with
          register := s.register.setProgress id r.completed r.total
          errands := s.errands ++ [e] }

/-- Serve the socket of a client. -/
def attend (s : Service) (client : String × Socket) : Service :=
  let (socket, publisher) :=
    client.2.serve s.engine.publisher (s.isFinished client.2.id?) s.engine.now
  { s with
    engine := { s.engine with publisher }
    sockets := if socket.gone then s.sockets else s.sockets ++ [(client.1, socket)] }

/-- Take all steps that are due. -/
def settle (s : Service) : Service :=
  let s := s.errands.foldl urge { s with errands := [] }
  let s := { s with engine := s.engine.settle }
  let s := s.errands.foldl follow { s with errands := [] }
  s.sockets.foldl attend { s with sockets := [] }

/-- When something is due next. -/
def nextTime? (s : Service) : Option Nat :=
  (s.engine.nextTime?.toList ++ s.sockets.filterMap fun (_, x) =>
    x.nextTime? (s.isFinished x.id?) s.engine.now).min?

def moveTo (s : Service) (time : Nat) : Service := { s with engine := s.engine.moveTo time }

/-- Go on until `stop` holds or a time is reached, moment by moment. -/
def runFor (s : Service) (stop : Service → Bool) (limit : Option Nat) : Nat → Service
  | 0 => s
  | fuel + 1 =>
    let s := s.settle
    if stop s || limit.any (· ≤ s.engine.now) then s
    else
      match (s.nextTime?.toList ++ limit.toList).min? with
      | some time => (s.moveTo time).runFor stop limit fuel
      | none => s

/-- Go on until `stop` holds or a time is reached. -/
def runUntil (s : Service) (stop : Service → Bool) (limit : Option Nat) : Service :=
  let s := s.settle
  s.runFor stop limit (s.engine.stepsLeft + s.sockets.length + 2)

/-- Let a number of milliseconds pass. -/
def sleep (s : Service) (ms : Nat) : Service :=
  s.runUntil (fun _ => false) (some (s.engine.now + ms))

/-- Shut the pool down and let what is under way end. -/
def shutDown (s : Service) : Service :=
  { s with engine := { s.engine with crew := s.engine.crew.apply .shutdown } }.settle

/-! ## Requests -/

/-- Check what a caller asks for: the request, and the key of its result. -/
def prepare (s : Service) (id : RequestId) (x : Submission) : Except ServiceError (Request × String) :=
  let language := (x.language.filter fun l => !Text.isBlank l.toList).getD s.language
  let prepared := do
    let request ← Request.make id x.source language x.options
    pure (request, ← s.keyOf request)
  prepared.mapError .ofRun

/-- Why there is no result. -/
inductive NoResult where
  | refused (error : ServiceError)
  /-- the time that an attempt may take is no length of time -/
  | stranded

/-- Carry a request out while its caller waits: the result, and whether it was one that is kept. -/
def convert (s : Service) (id : RequestId) (x : Submission) :
    Except NoResult (Assembly × Bool) × Service :=
  match s.prepare id x with
  | .error e => (.error (.refused e), s)
  | .ok (request, key) =>
    match s.lookUp key id with
    | (some a, s) => (.ok (a, true), s)
    | (none, s) =>
      match s.engine.start request false with
      | (.error e, engine) => (.error (.refused (.ofRun e)), { s with engine })
      | (.ok number, engine) =>
        let s := { s with engine }.runUntil (fun s => s.engine.isDone number) none
        match s.engine.result? number with
        | some a => (.ok (a, false), s.keep key a)
        | none => (.error .stranded, s)

/-- Take a request in for the background; is there a result already? -/
def submit (s : Service) (id : RequestId) (x : Submission) : Except ServiceError Bool × Service :=
  match s.prepare id x with
  | .error e => (.error e, s)
  | .ok (request, key) =>
    let tracked : TrackedRequest := { id, language := request.language.name, createdAt := s.now }
    let (kept, s) := s.lookUp key id
    match s.register.insert tracked with
    | .error e => (.error (.ofTracker e), s)
    | .ok register =>
      match kept with
      | some a =>
        let total := a.chunks.length
        let s := { s with register := register.setProgress id total total }
        (.ok true, s.record (·.complete s.now id a))
      | none => (.ok false, { s with register, errands := s.errands ++ [{ request, key }] })

/-! ## Clients that watch -/

/-- Open a socket for a client. -/
def watch (s : Service) (client request : String) : Service :=
  let s := s.settle
  let others := s.sockets.filter (·.1 != client)
  if ((RequestId.parse? request).bind s.register.find?).isSome then
    let (subscription, publisher) := s.engine.publisher.subscribe request
    let socket : Socket := { request, subscription, openedAt := s.engine.now }
    { s with engine := { s.engine with publisher }, sockets := others ++ [(client, socket)] }.settle
  else { s with sockets := others ++ [(client, Socket.refusal request s.engine.now)] }

def socket? (s : Service) (client : String) : Option Socket := s.sockets.lookup client

def setSocket (s : Service) (client : String) (f : Socket → Socket) : Service :=
  { s with sockets := s.sockets.map fun x => if x.1 == client then (client, f x.2) else x }

/-- A client sends a frame. -/
def hear (s : Service) (client : String) (frame : ClientFrame) : Service :=
  s.setSocket client fun x => { x with inbox := x.inbox ++ [frame] }

/-- A client goes without a word; was it there? -/
def lose (s : Service) (client : String) : Bool × Service :=
  ((s.socket? client).any (!·.gone), s.setSocket client ({ · with gone := true }))

/-- The frames that a client is sent within a number of milliseconds, up to the end of the connection. -/
def frames (s : Service) (client : String) (ms : Nat) : List SocketFrame × Service :=
  let closed (s : Service) : Bool := (s.socket? client).all (·.isClosed)
  let s := s.runUntil closed (some (s.engine.now + ms))
  match s.socket? client with
  | none => ([.finish], s)
  | some x =>
    let (out, x) := x.take
    (out, s.setSocket client fun _ => x)

end Service

end Pseudoscribe
