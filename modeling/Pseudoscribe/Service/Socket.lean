import Pseudoscribe.Event.Publisher
import Pseudoscribe.RequestId

/-!
# Sockets

A client can watch a request over a socket.  One side of the socket forwards the events of the request,
and once a second it looks whether the request has ended; another side reads what the client sends.  When
one of the sides ends, the channel of a request that has ended is given up.
-/

namespace Pseudoscribe

/-- What a client is sent. -/
inductive SocketFrame where
  | event (event : Event)
  /-- the answer to a ping -/
  | pong
  | close
  /-- the connection is at its end -/
  | finish
deriving DecidableEq, Repr

/-- What a client sends. -/
inductive ClientFrame where
  | text
  | ping
  | close
  /-- something that is no frame -/
  | garbage
deriving DecidableEq, Repr

def ClientFrame.ofName? : String → Option ClientFrame
  | "text" => some text
  | "ping" => some ping
  | "close" => some close
  | "garbage" => some garbage
  | _ => none

/-- A client that watches a request. -/
structure Socket where
  /-- the identifier as the client writes it, which is also the name of the channel -/
  request : String
  subscription : Subscription
  openedAt : Nat
  /-- events are forwarded -/
  forwards : Bool := true
  /-- what the client sends is read -/
  reads : Bool := true
  /-- the client has said that it leaves -/
  leaving : Bool := false
  /-- the client is gone without a word -/
  gone : Bool := false
  /-- what the client has sent and nobody has read -/
  inbox : List ClientFrame := []
  /-- what was sent to the client -/
  outbox : List SocketFrame := []
deriving Repr

namespace Socket

/-- How many milliseconds lie between two looks at the request. -/
def interval : Nat := 1000

/-- A socket for a request that nobody knows is closed at once. -/
def refusal (request : String) (now : Nat) : Socket :=
  { request, subscription := ⟨0, 0⟩, openedAt := now, forwards := false, reads := false,
    outbox := [.close] }

/-- Both sides are still at work. -/
def isWhole (s : Socket) : Bool := s.forwards && s.reads

def id? (s : Socket) : Option RequestId := RequestId.parse? s.request

/-- Nothing more is forwarded. -/
def hangUp (s : Socket) : Socket :=
  { s with forwards := false, outbox := s.outbox ++ [.close] }

/-- Take what is next from the channel; nothing if there is nothing to be taken for now. -/
def forward? (p : Publisher) (s : Socket) : Option Socket :=
  if !s.forwards then none
  else
    let (received, subscription) := p.receive s.subscription
    let s := { s with subscription }
    match received with
    | .empty => none
    | .closed => some s.hangUp
    | .lagged _ => some s
    | .value e =>
      if s.leaving || s.gone then some s.hangUp
      else some { s with outbox := s.outbox ++ [.event e] }

/-- The next time at which the request is looked at, from `now` on. -/
def lookTime (s : Socket) (now : Nat) : Nat :=
  s.openedAt + (now - s.openedAt + interval - 1) / interval * interval

/-- Look whether the request has ended, if it is time to. -/
def look (finished : Bool) (now : Nat) (s : Socket) : Socket :=
  if s.forwards && finished && s.lookTime now == now then s.hangUp else s

/-- Read the next frame of the client. -/
def read (s : Socket) : ClientFrame → Socket
  | .text => s
  | .ping => { s with outbox := s.outbox ++ [.pong] }
  | .close => { s with reads := false, leaving := true }
  | .garbage => { s with reads := false }

/-- Read all frames of the client up to one that ends the reading. -/
def readAll (s : Socket) : Socket :=
  let s' := s.inbox.foldl (fun s frame => if s.reads then s.read frame else s) s
  { s' with inbox := [], reads := s'.reads && !s.gone }

/-- Take all that can be taken from the channel. -/
def forwardFor (p : Publisher) (s : Socket) : Nat → Socket
  | 0 => s
  | fuel + 1 =>
    match s.forward? p with
    | some s => s.forwardFor p fuel
    | none => s

/-- All that is due now for a socket. -/
def serve (p : Publisher) (finished : Bool) (now : Nat) (s : Socket) : Socket × Publisher :=
  let s' := (s.readAll.forwardFor p (Channel.capacity + 2)).look finished now
  (s', if s.isWhole && !s'.isWhole && finished then p.unregister s.request else p)

/-- When something is due next for a socket whose request has ended. -/
def nextTime? (finished : Bool) (now : Nat) (s : Socket) : Option Nat :=
  if s.forwards && finished then some (s.lookTime now) else none

/-- The connection is closed. -/
def isClosed (s : Socket) : Bool := s.outbox.contains .close || s.outbox.contains .finish

/-- The frames for the client up to the one that closes the connection; behind that one there is nothing. -/
def take (s : Socket) : List SocketFrame × Socket :=
  let front := s.outbox.takeWhile (· != .close)
  if s.outbox.contains .close then (front ++ [.close], { s with outbox := [.finish] })
  else (front, { s with outbox := s.outbox.filter (· == .finish) })

end Socket

end Pseudoscribe
