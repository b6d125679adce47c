import Pseudoscribe.Event.Basic

/-!
# Publishing events

A channel hands every value to every receiver, in order.  It keeps the last values only; a receiver that
was away too long is told how many it has missed and goes on with the oldest value that is left.

Events go to one channel for all requests and to a channel for each request that someone has asked for.
After the event that ends a request its channel is given up; receivers can still read what it keeps.
-/

namespace Pseudoscribe

/-! ## Channels -/

/-- A channel with the values it still keeps. -/
structure Channel (α : Type) where
  /-- how many values were sent -/
  sent : Nat := 0
  /-- the last values sent, the newest last -/
  kept : List α := []
  /-- nothing more will be sent -/
  closed : Bool := false
deriving Repr

/-- What a receiver is given. -/
inductive Received (α : Type) where
  | value (a : α)
  /-- this many values are lost -/
  | lagged (missed : Nat)
  /-- nothing for now -/
  | empty
  /-- nothing for ever -/
  | closed
deriving Repr, DecidableEq

namespace Channel

variable {α : Type}

/-- How many values a channel keeps. -/
def capacity : Nat := 128

/-- Send a value. -/
def send (c : Channel α) (a : α) : Channel α :=
  let kept := c.kept ++ [a]
  { c with sent := c.sent + 1, kept := kept.drop (kept.length - capacity) }

def close (c : Channel α) : Channel α := { c with closed := true }

/-- The number of the oldest value that is kept. -/
def oldest (c : Channel α) : Nat := c.sent - c.kept.length

/-- What a receiver is given that has had the values before `next`, and where it then stands. -/
def receive (c : Channel α) (next : Nat) : Received α × Nat :=
  if next < c.oldest then (.lagged (c.oldest - next), c.oldest)
  else match c.kept[next - c.oldest]? with
    | some a => (.value a, next + 1)
    | none => (if c.closed then .closed else .empty, next)

end Channel

/-! ## Publishers -/

/-- The channels of a publisher.  A channel is known by its number in `channels`, which it keeps when it
is no longer in use; number 0 is the channel for all requests. -/
structure Publisher where
  channels : Array (Channel Event) := #[{}]
  /-- the requests with a channel in use, and its number -/
  active : List (String × Nat) := []
deriving Repr

/-- Where a receiver listens, and how far it has come. -/
structure Subscription where
  channel : Nat
  next : Nat
deriving DecidableEq, Repr

namespace Publisher

def channel (p : Publisher) (number : Nat) : Channel Event := p.channels[number]?.getD {}

/-- Listen to a channel, from now on. -/
def listen (p : Publisher) (number : Nat) : Subscription := ⟨number, (p.channel number).sent⟩

/-- Listen to all requests. -/
def subscribeAll (p : Publisher) : Subscription := p.listen 0

/-- Listen to one request, which need not have begun. -/
def subscribe (p : Publisher) (request : String) : Subscription × Publisher :=
  match p.active.lookup request with
  | some number => (p.listen number, p)
  | none =>
    let number := p.channels.size
    let p := { p with channels := p.channels.push {}, active := p.active ++ [(request, number)] }
    (p.listen number, p)

/-- Give up the channel of a request. -/
def unregister (p : Publisher) (request : String) : Publisher :=
  match p.active.lookup request with
  | none => p
  | some number =>
    { channels := p.channels.modify number Channel.close
      active := p.active.filter (·.1 != request) }

def activeChannels (p : Publisher) : Nat := p.active.length

/-- Hand out an event. -/
def publish (p : Publisher) (e : Event) : Publisher :=
  let channels := p.channels.modify 0 (·.send e)
  let channels := match p.active.lookup e.request with
    | some number => channels.modify number (·.send e)
    | none => channels
  let p := { p with channels }
  if e.isTerminal then p.unregister e.request else p

/-- The next thing that a receiver is given. -/
def receive (p : Publisher) (s : Subscription) : Received Event × Subscription :=
  let (r, next) := (p.channel s.channel).receive s.next
  (r, { s with next })

/-- The next things that a receiver is given, up to so many; the last one may be that there is nothing. -/
def receiveUpTo (p : Publisher) : Nat → Subscription → List (Received Event) × Subscription
  | 0, s => ([], s)
  | k + 1, s =>
    match p.receive s with
    | (.empty, s) => ([.empty], s)
    | (.closed, s) => ([.closed], s)
    | (r, s) =>
      let (more, s) := p.receiveUpTo k s
      (r :: more, s)

end Publisher

end Pseudoscribe
