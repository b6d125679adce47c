import Pseudoscribe.Json.Members
import Pseudoscribe.Number.Duration
import Pseudoscribe.Number.Total

/-!
# Metrics

Events are counted by name, with their durations and counters of their own.
-/

namespace Pseudoscribe

/-- Add to the count of a name in a list of counts. -/
def bump (name : String) (k : Nat) : List (String × Nat) → List (String × Nat)
  | [] => [(name, k)]
  | (n, c) :: rest => if n == name then (n, c + k) :: rest else (n, c) :: bump name k rest

/-- What is known of the events of one name. -/
structure EventStats where
  count : Nat := 0
  totalMs : Double := 0
  minMs : Option Double := none
  maxMs : Option Double := none
  /-- how many durations fell below each bound and above the one before -/
  buckets : List (String × Nat) := []
  counters : List (String × Nat) := []
deriving DecidableEq, Repr, Inhabited

namespace EventStats

/-- The bounds of the buckets in milliseconds, as fractions. -/
def bounds : List (Nat × Nat) :=
  [(1, 2), (1, 1), (2, 1), (5, 1), (10, 1), (20, 1), (50, 1), (100, 1), (200, 1), (500, 1), (1000, 1)]

/-- The name of the bucket of a duration: its bound, or `inf` above all bounds. -/
def bucketOf (ms : Double) : String :=
  match (bounds.map fun b => Double.ofRatio false b.1 b.2).find? (Double.le ms ·) with
  | some bound => bound.display
  | none => "inf"

/-- Events whose duration is known. -/
def timed (s : EventStats) : Nat := total (s.buckets.map (·.2))

/-- The mean duration, if one is known. -/
def meanMs? (s : EventStats) : Option Double :=
  if s.buckets.isEmpty then none else some (s.totalMs / Double.ofNat s.timed)

def counter (s : EventStats) (name : String) : Nat := (s.counters.lookup name).getD 0

/-- Count in a duration. -/
def addDuration (s : EventStats) (d : Duration) : EventStats :=
  let ms := d.seconds * Double.ofNat 1000
  { s with
    totalMs := s.totalMs + ms
    minMs := some (s.minMs.elim ms (Double.least · ms))
    maxMs := some (s.maxMs.elim ms (Double.greatest · ms))
    buckets := bump (bucketOf ms) 1 s.buckets }

/-- Count an event. -/
def add (s : EventStats) (duration : Option Duration) (counters : List (String × Nat)) : EventStats :=
  let s := { s with count := s.count + 1 }
  let s := duration.elim s s.addDuration
  { s with counters := counters.foldl (fun cs (name, k) => bump name k cs) s.counters }

def toJson (s : EventStats) : Json :=
  let counts (cs : List (String × Nat)) : Json := .obj (cs.map fun c => (c.1, .ofNat c.2))
  .obj [("count", .ofNat s.count), ("total_ms", .real s.totalMs), ("min_ms", .ofOption .real s.minMs),
    ("max_ms", .ofOption .real s.maxMs), ("buckets", counts s.buckets),
    ("counters", counts s.counters)]

end EventStats

/-- The events by name, in the order in which they first occurred. -/
structure Metrics where
  events : List (String × EventStats) := []
deriving DecidableEq, Repr, Inhabited

namespace Metrics

/-- Change what is known under a name. -/
def update (name : String) (f : EventStats → EventStats) :
    List (String × EventStats) → List (String × EventStats)
  | [] => [(name, f {})]
  | (n, s) :: rest => if n == name then (n, f s) :: rest else (n, s) :: update name f rest

/-- Count an event under its name. -/
def record (m : Metrics) (name : String) (duration : Option Duration)
    (counters : List (String × Nat)) : Metrics :=
  ⟨update name (·.add duration counters) m.events⟩

def event? (m : Metrics) (name : String) : Option EventStats := m.events.lookup name

/-- Counters are kept in words of 64 bits: has one run over? -/
def overflows (m : Metrics) : Bool :=
  m.events.any fun e => e.2.counters.any fun c => Nat.pow 2 64 ≤ c.2

def toJson (m : Metrics) : Json :=
  .obj [("events", .obj (m.events.map fun e => (e.1, e.2.toJson)))]

end Metrics

end Pseudoscribe
