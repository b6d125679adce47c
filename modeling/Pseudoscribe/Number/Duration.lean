import Pseudoscribe.Number.Decimal

/-!
# Lengths of time

A length of time is a whole number of nanoseconds.
-/

namespace Pseudoscribe

/-- A length of time in nanoseconds. -/
structure Duration where
  nanos : Nat
deriving DecidableEq, Repr, Inhabited

namespace Duration

def nanosPerMilli : Nat := 1000000

def nanosPerSecond : Nat := 1000000000

def ofMillis (ms : Nat) : Duration := ⟨ms * nanosPerMilli⟩

def ofMicros (us : Nat) : Duration := ⟨us * 1000⟩

def ofSeconds (s : Nat) : Duration := ⟨s * nanosPerSecond⟩

/-- Whole milliseconds, rounded down. -/
def millis (d : Duration) : Nat := d.nanos / nanosPerMilli

/-- Whole milliseconds in a word of 64 bits: of a number that is too great its lowest 64 bits. -/
def millisWord (d : Duration) : UInt64 := .ofNat d.millis

/-- Whole microseconds, rounded down. -/
def micros (d : Duration) : Nat := d.nanos / 1000

/-- Milliseconds, rounded up: the first tick of a clock of milliseconds that is not too early. -/
def ticks (d : Duration) : Nat := (d.nanos + (nanosPerMilli - 1)) / nanosPerMilli

/-- Whole seconds that a length of time can have at most. -/
def maxSeconds : Nat := Nat.pow 2 64

/-- The nanosecond nearest to a number of seconds; nothing for a negative number, for what is no number
and for `2 ^ 64` seconds or more. -/
def ofSeconds? (seconds : Double) : Option Duration :=
  match seconds with
  | .finite negative m _ =>
    if negative && m != 0 then none
    else
      let (n, d) := seconds.ratio
      if maxSeconds * d ≤ n then none else some ⟨Double.roundedQuotient (n * nanosPerSecond) d⟩
  | _ => none

/-- Seconds as a floating-point number: the whole seconds and the fraction, each rounded. -/
def seconds (d : Duration) : Double :=
  Double.ofNat (d.nanos / nanosPerSecond) +
    Double.ofNat (d.nanos % nanosPerSecond) / Double.ofNat nanosPerSecond

/-- Seconds with one decimal place, as in `1.5s`. -/
def text (d : Duration) : String := d.seconds.fixed 1 ++ "s"

instance : Add Duration := ⟨fun a b => ⟨a.nanos + b.nanos⟩⟩

instance : Min Duration := ⟨fun a b => ⟨min a.nanos b.nanos⟩⟩

end Duration

end Pseudoscribe
