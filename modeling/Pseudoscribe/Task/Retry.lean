import Pseudoscribe.Number.Duration

/-!
# Delays between attempts

After each failed attempt the delay doubles; after a timeout it is twice as long.  It never exceeds half
a minute.  It is worked out in words of 64 bits, where a product that is too great for a word becomes the greatest word.
-/

namespace Pseudoscribe.Retry

/-- The longest delay. -/
def maxDelay : Duration := .ofSeconds 30

/-- The greatest number of 64 bits. -/
def maxWord : UInt64 := 0xFFFFFFFFFFFFFFFF

/-- The product of two words, or the greatest word if the product is greater. -/
def saturatingMul (a b : UInt64) : UInt64 := if a.toNat * b.toNat < UInt64.size then a * b else maxWord

/-- A word of which only the given bit is set; nothing if a word has no such bit. -/
def bit? (n : UInt32) : Option UInt64 := if n < 64 then some (1 <<< n.toUInt64) else none

/-- One less, but not less than nothing. -/
def saturatingPred (n : UInt32) : UInt32 := if n = 0 then 0 else n - 1

/-- The delay after the given attempt has failed. -/
def delay (baseMs : UInt64) (attempt : UInt32) (timedOut : Bool) : Duration :=
  let base := if timedOut then saturatingMul baseMs 2 else baseMs
  let factor := (bit? (saturatingPred attempt)).getD maxWord
  min (.ofMillis (saturatingMul base factor).toNat) maxDelay

/-- The delay after the given attempt has failed, in milliseconds. -/
def delayMs (baseMs attempt : Nat) (timedOut : Bool) : Nat :=
  (delay (.ofNatClamp baseMs) (.ofNatClamp attempt) timedOut).millis

end Pseudoscribe.Retry
