import Pseudoscribe.Number.Double

/-!
# JSON values

A value as it was read: members keep their order, and a name that occurs twice is kept twice, so that
the reader of a record can refuse it.  Numbers written as whole numbers of 64 bits are kept apart
from the others, because a count may be written `3` and may not be written `3.0`.
-/

namespace Pseudoscribe

inductive Json where
  | null
  | bool (value : Bool)
  | int (value : Int)
  | real (value : Double)
  | str (value : String)
  | arr (items : List Json)
  | obj (members : List (String × Json))
deriving Repr, Inhabited

namespace Json

def ofNat (n : Nat) : Json := int n

/-- A text, or null. -/
def ofText? : Option String → Json
  | some s => str s
  | none => null

/-- A number, or null. -/
def ofNat? : Option Nat → Json
  | some n => ofNat n
  | none => null

def texts (ss : List String) : Json := arr (ss.map str)

def isNull : Json → Bool
  | null => true
  | _ => false

/-- The member of this name; of several, the last one. -/
def member? (name : String) : Json → Option Json
  | obj ms => (ms.reverse.find? (·.1 == name)).map (·.2)
  | _ => none

/-- The member of this name, or null. -/
def get (j : Json) (name : String) : Json := (j.member? name).getD null

def asText? : Json → Option String
  | str s => some s
  | _ => none

def asBool? : Json → Option Bool
  | bool b => some b
  | _ => none

def asInt? : Json → Option Int
  | int i => some i
  | _ => none

/-- A whole number that is not negative and fits in the given number of bits. -/
def asUnsigned? (bits : Nat) : Json → Option Nat
  | int i => if 0 ≤ i ∧ i.toNat < Nat.pow 2 bits then some i.toNat else none
  | _ => none

def asNat? (j : Json) : Option Nat := j.asUnsigned? 64

/-- Any number. -/
def asDouble? : Json → Option Double
  | int i => some (Double.ofInt i)
  | real x => some x
  | _ => none

def asItems? : Json → Option (List Json)
  | arr xs => some xs
  | _ => none

def asMembers? : Json → Option (List (String × Json))
  | obj ms => some ms
  | _ => none

/-- Null, or a value that the reader accepts. -/
def optional? {α : Type} (read : Json → Option α) : Json → Option (Option α)
  | null => some none
  | j => (read j).map some

/-- A list of values that the reader accepts. -/
def listOf? {α : Type} (read : Json → Option α) (j : Json) : Option (List α) :=
  j.asItems?.bind (·.mapM read)

end Json

end Pseudoscribe
