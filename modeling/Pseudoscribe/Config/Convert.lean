import Pseudoscribe.Json.Record
import Pseudoscribe.Number.Decimal
import Pseudoscribe.Text.Trim

/-!
# Taking values as what is wanted

A tree of values may be read exactly, so that each value must be of the kind that is wanted, or
loosely: what comes from files and from the environment may be of another kind as long as it can be
understood, a number in quotation marks for instance, or `on` for a switch.
-/

namespace Pseudoscribe.Config

/-- How values are taken. -/
structure Convert where
  text : Json → Option String
  bool : Json → Option Bool
  /-- a whole number that fits in so many bits -/
  count : Nat → Json → Option Nat
  real : Json → Option Double
  /-- one of several words -/
  word : Json → Option String

/-- Values of the right kind only. -/
def Convert.exact : Convert where
  text := Json.asText?
  bool := Json.asBool?
  count := Json.asUnsigned?
  real := Json.asDouble?
  word := Json.word?

namespace Loose

/-- A number written in digits, with a sign perhaps. -/
def wholeOfText? (text : String) : Option Int :=
  let (negative, ds) := match text.toList with
    | '-' :: ds => (true, ds)
    | '+' :: ds => (false, ds)
    | ds => (false, ds)
  if ds.isEmpty || !ds.all Char.isDigit then none
  else
    let n : Int := (String.ofList ds).toNat?.getD 0
    some (if negative then -n else n)

/-- A number without its sign: digits with a point before, among or behind them, and an exponent. -/
def decimalOfText? (negative : Bool) (cs : List Char) : Option Double := do
  let whole := cs.takeWhile Char.isDigit
  let rest := cs.dropWhile Char.isDigit
  let (fraction, rest) := match rest with
    | '.' :: r => (r.takeWhile Char.isDigit, r.dropWhile Char.isDigit)
    | _ => ([], rest)
  let ds := whole ++ fraction
  if ds.isEmpty then none
  let power ← match rest with
    | [] => some 0
    | 'e' :: r | 'E' :: r => wholeOfText? (String.ofList r)
    | _ => none
  pure (Double.ofDecimal negative ((String.ofList ds).toNat?.getD 0) (power - fraction.length))

/-- A floating-point number, or one of the values that are no numbers. -/
def realOfText? (text : String) : Option Double :=
  let (negative, cs) := match text.toList with
    | '-' :: cs => (true, cs)
    | '+' :: cs => (false, cs)
    | cs => (false, cs)
  if ["inf", "infinity"].any (Text.isWord · cs) then some (.infinite negative)
  else if Text.isWord "nan" cs then some .nan
  else decimalOfText? negative cs

/-- The words that stand for a switch. -/
def switch? (text : String) : Option Bool :=
  match Text.lower text.toList with
  | "true" | "on" | "yes" => some true
  | "false" | "off" | "no" => some false
  | _ => none

/-- The nearest whole number, a half away from zero, brought into the range of a word. -/
def roundToWord : Double → Nat
  | .nan => 0
  | .infinite negative => if negative then 0 else Nat.pow 2 64 - 1
  | .finite negative m e =>
    if negative then 0
    else
      let (n, d) := Double.scaled m 1 e
      min ((2 * n + d) / (2 * d)) (Nat.pow 2 64 - 1)

def text? : Json → Option String
  | .str s => some s
  | .bool b => some (if b then "true" else "false")
  | .int i => some (toString i)
  | .real x => some x.display
  | _ => none

def bool? : Json → Option Bool
  | .bool b => some b
  | .int i => some (i != 0)
  | .real x => some (!Double.same x 0)
  | .str s => if s == "1" then some true else if s == "0" then some false else switch? s
  | _ => none

def count? (bits : Nat) (j : Json) : Option Nat := do
  let i : Int ← match j with
    | .int i => some i
    | .bool b => some (if b then 1 else 0)
    | .real x => some (roundToWord x)
    | .str s =>
      match switch? s with
      | some b => some (if b then 1 else 0)
      | none => if s.startsWith "-" then none else wholeOfText? s
    | _ => none
  (Json.int i).asUnsigned? bits

def real? : Json → Option Double
  | .real x => some x
  | .int i => some (Double.ofInt i)
  | .bool b => some (if b then 1 else 0)
  | .str s =>
    match switch? s with
    | some b => some (if b then 1 else 0)
    | none => realOfText? s
  | _ => none

def word? : Json → Option String
  | .str s => some s
  | .obj [(name, _)] => some name
  | _ => none

end Loose

/-- Values of other kinds too. -/
def Convert.loose : Convert where
  text := Loose.text?
  bool := Loose.bool?
  count := Loose.count?
  real := Loose.real?
  word := Loose.word?

end Pseudoscribe.Config
