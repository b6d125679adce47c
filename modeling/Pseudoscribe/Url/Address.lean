import Pseudoscribe.Number.Total
import Pseudoscribe.Text.Trim

/-!
# Addresses of hosts

Numeric addresses in their various written forms, each of which has one form in which it is printed.
-/

namespace Pseudoscribe.Address

def hexValue? (c : Char) : Option Nat :=
  if c.isDigit then some (c.toNat - '0'.toNat)
  else if 'a' ≤ c ∧ c ≤ 'f' then some (c.toNat - 'a'.toNat + 10)
  else if 'A' ≤ c ∧ c ≤ 'F' then some (c.toNat - 'A'.toNat + 10)
  else none

/-- A number to a base; no digits are the number 0. -/
def number? (base : Nat) (cs : List Char) : Option Nat := do
  let ds ← cs.mapM hexValue?
  if ds.all (· < base) then some (ds.foldl (fun n d => n * base + d) 0) else none

/-! ## Addresses of 32 bits -/

/-- One of the numbers of an address: to the base 16 behind `0x`, to the base 8 behind `0`. -/
def part? (cs : List Char) : Option Nat :=
  match cs with
  | [] => none
  | '0' :: 'x' :: ds | '0' :: 'X' :: ds => number? 16 ds
  | '0' :: d :: ds => number? 8 (d :: ds)
  | _ => number? 10 cs

/-- The parts of a name between its points, without an empty one at the end. -/
def parts (name : List Char) : List (List Char) :=
  match (Text.splitOn '.' name).reverse with
  | [] :: last :: rest => (last :: rest).reverse
  | ps => ps.reverse

/-- A name whose last part is a number must be an address. -/
def endsInNumber (name : List Char) : Bool :=
  match (parts name).getLast? with
  | none => false
  | some [] => false
  | some last => last.all Char.isDigit || (part? last).isSome

/-- An address of one to four numbers; the last one fills up what the others leave. -/
def ofName? (name : List Char) : Option Nat := do
  let ps := parts name
  if 4 < ps.length then none
  let ns ← ps.mapM part?
  let last ← ns.getLast?
  let front := ns.dropLast
  if front.all (· < 256) ∧ last < Nat.pow 256 (5 - ns.length) then
    some (total (front.zipIdx.map fun (n, i) => n * Nat.pow 256 (3 - i)) + last)
  else none

/-- An address with points. -/
def text (address : Nat) : String :=
  String.intercalate "." ([3, 2, 1, 0].map fun i => toString (address / Nat.pow 256 i % 256))

/-! ## Addresses of 128 bits -/

/-- The pieces of an address, and where a run of zeros was left out. -/
structure Pieces where
  read : List Nat := []
  gap : Option Nat := none

/-- Four numbers with points at the end of an address. -/
def tail? (cs : List Char) : Option (List Nat) := do
  let ps := Text.splitOn '.' cs
  let ns ← ps.mapM fun p =>
    if p.isEmpty || (p.length != 1 && p.head? == some '0') then none else number? 10 p
  match ns with
  | [a, b, c, d] =>
    if ns.all (· < 256) then some [a * 256 + b, c * 256 + d] else none
  | _ => none

/-- The pieces from the beginning of one of them. -/
def pieces? : Nat → Pieces → List Char → Option Pieces
  | 0, _, _ => none
  | fuel + 1, p, cs =>
    if 8 ≤ p.read.length then none
    else
      match cs with
      | ':' :: rest =>
        if p.gap.isSome then none
        else
          let p := { p with gap := some p.read.length }
          if rest.isEmpty then some p else pieces? fuel p rest
      | _ =>
        let ds := (cs.take 4).takeWhile fun c => (hexValue? c).isSome
        let rest := cs.drop ds.length
        match rest with
        | '.' :: _ => if ds.isEmpty then none else (tail? cs).map fun t => { p with read := p.read ++ t }
        | _ =>
          match number? 16 ds with
          | none => none
          | some n =>
            let p := { p with read := p.read ++ [n] }
            match rest with
            | [] => if ds.isEmpty then none else some p
            | ':' :: [] => none
            | ':' :: rest => if ds.isEmpty then none else pieces? fuel p rest
            | _ => none

/-- The eight numbers of an address. -/
def groups? (cs : List Char) : Option (List Nat) := do
  let cs ← match cs with
    | ':' :: ':' :: _ => some (cs.drop 1)
    | ':' :: _ => none
    | _ => some cs
  let p ← pieces? (cs.length + 1) {} cs
  match p.gap with
  | none => if p.read.length = 8 then some p.read else none
  | some gap =>
    if p.read.length ≤ 8 then
      some (p.read.take gap ++ List.replicate (8 - p.read.length) 0 ++ p.read.drop gap)
    else none

def hex (n : Nat) : String := String.ofList (Nat.toDigits 16 n)

/-- The lengths of the runs of zeros that begin at each place. -/
def zeroRuns : List Nat → List Nat
  | [] => []
  | n :: ns =>
    let rest := zeroRuns ns
    (if n = 0 then rest.headD 0 + 1 else 0) :: rest

/-- An address with the longest run of zeros left out, the first of several, if it is a run at all. -/
def groupsText (ns : List Nat) : String :=
  let runs := zeroRuns ns
  let longest := runs.foldl max 0
  let join (ns : List Nat) : String := String.intercalate ":" (ns.map hex)
  if longest < 2 then join ns
  else
    let at_ := runs.findIdx (· == longest)
    join (ns.take at_) ++ "::" ++ join (ns.drop (at_ + longest))

end Pseudoscribe.Address
