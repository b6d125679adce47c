/-!
# Names of hosts in ASCII

A part of a host's name with other characters than ASCII is written with ASCII letters and digits only: its
ASCII characters, then a number for each of the others that says how far to go to the next place where
one is put in.
-/

namespace Pseudoscribe.Punycode

/-- The digits of the numbers: letters, then digits. -/
def digitChar (d : Nat) : Char :=
  if d < 26 then Char.ofNat ('a'.toNat + d) else Char.ofNat ('0'.toNat + (d - 26))

/-- The least value that a digit has when it is not the last one. -/
def threshold (k bias : Nat) : Nat :=
  if k ≤ bias then 1 else if bias + 26 ≤ k then 26 else k - bias

/-- A step of 35 for as long as the number is great. -/
def shrink (delta k : Nat) : Nat × Nat :=
  if 455 < delta then shrink (delta / 35) (k + 36) else (delta, k)
termination_by delta
decreasing_by exact Nat.div_lt_self (by omega) (by omega)

/-- The bias for the next number. -/
def adapt (delta count : Nat) (first : Bool) : Nat :=
  let delta := if first then delta / 700 else delta / 2
  let (delta, k) := shrink (delta + delta / count) 0
  k + 36 * delta / (delta + 38)

/-- The digits of a number from place `k` on. -/
def digits (bias q k : Nat) : List Char :=
  let t := threshold k bias
  if h : q < t then [digitChar q]
  else digitChar (t + (q - t) % (36 - t)) :: digits bias ((q - t) / (36 - t)) (k + 36)
termination_by q
decreasing_by
  have ht : 1 ≤ threshold k bias := by
    unfold threshold
    split
    · omega
    · split <;> omega
  exact Nat.lt_of_le_of_lt (Nat.div_le_self _ _) (by omega)

/-- How far the encoding has come. -/
structure State where
  delta : Nat := 0
  bias : Nat := 72
  /-- characters that are written -/
  handled : Nat
  out : List Char

/-- Write the places of the character with the number `n`. -/
def writePlaces (basic n : Nat) (s : State) : List Nat → State
  | [] => s
  | c :: cs =>
    if c < n then writePlaces basic n { s with delta := s.delta + 1 } cs
    else if c = n then
      writePlaces basic n
        { delta := 0
          bias := adapt s.delta (s.handled + 1) (s.handled == basic)
          handled := s.handled + 1
          out := s.out ++ digits s.bias s.delta 36 } cs
    else writePlaces basic n s cs

/-- Write the characters from the number `n` on, in the order of their numbers. -/
def writeFrom (basic : Nat) (codes : List Nat) : Nat → Nat → State → State
  | 0, _, s => s
  | steps + 1, n, s =>
    match (codes.filter (n ≤ ·)).min? with
    | none => s
    | some m =>
      let s := { s with delta := s.delta + (m - n) * (s.handled + 1) }
      let s := writePlaces basic m s codes
      writeFrom basic codes steps (m + 1) { s with delta := s.delta + 1 }

/-- A part of a name with ASCII characters only. -/
def encode (label : List Char) : List Char :=
  let basic := label.filter (·.toNat < 0x80)
  if basic.length = label.length then label
  else
    let start : State :=
      { handled := basic.length, out := if basic.isEmpty then [] else basic ++ ['-'] }
    let s := writeFrom basic.length (label.map Char.toNat) label.length 0x80 start
    "xn--".toList ++ s.out

end Pseudoscribe.Punycode
