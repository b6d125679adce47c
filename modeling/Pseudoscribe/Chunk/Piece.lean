import Pseudoscribe.Chunk.Basic
import Pseudoscribe.Number.Total

/-!
# Cutting a range of lines into pieces

A range that is too long for one chunk is cut at lines after which cutting is safe.  A piece takes
lines as long as they fit.  It is then cut where a preferred line ends, if that leaves it at least half
full, else at the last safe line; when there is none it grows to the first safe line beyond the limit.
-/

namespace Pseudoscribe

/-- A line of the source text and what cutting has to know about it. -/
structure Row where
  /-- number of the line, from 1 -/
  number : Nat
  /-- the line with the newline that ends it -/
  text : List Char
  /-- the text may be cut after this line -/
  safe : Bool
deriving DecidableEq, Repr

namespace Row

def length (r : Row) : Nat := r.text.length

/-- The text of consecutive lines. -/
def join (rows : List Row) : List Char := (rows.map Row.text).flatten

/-- Length of consecutive lines in characters. -/
def total (rows : List Row) : Nat := Pseudoscribe.total (rows.map Row.length)

end Row

/-- What is worth saying about the way a text was cut. -/
inductive CutWarning where
  /-- no safe line was found up to the limit -/
  | noSafePoint (first last : Nat)
  /-- one line alone is longer than the limit -/
  | longLine (line length max : Nat)
deriving DecidableEq, Repr

namespace CutWarning

def message : CutWarning → String
  | noSafePoint first last =>
    s!"lines {first}-{last} exceed max_chunk_size: no safe split point inside"
  | longLine line length max =>
    s!"line {line} is longer than max_chunk_size ({length} > {max}) and forms its own chunk"

end CutWarning

/-- The places found so far at which a piece may end, as numbers of lines taken. -/
structure CutPoints where
  /-- the last preferred line, and the length of the piece that ends there -/
  preferred : Option (Nat × Nat) := none
  /-- the last safe line -/
  safe : Option Nat := none
deriving DecidableEq, Repr

namespace CutPoints

/-- Where to cut when the next line does not fit. -/
def choose (p : CutPoints) (max : Nat) : Option Nat :=
  match p.preferred, p.safe with
  | some (count, size), safe => if max ≤ size * 2 then some count else safe.or (some count)
  | none, safe => safe

/-- A line after `count - 1` others fits; the piece is then `size` long. -/
def extend (p : CutPoints) (row : Row) (isPreferred : Bool) (count size : Nat) : CutPoints :=
  if row.safe then
    { safe := some count
      preferred := if isPreferred then some (count, size) else p.preferred }
  else p

end CutPoints

namespace Piece

/-- How many of these lines a piece takes beyond the limit: up to the first safe one. -/
def forcedCount : List Row → Nat
  | [] => 0
  | [_] => 1
  | row :: rest => if row.safe then 1 else forcedCount rest + 1

/-- How many lines the piece takes, and whether it had to go beyond the limit; `count` lines of total
length `size` were taken already. -/
def countFrom (max : Nat) (preferred : List Nat) (points : CutPoints) (count size : Nat) :
    List Row → Nat × Bool
  | [] => (count, false)
  | row :: rest =>
    let size' := size + row.length
    if max < size' ∧ 0 < count then
      match points.choose max with
      | some cut => (cut, false)
      | none => (count + forcedCount (row :: rest), true)
    else
      countFrom max preferred
        (points.extend row (preferred.contains row.number) (count + 1) size')
        (count + 1) size' rest

/-- How many of these lines the first piece takes, at least one. -/
def count (max : Nat) (preferred : List Nat) (rows : List Row) : Nat × Bool :=
  let c := countFrom max preferred {} 0 0 rows
  (c.1.max 1, c.2)

theorem count_pos (max : Nat) (preferred : List Nat) (rows : List Row) :
    0 < (count max preferred rows).1 :=
  Nat.lt_of_lt_of_le Nat.one_pos (Nat.le_max_right _ _)

/-- What is worth saying about a piece. -/
def warnings (max : Nat) (forced : Bool) (piece : List Row) : List CutWarning :=
  match piece with
  | [] => []
  | first :: rest =>
    let last := (rest.getLast?.getD first).number
    (if forced then [.noSafePoint first.number last] else []) ++
      (if rest.isEmpty && max < first.length then [.longLine first.number first.length max] else [])

/-- Cut lines into pieces, with what is worth saying about each. -/
def split (max : Nat) (preferred : List Nat) (rows : List Row) :
    List (List Row × List CutWarning) :=
  match rows with
  | [] => []
  | row :: rest =>
    let c := count max preferred (row :: rest)
    let piece := (row :: rest).take c.1
    (piece, warnings max c.2 piece) :: split max preferred ((row :: rest).drop c.1)
termination_by rows.length
decreasing_by
  have := count_pos max preferred (row :: rest)
  simp only [List.length_drop, List.length_cons]
  omega

end Piece

end Pseudoscribe
