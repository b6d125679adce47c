import Pseudoscribe.Number.Double

/-!
# Numbers in decimal

Three ways of writing a floating-point number: with a fixed number of places, with the fewest digits
that read back as the same number, and (for data files) the latter with an exponent for very great and
very small numbers.  And one way of reading it: digits and a power of ten.
-/

namespace Pseudoscribe.Double

/-- The decimal digits of a whole number, at least `width` of them. -/
def paddedDigits (width n : Nat) : String :=
  let ds := Nat.toDigits 10 n
  String.ofList (List.replicate (width - ds.length) '0' ++ ds)

/-- `n / 10 ^ places` in positional notation. -/
def positional (n places : Nat) : String :=
  if places = 0 then toString n
  else toString (n / Nat.pow 10 places) ++ "." ++ paddedDigits places (n % Nat.pow 10 places)

/-- The sign as it is written: also before a zero. -/
def signText (x : Double) : String := if x.isNegative then "-" else ""

/-- A number with a fixed number of places, a half going to the even neighbour. -/
def fixed (places : Nat) (x : Double) : String :=
  match x with
  | nan => "NaN"
  | infinite _ => x.signText ++ "inf"
  | finite .. =>
    let (n, d) := x.ratio
    x.signText ++ positional (roundedQuotient (n * Nat.pow 10 places) d) places

/-- The bounds of the numbers that round to `m * 2 ^ e`, in units of a quarter of `2 ^ e`; the bounds
themselves round to it when `m` is even. -/
def roundingBounds (m : Nat) (e : Int) : Nat × Nat :=
  (if m = Nat.pow 2 52 ∧ -1074 < e then 4 * m - 1 else 4 * m - 2, 4 * m + 2)

/-- `quarters * 2 ^ e / 4` against `n * 10 ^ k`: the first fraction is the smaller one, or equal. -/
def compareScaled (quarters : Nat) (e : Int) (n : Nat) (k : Int) : Ordering :=
  let (a, b) := scaled quarters 4 e
  let (c, d) := if 0 ≤ k then (n * Nat.pow 10 k.toNat, 1) else (n, Nat.pow 10 (-k).toNat)
  compare (a * d) (c * b)

/-- Does `n * 10 ^ k` round to `m * 2 ^ e`? -/
def readsBack (m : Nat) (e : Int) (n : Nat) (k : Int) : Bool :=
  let (lo, hi) := roundingBounds m e
  let even := m % 2 == 0
  (match compareScaled lo e n k with
    | .lt => true
    | .eq => even
    | .gt => false) &&
  (match compareScaled hi e n k with
    | .gt => true
    | .eq => even
    | .lt => false)

/-- The multiples of `10 ^ k` next to `m * 2 ^ e`, below and above. -/
def gridNeighbours (m : Nat) (e : Int) (k : Int) : Nat × Nat :=
  let (a, b) := scaled m 1 e
  let q := if 0 ≤ k then a / (b * Nat.pow 10 k.toNat) else a * Nat.pow 10 (-k).toNat / b
  (q, q + 1)

/-- Of two grid points that both read back, the nearer one to `m * 2 ^ e`; the lower of two equally
near. -/
def nearer (m : Nat) (e : Int) (lo hi : Nat) (k : Int) : Nat :=
  match compareScaled (8 * m) e (lo + hi) k with
  | .gt => hi
  | .eq => if lo % 2 = 0 then lo else hi
  | .lt => lo

/-- Look for a point that reads back on ever finer grids `10 ^ k, 10 ^ (k - 1), …`. -/
def shortestFrom (m : Nat) (e : Int) : Nat → Int → Nat × Int
  | 0, k => ((gridNeighbours m e k).1, k)
  | steps + 1, k =>
    let (lo, hi) := gridNeighbours m e k
    match readsBack m e lo k && lo != 0, readsBack m e hi k with
    | true, true => (nearer m e lo hi k, k)
    | true, false => (lo, k)
    | false, true => (hi, k)
    | false, false => shortestFrom m e steps (k - 1)

/-- An upper bound of the decimal exponent of `m * 2 ^ e`. -/
def topExponent (m : Nat) (e : Int) : Int :=
  let (a, b) := scaled m 1 e
  ((Nat.toDigits 10 a).length : Int) - (Nat.toDigits 10 b).length + 1

/-- The fewest digits that read back, and the power of ten they stand at. -/
def shortest (m : Nat) (e : Int) : Nat × Int :=
  if m = 0 then (0, 0) else shortestFrom m e 25 (topExponent m e)

/-- A number with the fewest digits that read back, in positional notation: `0.1`, `1`, `-0`. -/
def display (x : Double) : String :=
  match x with
  | nan => "NaN"
  | infinite _ => x.signText ++ "inf"
  | finite _ m e =>
    let (n, k) := shortest m e
    x.signText ++ (if 0 ≤ k then toString (n * Nat.pow 10 k.toNat) else positional n (-k).toNat)

/-- A number as data files have it: with a point, or with an exponent when it is very great or very
small. -/
def dataText (x : Double) : String :=
  match x with
  | nan | infinite _ => "null"
  | finite _ m e =>
    let (n, k) := shortest m e
    let ds := Nat.toDigits 10 n
    let point : Int := ds.length + k
    if -5 < point ∧ point ≤ 16 then
      x.signText ++
        (if 0 ≤ k then toString (n * Nat.pow 10 k.toNat) ++ ".0" else positional n (-k).toNat)
    else
      let tail := ds.drop 1
      x.signText ++ String.ofList (ds.take 1) ++
        (if tail.isEmpty then "" else "." ++ String.ofList tail) ++ "e" ++ toString (point - 1)

/-- The number nearest to `± digits * 10 ^ exponent`.  Beyond `10 ^ 400` and below `10 ^ -400` it is not
worked out: there it is known to be infinite or zero. -/
def ofDecimal (negative : Bool) (digits : Nat) (exponent : Int) : Double :=
  let point : Int := (Nat.toDigits 10 digits).length + exponent
  if digits = 0 ∨ point < -400 then finite negative 0 (-1074)
  else if 400 < point then infinite negative
  else if 0 ≤ exponent then ofRatio negative (digits * Nat.pow 10 exponent.toNat) 1
  else ofRatio negative digits (Nat.pow 10 (-exponent).toNat)

/-- `digits * 10 ^ exponent` taken in steps, each of them rounded: the digits become a number, which
is multiplied by or divided by a power of ten.  `none` when the number is too great. -/
def ofDecimalSteps? (negative : Bool) (digits : Nat) (exponent : Int) : Option Double :=
  let f := ofNat digits
  let signed (x : Double) := if negative then -x else x
  if 0 ≤ exponent then
    if digits = 0 then some (signed f)
    else if 308 < exponent then none
    else
      let x := f * ofNat (Nat.pow 10 exponent.toNat)
      if x.isFinite then some (signed x) else none
  else if digits = 0 then some (signed f)
  else
    let down := (-exponent).toNat
    let x := (List.replicate (min (down / 308) 3) (ofNat (Nat.pow 10 308))).foldl (· / ·) f
    some (signed (if 3 < down / 308 then ofRatio false 0 1 else x / ofNat (Nat.pow 10 (down % 308))))

end Pseudoscribe.Double
