/-!
# Binary floating point

A number as it is kept in 64 bits: a sign, a whole number below `2 ^ 53` and a power of two, or one of
the three values that are no numbers.  Every operation is the exact operation on fractions, followed by
one rounding to the nearest number of this kind; of two that are equally near, the one whose whole number
is even is taken.
-/

namespace Pseudoscribe

/-- A 64-bit floating-point number. -/
inductive Double where
  | nan
  | infinite (negative : Bool)
  /-- `± mantissa * 2 ^ exponent` -/
  | finite (negative : Bool) (mantissa : Nat) (exponent : Int)
deriving DecidableEq, Repr, Inhabited

namespace Double

/-- The quotient of two whole numbers to the nearest whole number, a half to the even neighbour. -/
def roundedQuotient (num den : Nat) : Nat :=
  let q := num / den
  let twice := 2 * (num % den)
  if twice < den then q
  else if den < twice then q + 1
  else q + q % 2

/-- `num / den * 2 ^ exponent` as a fraction of two whole numbers. -/
def scaled (num den : Nat) (exponent : Int) : Nat × Nat :=
  if 0 ≤ exponent then (num * Nat.pow 2 exponent.toNat, den) else (num, den * Nat.pow 2 (-exponent).toNat)

/-- The exponent of the greatest power of two that is at most `num / den`. -/
def floorLog2 (num den : Nat) : Int :=
  let k : Int := (num.log2 : Int) - den.log2
  let (n, d) := scaled num den (-k)
  if d ≤ n then k else k - 1

/-- The number nearest to `± num / den`. -/
def ofRatio (negative : Bool) (num den : Nat) : Double :=
  if num = 0 ∨ den = 0 then finite negative 0 (-1074)
  else
    let e := max (floorLog2 num den - 52) (-1074)
    let (n, d) := scaled num den (-e)
    let m := roundedQuotient n d
    if m = Nat.pow 2 53 then
      if e + 1 ≤ 971 then finite negative (Nat.pow 2 52) (e + 1) else infinite negative
    else if e ≤ 971 then finite negative m e
    else infinite negative

def ofNat (n : Nat) : Double := ofRatio false n 1

def ofInt (i : Int) : Double := ofRatio (i < 0) i.natAbs 1

def zero : Double := finite false 0 (-1074)

def one : Double := ofNat 1

instance : Zero Double := ⟨zero⟩

instance : One Double := ⟨one⟩

/-- The absolute value of a number as a fraction; 0 for the values that are no numbers. -/
def ratio : Double → Nat × Nat
  | finite _ m e => scaled m 1 e
  | _ => (0, 1)

def isNegative : Double → Bool
  | nan => false
  | infinite s => s
  | finite s _ _ => s

def isFinite : Double → Bool
  | finite .. => true
  | _ => false

def isNan : Double → Bool
  | nan => true
  | _ => false

def isZero : Double → Bool
  | finite _ 0 _ => true
  | _ => false

/-- Is the absolute value of the first at most that of the second? -/
def magnitudeLe (x y : Double) : Bool :=
  match x, y with
  | _, infinite _ => true
  | infinite _, _ => false
  | x, y => x.ratio.1 * y.ratio.2 ≤ y.ratio.1 * x.ratio.2

/-- `x ≤ y`; never with a value that is no number, and the two zeros are equal. -/
def le (x y : Double) : Bool :=
  if x.isNan || y.isNan then false
  else if x.isZero && y.isZero then true
  else match x.isNegative, y.isNegative with
    | true, false => true
    | false, true => false
    | false, false => magnitudeLe x y
    | true, true => magnitudeLe y x

/-- `x < y` -/
def lt (x y : Double) : Bool := le x y && !le y x

/-- Equality of the numbers: the two zeros are equal, and what is no number equals nothing. -/
def same (x y : Double) : Bool := le x y && le y x

def neg : Double → Double
  | nan => nan
  | infinite s => infinite (!s)
  | finite s m e => finite (!s) m e

def add (x y : Double) : Double :=
  match x, y with
  | nan, _ | _, nan => nan
  | infinite s, infinite t => if s = t then infinite s else nan
  | infinite s, _ => infinite s
  | _, infinite t => infinite t
  | finite s _ _, finite t _ _ =>
    let (a, b) := x.ratio
    let (c, d) := y.ratio
    if s = t then ofRatio s (a * d + c * b) (b * d)
    else if a * d = c * b then ofRatio false 0 1
    else if c * b < a * d then ofRatio s (a * d - c * b) (b * d)
    else ofRatio t (c * b - a * d) (b * d)

def mul (x y : Double) : Double :=
  let s := x.isNegative != y.isNegative
  match x, y with
  | nan, _ | _, nan => nan
  | infinite _, y => if y.isZero then nan else infinite s
  | x, infinite _ => if x.isZero then nan else infinite s
  | x, y =>
    let (a, b) := x.ratio
    let (c, d) := y.ratio
    ofRatio s (a * c) (b * d)

def div (x y : Double) : Double :=
  let s := x.isNegative != y.isNegative
  match x, y with
  | nan, _ | _, nan => nan
  | infinite _, infinite _ => nan
  | infinite _, _ => infinite s
  | _, infinite _ => ofRatio s 0 1
  | x, y =>
    if y.isZero then (if x.isZero then nan else infinite s)
    else
      let (a, b) := x.ratio
      let (c, d) := y.ratio
      ofRatio s (a * d) (b * c)

instance : Add Double := ⟨add⟩

instance : Mul Double := ⟨mul⟩

instance : Div Double := ⟨div⟩

instance : Neg Double := ⟨neg⟩

/-- The smaller of two numbers; what is no number is passed over. -/
def least (x y : Double) : Double :=
  if x.isNan then y else if y.isNan then x else if lt y x then y else x

/-- The greater of two numbers; what is no number is passed over. -/
def greatest (x y : Double) : Double :=
  if x.isNan then y else if y.isNan then x else if lt x y then y else x

end Double

end Pseudoscribe
