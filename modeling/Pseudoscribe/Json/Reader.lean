import Pseudoscribe.Json.Basic
import Pseudoscribe.Number.Decimal

/-!
# Reading JSON

A reader over the characters of a text.  Values may be nested 127 deep.  Each function hands back what
it read and the rest of the text, or nothing when the text does not fit.
-/

namespace Pseudoscribe.Json

def isBlankChar (c : Char) : Bool :=
  c == ' ' || c == '\n' || c == '\t' || c == '\r'

def skipBlanks (cs : List Char) : List Char := cs.dropWhile isBlankChar

def digitValue (c : Char) : Nat := c.toNat - '0'.toNat

/-- The greatest whole number of 64 bits. -/
def maxWord : Nat := Nat.pow 2 64 - 1

/-- Digits added to a number as long as it stays a whole number of 64 bits; and how many were left. -/
def foldDigits (start : Nat) (ds : List Char) : Nat × Nat :=
  ds.foldl (fun (n, dropped) d =>
    let next := n * 10 + digitValue d
    if dropped = 0 ∧ next ≤ maxWord then (next, 0) else (n, dropped + 1)) (start, 0)

/-- The digits of an exponent, with their sign. -/
def exponent? (cs : List Char) : Option (Int × List Char) :=
  let (negative, rest) := match cs with
    | '-' :: rest => (true, rest)
    | '+' :: rest => (false, rest)
    | _ => (false, cs)
  let ds := rest.takeWhile Char.isDigit
  if ds.isEmpty then none
  else
    let n : Int := (String.ofList ds).toNat?.getD 0
    some (if negative then -n else n, rest.dropWhile Char.isDigit)

/-- The whole number written by digits, without a superfluous zero in front. -/
def wholeDigits? (cs : List Char) : Option (List Char × List Char) :=
  let ds := cs.takeWhile Char.isDigit
  match ds with
  | [] => none
  | '0' :: _ :: _ => none
  | _ => some (ds, cs.dropWhile Char.isDigit)

/-- A number without its sign. -/
def unsignedNumber? (negative : Bool) (cs : List Char) : Option (Json × List Char) := do
  let (whole, rest) ← wholeDigits? cs
  let (n, dropped) := foldDigits 0 whole
  let (fraction, rest') ← match rest with
    | '.' :: r =>
      let ds := r.takeWhile Char.isDigit
      if ds.isEmpty then none else some (some ds, r.dropWhile Char.isDigit)
    | _ => some (none, rest)
  let (power, rest'') ← match rest' with
    | 'e' :: r | 'E' :: r => (exponent? r).map fun (e, r') => (some e, r')
    | _ => some (none, rest')
  match fraction, power with
  | none, none =>
    if dropped = 0 then
      if !negative then pure (.int n, rest'')
      else if 0 < n ∧ n ≤ Nat.pow 2 63 then pure (.int (-n), rest'')
      else pure (.real (-(Double.ofNat n)), rest'')
    else
      let x ← Double.ofDecimalSteps? negative n dropped
      pure (.real x, rest'')
  | _, _ =>
    let ds := fraction.getD []
    let (m, left) := if dropped = 0 then foldDigits n ds else (n, ds.length)
    let places : Int := (ds.length - left : Nat)
    let x ← Double.ofDecimalSteps? negative m ((dropped : Int) - places + power.getD 0)
    pure (.real x, rest'')

def number? : List Char → Option (Json × List Char)
  | '-' :: cs => unsignedNumber? true cs
  | cs => unsignedNumber? false cs

def hexDigit? (c : Char) : Option Nat :=
  if c.isDigit then some (digitValue c)
  else if 'a' ≤ c ∧ c ≤ 'f' then some (c.toNat - 'a'.toNat + 10)
  else if 'A' ≤ c ∧ c ≤ 'F' then some (c.toNat - 'A'.toNat + 10)
  else none

/-- Four hexadecimal digits. -/
def hex4? : List Char → Option (Nat × List Char)
  | a :: b :: c :: d :: rest => do
    let a ← hexDigit? a
    let b ← hexDigit? b
    let c ← hexDigit? c
    let d ← hexDigit? d
    pure (((a * 16 + b) * 16 + c) * 16 + d, rest)
  | _ => none

/-- The character behind `\u`: one unit, or two units that make a pair. -/
def unicodeEscape? (cs : List Char) : Option (Char × List Char) := do
  let (n, rest) ← hex4? cs
  if 0xd800 ≤ n ∧ n ≤ 0xdbff then
    match rest with
    | '\\' :: 'u' :: rest' =>
      let (m, rest'') ← hex4? rest'
      if 0xdc00 ≤ m ∧ m ≤ 0xdfff then
        pure (Char.ofNat (0x10000 + (n - 0xd800) * 0x400 + (m - 0xdc00)), rest'')
      else none
    | _ => none
  else if 0xdc00 ≤ n ∧ n ≤ 0xdfff then none
  else pure (Char.ofNat n, rest)

def simpleEscape? : Char → Option Char
  | '"' => some '"'
  | '\\' => some '\\'
  | '/' => some '/'
  | 'b' => some '\x08'
  | 'f' => some '\x0c'
  | 'n' => some '\n'
  | 'r' => some '\r'
  | 't' => some '\t'
  | _ => none

/-- The characters of a string up to its closing quotation mark; `fuel` bounds their number. -/
def stringTail? : Nat → Array Char → List Char → Option (String × List Char)
  | 0, _, _ => none
  | fuel + 1, acc, cs =>
    match cs with
    | [] => none
    | '"' :: rest => some (String.ofList acc.toList, rest)
    | '\\' :: 'u' :: rest =>
      (unicodeEscape? rest).bind fun (c, rest') => stringTail? fuel (acc.push c) rest'
    | '\\' :: e :: rest =>
      (simpleEscape? e).bind fun c => stringTail? fuel (acc.push c) rest
    | c :: rest => if c.toNat < 0x20 || c == '\\' then none else stringTail? fuel (acc.push c) rest

def string? (cs : List Char) : Option (String × List Char) :=
  match cs with
  | '"' :: rest => stringTail? (rest.length + 1) #[] rest
  | _ => none

mutual

/-- A value; `depth` counts how deep it may still be nested. -/
def value? : Nat → Nat → List Char → Option (Json × List Char)
  | 0, _, _ => none
  | fuel + 1, depth, cs =>
    match skipBlanks cs with
    | 'n' :: 'u' :: 'l' :: 'l' :: rest => some (.null, rest)
    | 't' :: 'r' :: 'u' :: 'e' :: rest => some (.bool true, rest)
    | 'f' :: 'a' :: 'l' :: 's' :: 'e' :: rest => some (.bool false, rest)
    | '"' :: rest => (string? ('"' :: rest)).map fun (s, r) => (.str s, r)
    | '[' :: rest =>
      if depth ≤ 1 then none
      else match skipBlanks rest with
        | ']' :: r => some (.arr [], r)
        | r => items? fuel (depth - 1) #[] r
    | '{' :: rest =>
      if depth ≤ 1 then none
      else match skipBlanks rest with
        | '}' :: r => some (.obj [], r)
        | r => members? fuel (depth - 1) #[] r
    | cs' => number? cs'

/-- The items of an array, from one of them up to the closing bracket. -/
def items? : Nat → Nat → Array Json → List Char → Option (Json × List Char)
  | 0, _, _, _ => none
  | fuel + 1, depth, acc, cs =>
    match value? fuel depth cs with
    | none => none
    | some (v, rest) =>
      match skipBlanks rest with
      | ']' :: r => some (.arr (acc.push v).toList, r)
      | ',' :: r => items? fuel depth (acc.push v) r
      | _ => none

/-- The members of an object, from one of them up to the closing brace. -/
def members? : Nat → Nat → Array (String × Json) → List Char → Option (Json × List Char)
  | 0, _, _, _ => none
  | fuel + 1, depth, acc, cs =>
    match string? (skipBlanks cs) with
    | none => none
    | some (name, rest) =>
      match skipBlanks rest with
      | ':' :: rest' =>
        match value? fuel depth rest' with
        | none => none
        | some (v, rest'') =>
          match skipBlanks rest'' with
          | '}' :: r => some (.obj (acc.push (name, v)).toList, r)
          | ',' :: r => members? fuel depth (acc.push (name, v)) r
          | _ => none
      | _ => none

end

/-- Read a text that holds one value and nothing else but blanks. -/
def ofChars? (cs : List Char) : Option Json :=
  match value? (cs.length + 1) 128 cs with
  | some (j, rest) => if (skipBlanks rest).isEmpty then some j else none
  | none => none

/-- Read a text that holds one value and nothing else but blanks. -/
def ofString? (s : String) : Option Json := ofChars? s.toList

end Pseudoscribe.Json
