import Pseudoscribe.Json.Reader
import Pseudoscribe.Text.Trim
import Pseudoscribe.Toml.Tree

/-!
# Texts and numbers in TOML

Each function hands back what it read and the rest of the text, or nothing when the text does not fit.
-/

/-!
## Dates and times

Dates and times as they stand in TOML documents, and the usual form in which they are kept: with a `T`
between date and time, a `Z` for the zero offset, and no superfluous zeros behind the point.
-/

namespace Pseudoscribe.Toml.Time

/-- A number of exactly `width` digits, not above `top`. -/
def field? (width top : Nat) (cs : List Char) : Option (String × List Char) :=
  let ds := cs.take width
  if ds.length = width ∧ ds.all Char.isDigit then
    let text := String.ofList ds
    if text.toNat?.getD 0 ≤ top then some (text, cs.drop width) else none
  else none

/-- One of the given characters. -/
def mark? (marks : List Char) : List Char → Option (List Char)
  | c :: cs => if marks.contains c then some cs else none
  | [] => none

/-- The days of a month. -/
def daysIn (year month : Nat) : Nat :=
  if month = 2 then
    if year % 4 = 0 ∧ (year % 100 ≠ 0 ∨ year % 400 = 0) then 29 else 28
  else if month = 4 ∨ month = 6 ∨ month = 9 ∨ month = 11 then 30
  else 31

def date? (cs : List Char) : Option (String × List Char) := do
  let (year, cs) ← field? 4 9999 cs
  let cs ← mark? ['-'] cs
  let (month, cs) ← field? 2 12 cs
  let cs ← mark? ['-'] cs
  let (day, cs) ← field? 2 31 cs
  let m := month.toNat?.getD 0
  let d := day.toNat?.getD 0
  if 1 ≤ m ∧ 1 ≤ d ∧ d ≤ daysIn (year.toNat?.getD 0) m then
    some (s!"{year}-{month}-{day}", cs)
  else none

/-- The digits behind the point, up to billionths of a second. -/
def fraction (cs : List Char) : String × List Char :=
  match cs with
  | '.' :: rest =>
    let ds := rest.takeWhile Char.isDigit
    if ds.isEmpty then ("", cs)
    else
      let kept := Text.dropEndWhile (· == '0') (ds.take 9)
      (if kept.isEmpty then "" else "." ++ String.ofList kept, rest.dropWhile Char.isDigit)
  | _ => ("", cs)

def clock? (cs : List Char) : Option (String × List Char) := do
  let (hour, cs) ← field? 2 23 cs
  let cs ← mark? [':'] cs
  let (minute, cs) ← field? 2 59 cs
  let cs ← mark? [':'] cs
  let (second, cs) ← field? 2 60 cs
  let (part, cs) := fraction cs
  some (s!"{hour}:{minute}:{second}{part}", cs)

/-- How far the clock is from that of the zero meridian, if it is said. -/
def offset (cs : List Char) : String × List Char :=
  match cs with
  | 'Z' :: rest | 'z' :: rest => ("Z", rest)
  | sign :: rest =>
    let read := do
      let rest ← if sign == '+' || sign == '-' then some rest else none
      let (hour, rest) ← field? 2 23 rest
      let rest ← mark? [':'] rest
      let (minute, rest) ← field? 2 59 rest
      some (s!"{sign}{hour}:{minute}", rest)
    read.getD ("", cs)
  | [] => ("", [])

/-- A date, a time, or both. -/
def read? (cs : List Char) : Option (String × List Char) :=
  match date? cs with
  | none => clock? cs
  | some (date, rest) =>
    match (mark? ['T', 't', ' '] rest).bind clock? with
    | none => some (date, rest)
    | some (clock, rest) =>
      let (zone, rest) := offset rest
      some (s!"{date}T{clock}{zone}", rest)

end Pseudoscribe.Toml.Time

namespace Pseudoscribe.Toml

def isBlankChar (c : Char) : Bool := c == ' ' || c == '\t'

def skipBlanks (cs : List Char) : List Char := cs.dropWhile isBlankChar

/-- A character that may stand in a comment or, unless it has a meaning there, in a text. -/
def isPlain (c : Char) : Bool := c == '\t' || (0x20 ≤ c.toNat && c.toNat != 0x7f)

/-- What follows the end of a line. -/
def newline? : List Char → Option (List Char)
  | '\n' :: cs => some cs
  | '\r' :: '\n' :: cs => some cs
  | _ => none

/-! ## Texts -/

/-- A character named by its number, of so many hexadecimal digits. -/
def numbered? (width : Nat) (cs : List Char) : Option (Char × List Char) := do
  let ds := cs.take width
  let values ← ds.mapM Json.hexDigit?
  let n := values.foldl (fun n d => n * 16 + d) 0
  if ds.length = width ∧ n.isValidChar then some (Char.ofNat n, cs.drop width) else none

/-- The character meant by what follows a backslash. -/
def escape? : List Char → Option (Char × List Char)
  | 'b' :: cs => some ('\x08', cs)
  | 't' :: cs => some ('\t', cs)
  | 'n' :: cs => some ('\n', cs)
  | 'f' :: cs => some ('\x0c', cs)
  | 'r' :: cs => some ('\r', cs)
  | '"' :: cs => some ('"', cs)
  | '\\' :: cs => some ('\\', cs)
  | 'u' :: cs => numbered? 4 cs
  | 'U' :: cs => numbered? 8 cs
  | _ => none

/-- A text on one line, up to its closing mark; a backslash has a meaning between quotation marks
only. -/
def lineText? (mark : Char) : Nat → Array Char → List Char → Option (String × List Char)
  | 0, _, _ => none
  | fuel + 1, acc, cs =>
    match cs with
    | [] => none
    | c :: rest =>
      if c == mark then some (String.ofList acc.toList, rest)
      else if c == '\\' && mark == '"' then
        (escape? rest).bind fun (e, rest) => lineText? mark fuel (acc.push e) rest
      else if isPlain c then lineText? mark fuel (acc.push c) rest
      else none

/-- Blanks and ends of lines that are left out behind a backslash at the end of a line. -/
def skipLines : Nat → List Char → List Char
  | 0, cs => cs
  | fuel + 1, cs =>
    match newline? (skipBlanks cs) with
    | some rest => skipLines fuel rest
    | none => skipBlanks cs

/-- A text over several lines, up to its three closing marks; one or two marks more before them belong
to the text. -/
def linesText? (mark : Char) : Nat → Array Char → List Char → Option (String × List Char)
  | 0, _, _ => none
  | fuel + 1, acc, cs =>
    match cs with
    | [] => none
    | c :: rest =>
      if c == mark then
        let run := (cs.take 5).takeWhile (· == mark)
        let after := cs.drop run.length
        if run.length < 3 then linesText? mark fuel (acc ++ run) after
        else some (String.ofList (acc ++ run.drop 3).toList, after)
      else if c == '\\' && mark == '"' then
        match newline? (skipBlanks rest) with
        | some rest => linesText? mark fuel acc (skipLines fuel rest)
        | none => (escape? rest).bind fun (e, rest) => linesText? mark fuel (acc.push e) rest
      else
        match newline? cs with
        | some rest => linesText? mark fuel (acc.push '\n') rest
        | none => if isPlain c then linesText? mark fuel (acc.push c) rest else none

/-- A text between marks, which may be three. -/
def text? (cs : List Char) : Option (String × List Char) :=
  match cs with
  | mark :: rest =>
    if mark != '"' && mark != '\x27' then none
    else if rest.take 2 == [mark, mark] then
      let body := rest.drop 2
      linesText? mark (cs.length + 1) #[] ((newline? body).getD body)
    else lineText? mark (cs.length + 1) #[] rest
  | [] => none

/-! ## Numbers -/

/-- Digits of a class, with single underscores between them. -/
def digits (isDigit : Char → Bool) : List Char → List Char × List Char
  | [] => ([], [])
  | '_' :: c :: cs =>
    if isDigit c then
      let (ds, rest) := digits isDigit cs
      (c :: ds, rest)
    else ([], '_' :: c :: cs)
  | c :: cs =>
    if isDigit c then
      let (ds, rest) := digits isDigit cs
      (c :: ds, rest)
    else ([], c :: cs)

/-- At least one digit, and no underscore in front. -/
def digits? (isDigit : Char → Bool) (cs : List Char) : Option (List Char × List Char) :=
  match cs with
  | c :: _ => if isDigit c then some (digits isDigit cs) else none
  | [] => none

/-- A whole number of 64 bits with a sign. -/
def word? (i : Int) : Option Toml :=
  if -(Nat.pow 2 63 : Nat) ≤ i ∧ i < (Nat.pow 2 63 : Nat) then some (.int i) else none

/-- A whole number to a base that is a power of two. -/
def based? (base : Nat) (cs : List Char) : Option (Toml × List Char) := do
  let isDigit (c : Char) : Bool := (Json.hexDigit? c).any (· < base)
  let (ds, rest) ← digits? isDigit cs
  let n := ds.foldl (fun n c => n * base + (Json.hexDigit? c).getD 0) 0
  let v ← word? n
  some (v, rest)

def ofDigits (ds : List Char) : Nat := ds.foldl (fun n c => n * 10 + Json.digitValue c) 0

/-- The exponent of a number, if it has one. -/
def power? (cs : List Char) : Option (Option Int × List Char) :=
  match cs with
  | 'e' :: rest | 'E' :: rest => do
    let (negative, rest) := match rest with
      | '-' :: r => (true, r)
      | '+' :: r => (false, r)
      | _ => (false, rest)
    let (ds, rest) ← digits? Char.isDigit rest
    let n : Int := ofDigits ds
    some (some (if negative then -n else n), rest)
  | _ => some (none, cs)

/-- The digits behind the point, if there is a point. -/
def places? (cs : List Char) : Option (Option (List Char) × List Char) :=
  match cs with
  | '.' :: rest => (digits? Char.isDigit rest).map fun (ds, rest) => (some ds, rest)
  | _ => some (none, cs)

/-- A number in decimal, without its sign. -/
def decimal? (negative : Bool) (cs : List Char) : Option (Toml × List Char) := do
  let (whole, rest) ← match cs with
    | '0' :: rest => some (['0'], rest)
    | _ => digits? Char.isDigit cs
  let (fraction, rest) ← places? rest
  let (power, rest) ← power? rest
  match fraction, power with
  | none, none =>
    let n : Int := ofDigits whole
    let v ← word? (if negative then -n else n)
    some (v, rest)
  | _, _ =>
    let ds := fraction.getD []
    let x := Double.ofDecimal negative (ofDigits (whole ++ ds)) (power.getD 0 - ds.length)
    if x == .infinite false then none else some (.real x, rest)

/-- A number, with or without a sign. -/
def number? (cs : List Char) : Option (Toml × List Char) :=
  let (negative, signed, body) := match cs with
    | '-' :: rest => (true, true, rest)
    | '+' :: rest => (false, true, rest)
    | _ => (false, false, cs)
  match body with
  | 'i' :: 'n' :: 'f' :: rest => some (.real (.infinite negative), rest)
  | 'n' :: 'a' :: 'n' :: rest => some (.real .nan, rest)
  | '0' :: 'x' :: rest => if signed then none else based? 16 rest
  | '0' :: 'o' :: rest => if signed then none else based? 8 rest
  | '0' :: 'b' :: rest => if signed then none else based? 2 rest
  | _ => decimal? negative body

/-- A value that has no other values in it. -/
def scalar? (cs : List Char) : Option (Toml × List Char) :=
  match cs with
  | '"' :: _ | '\x27' :: _ => (text? cs).map fun (t, rest) => (.str t, rest)
  | 't' :: 'r' :: 'u' :: 'e' :: rest => some (.bool true, rest)
  | 'f' :: 'a' :: 'l' :: 's' :: 'e' :: rest => some (.bool false, rest)
  | _ =>
    match Time.read? cs with
    | some (t, rest) => some (.time t, rest)
    | none => number? cs

end Pseudoscribe.Toml
