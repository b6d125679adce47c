import Pseudoscribe.Json.Reader
import Pseudoscribe.Json.Record

/-!
# Reading what is expected

A caller whose text is no JSON is told something else than one whose JSON does not say what is expected.  The
text is read from the front and the first fault decides, so a value of the wrong kind is reported
though the text behind it is broken.  What follows the value is not looked at.
-/

namespace Pseudoscribe.Json

/-- What a value is expected to be. -/
inductive Form where
  | text
  /-- a whole number that has so many bits -/
  | count (bits : Nat)
  | number
  /-- one of several words -/
  | word (names : List String)
  | orNull (form : Form)
  | record (fields : List (String × Presence × Form))
deriving Repr

/-- Why a text is refused. -/
inductive Misreading where
  /-- it is no JSON -/
  | malformed
  /-- it does not say what is expected -/
  | misfit
deriving DecidableEq, Repr

/-! ## Values that nobody asked for -/

/-- The rest behind a number of any size. -/
def skipNumber? (cs : List Char) : Option (List Char) := do
  let (_, rest) ← wholeDigits? (match cs with
    | '-' :: rest => rest
    | _ => cs)
  let rest ← match rest with
    | '.' :: r =>
      if (r.takeWhile Char.isDigit).isEmpty then none else some (r.dropWhile Char.isDigit)
    | _ => some rest
  match rest with
  | 'e' :: r | 'E' :: r => (exponent? r).map (·.2)
  | _ => some rest

/-- The rest behind a string of which the opening quotation mark was read. -/
def skipString? : List Char → Option (List Char)
  | [] => none
  | '"' :: rest => some rest
  | '\\' :: 'u' :: a :: b :: c :: d :: rest =>
    if [a, b, c, d].all fun x => (hexDigit? x).isSome then skipString? rest else none
  | '\\' :: e :: rest => if (simpleEscape? e).isSome then skipString? rest else none
  | c :: rest => if c.toNat < 0x20 || c == '\\' then none else skipString? rest

mutual

/-- The rest behind a value. -/
def skip? : Nat → List Char → Option (List Char)
  | 0, _ => none
  | fuel + 1, cs =>
    match skipBlanks cs with
    | 'n' :: 'u' :: 'l' :: 'l' :: rest => some rest
    | 't' :: 'r' :: 'u' :: 'e' :: rest => some rest
    | 'f' :: 'a' :: 'l' :: 's' :: 'e' :: rest => some rest
    | '"' :: rest => skipString? rest
    | '[' :: rest =>
      match skipBlanks rest with
      | ']' :: r => some r
      | r => skipItems? fuel r
    | '{' :: rest =>
      match skipBlanks rest with
      | '}' :: r => some r
      | r => skipMembers? fuel r
    | rest => skipNumber? rest

/-- The rest behind the items of an array, from one of them on. -/
def skipItems? : Nat → List Char → Option (List Char)
  | 0, _ => none
  | fuel + 1, cs =>
    match (skip? fuel cs).map skipBlanks with
    | some (']' :: rest) => some rest
    | some (',' :: rest) => skipItems? fuel rest
    | _ => none

/-- The rest behind the members of an object, from one of them on. -/
def skipMembers? : Nat → List Char → Option (List Char)
  | 0, _ => none
  | fuel + 1, cs =>
    match skipBlanks cs with
    | '"' :: name =>
      match (skipString? name).map skipBlanks with
      | some (':' :: value) =>
        match (skip? fuel value).map skipBlanks with
        | some ('}' :: rest) => some rest
        | some (',' :: rest) => skipMembers? fuel rest
        | _ => none
      | _ => none
    | _ => none

end

/-! ## Values that are expected -/

namespace Form

/-- A value, and the text behind it. -/
abbrev Reading := Except Misreading (Json × List Char)

/-- What is wrong where another kind of value was expected.  Arrays and objects are not read. -/
def unexpected (cs : List Char) : Misreading :=
  let fits := match cs with
    | 'n' :: 'u' :: 'l' :: 'l' :: _ => true
    | 't' :: 'r' :: 'u' :: 'e' :: _ => true
    | 'f' :: 'a' :: 'l' :: 's' :: 'e' :: _ => true
    | '[' :: _ => true
    | '{' :: _ => true
    | '"' :: _ => (string? cs).isSome
    | _ => (number? cs).isSome
  if fits then .misfit else .malformed

def readText (cs : List Char) : Reading :=
  match string? cs with
  | some (s, rest) => .ok (.str s, rest)
  | none => .error (unexpected cs)

/-- A number that passes a test. -/
def readNumber (test : Json → Bool) (cs : List Char) : Reading :=
  match number? cs with
  | some (j, rest) => if test j then .ok (j, rest) else .error .misfit
  | none => .error (unexpected cs)

/-- One of several words: a string, or the only member of an object, whose value is null. -/
def readWord (names : List String) (cs : List Char) : Reading :=
  match cs with
  | '{' :: inner => do
    let (j, rest) ← readText (skipBlanks inner)
    match j.asText? with
    | none => .error .misfit
    | some name =>
      if !names.contains name then .error .misfit
      else
        match skipBlanks rest with
        | ':' :: value =>
          match skipBlanks value with
          | 'n' :: 'u' :: 'l' :: 'l' :: rest =>
            match skipBlanks rest with
            | '}' :: rest => .ok (j, rest)
            | _ => .error .malformed
          | other => .error (unexpected other)
        | _ => .error .malformed
  | '"' :: _ => do
    let (j, rest) ← readText cs
    if j.asText?.any names.contains then .ok (j, rest) else .error .misfit
  | _ => .error .malformed

mutual

/-- Read a value of the given form. -/
def readFor : Nat → Form → List Char → Reading
  | 0, _, _ => .error .malformed
  | fuel + 1, form, cs =>
    let cs := skipBlanks cs
    match form with
    | .text => readText cs
    | .count bits => readNumber (fun j => (j.asUnsigned? bits).isSome) cs
    | .number => readNumber (fun _ => true) cs
    | .word names => readWord names cs
    | .orNull form =>
      match cs with
      | 'n' :: 'u' :: 'l' :: 'l' :: rest => .ok (.null, rest)
      | 'n' :: _ => .error .malformed
      | _ => readFor fuel form cs
    | .record fields =>
      match cs with
      | '{' :: rest =>
        match skipBlanks rest with
        | '}' :: rest => complete fields #[] rest
        | rest => readMembers fuel fields #[] rest
      | '[' :: rest =>
        match skipBlanks rest with
        | ']' :: rest => runOut fields #[] rest
        | rest => readItems fuel fields #[] rest
      | _ => .error (unexpected cs)

/-- Read the members of a record, from one of them on. -/
def readMembers : Nat → List (String × Presence × Form) → Array (String × Json) → List Char → Reading
  | 0, _, _, _ => .error .malformed
  | fuel + 1, fields, done, cs =>
    match string? (skipBlanks cs) with
    | none => .error .malformed
    | some (name, rest) =>
      if done.any (·.1 == name) then .error .misfit
      else
        match skipBlanks rest with
        | ':' :: value =>
          let member : Except Misreading (Array (String × Json) × List Char) :=
            match fields.lookup name with
            | some (_, form) => (readFor fuel form value).map fun (j, rest) => (done.push (name, j), rest)
            | none =>
              match skip? (value.length + 1) value with
              | some rest => .ok (done, rest)
              | none => .error .malformed
          match member with
          | .error e => .error e
          | .ok (done, rest) =>
            match skipBlanks rest with
            | '}' :: rest => complete fields done rest
            | ',' :: rest => readMembers fuel fields done rest
            | _ => .error .malformed
        | _ => .error .malformed

/-- Read the items of a record that is written as an array, from one of them on. -/
def readItems : Nat → List (String × Presence × Form) → Array (String × Json) → List Char → Reading
  | 0, _, _, _ => .error .malformed
  | _ + 1, [], _, _ => .error .malformed
  | fuel + 1, (name, _, form) :: fields, done, cs =>
    match readFor fuel form cs with
    | .error e => .error e
    | .ok (j, rest) =>
      match skipBlanks rest with
      | ']' :: rest => runOut fields (done.push (name, j)) rest
      | ',' :: rest =>
        match skipBlanks rest with
        | ']' :: _ => .error .malformed
        | rest => readItems fuel fields (done.push (name, j)) rest
      | _ => .error .malformed

/-- The record at the end of its members, if none is missing. -/
def complete (fields : List (String × Presence × Form)) (done : Array (String × Json))
    (rest : List Char) : Reading :=
  if fields.all fun (name, p, _) => p != .required || done.any (·.1 == name) then
    .ok (.obj done.toList, rest)
  else .error .misfit

/-- The record at the end of its items, if only such fields are left as have a default. -/
def runOut (fields : List (String × Presence × Form)) (done : Array (String × Json))
    (rest : List Char) : Reading :=
  if fields.all fun (_, p, _) => p == .defaulted then .ok (.obj done.toList, rest)
  else .error .misfit

end

/-- Read the value at the beginning of a text. -/
def read (form : Form) (text : String) : Except Misreading Json :=
  let cs := text.toList
  (readFor (2 * cs.length + 8) form cs).map (·.1)

end Form

end Pseudoscribe.Json
