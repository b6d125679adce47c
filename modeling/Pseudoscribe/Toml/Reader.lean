import Pseudoscribe.Toml.Scalar

/-!
# Reading TOML documents

A document is read line by line: names of tables and keys with values.  A document that names a table
or a key twice does not fit, as does one with a fault in its form.
-/

namespace Pseudoscribe.Toml

/-! ## Keys -/

def isKeyChar (c : Char) : Bool :=
  c.isAlphanum || c == '_' || c == '-'

/-- One part of a key. -/
def keyPart? (cs : List Char) : Option (String × List Char) :=
  match cs with
  | '"' :: rest => lineText? '"' (cs.length + 1) #[] rest
  | '\x27' :: rest => lineText? '\x27' (cs.length + 1) #[] rest
  | _ =>
    let name := cs.takeWhile isKeyChar
    if name.isEmpty then none else some (String.ofList name, cs.dropWhile isKeyChar)

/-- The parts of a key between points, with the blanks around them. -/
def key? : Nat → List Char → Option (List String × List Char)
  | 0, _ => none
  | fuel + 1, cs =>
    match keyPart? (skipBlanks cs) with
    | none => none
    | some (part, rest) =>
      match skipBlanks rest with
      | '.' :: rest => (key? fuel rest).map fun (parts, rest) => (part :: parts, rest)
      | rest => some ([part], rest)

/-! ## Values -/

/-- Blanks, ends of lines and comments, which may stand between the values of an array. -/
def skipGaps : Nat → List Char → List Char
  | 0, cs => cs
  | fuel + 1, cs =>
    match skipBlanks cs with
    | '#' :: rest =>
      match newline? (rest.dropWhile isPlain) with
      | some rest => skipGaps fuel rest
      | none => '#' :: rest
    | cs =>
      match newline? cs with
      | some rest => skipGaps fuel rest
      | none => cs

/-- How deep values may be nested. -/
def maxDepth : Nat := 80

mutual

/-- A value; `depth` counts how deep it may still be nested. -/
def value? : Nat → Nat → List Char → Option (Toml × List Char)
  | 0, _, _ => none
  | fuel + 1, depth, cs =>
    match cs with
    | '[' :: rest => if depth = 0 then none else items? fuel (depth - 1) #[] rest
    | '{' :: rest =>
      if depth = 0 then none
      else match skipBlanks rest with
        | '}' :: rest => some (.table [], rest)
        | rest => pairs? fuel (depth - 1) [] rest
    | _ => scalar? cs

/-- The items of an array up to the closing bracket; a comma may stand behind the last one. -/
def items? : Nat → Nat → Array Toml → List Char → Option (Toml × List Char)
  | 0, _, _, _ => none
  | fuel + 1, depth, acc, cs =>
    match skipGaps cs.length cs with
    | ']' :: rest => some (.arr acc.toList, rest)
    | cs =>
      match value? fuel depth cs with
      | none => none
      | some (v, rest) =>
        match skipGaps rest.length rest with
        | ']' :: rest => some (.arr (acc.push v).toList, rest)
        | ',' :: rest => items? fuel depth (acc.push v) rest
        | _ => none

/-- The keys and values of a table on one line, from one of them up to the closing brace. -/
def pairs? : Nat → Nat → Entries → List Char → Option (Toml × List Char)
  | 0, _, _, _ => none
  | fuel + 1, depth, acc, cs =>
    match pair? fuel depth cs with
    | none => none
    | some (path, v, rest) =>
      match Entries.assign v true path acc with
      | none => none
      | some acc =>
        match skipBlanks rest with
        | '}' :: rest => some ((Node.table .dotted acc).toToml, rest)
        | ',' :: rest => pairs? fuel depth acc rest
        | _ => none

/-- A key and its value. -/
def pair? : Nat → Nat → List Char → Option (List String × Toml × List Char)
  | 0, _, _ => none
  | fuel + 1, depth, cs =>
    match key? (cs.length + 1) cs with
    | some (path, '=' :: rest) =>
      (value? fuel depth (skipBlanks rest)).map fun (v, rest) => (path, v, rest)
    | _ => none

end

/-! ## Documents -/

/-- What follows a line that has nothing more but blanks and a comment. -/
def lineEnd? (cs : List Char) : Option (List Char) :=
  let rest := match skipBlanks cs with
    | '#' :: rest => rest.dropWhile isPlain
    | rest => rest
  if rest.isEmpty then some [] else newline? rest

/-- A document as far as it was read. -/
structure Draft where
  root : Entries := []
  /-- the table that keys belong to -/
  at_ : List String := []

namespace Draft

/-- Go to a table that is named now. -/
def goTo (d : Draft) (enter : String → Entries → Option Entries) (path : List String) :
    Option Draft := do
  let name ← path.getLast?
  let root ← d.root.within (enter name) path.dropLast
  pure ⟨root, path⟩

/-- One line, and what follows it. -/
def line? (d : Draft) (cs : List Char) : Option (Draft × List Char) := do
  let (d, rest) ← match skipBlanks cs with
    | '[' :: '[' :: cs =>
      match key? (cs.length + 1) cs with
      | some (path, ']' :: ']' :: rest) => (d.goTo Entries.another path).map (·, rest)
      | _ => none
    | '[' :: cs =>
      match key? (cs.length + 1) cs with
      | some (path, ']' :: rest) => (d.goTo Entries.head path).map (·, rest)
      | _ => none
    | cs =>
      if (lineEnd? cs).isSome then some (d, cs)
      else do
        let (path, v, rest) ← pair? (3 * cs.length + 3) maxDepth cs
        let root ← d.root.within (Entries.assign v true path) d.at_
        some ({ d with root }, rest)
  let rest ← lineEnd? rest
  pure (d, rest)

/-- The lines up to the end. -/
def lines? : Nat → Draft → List Char → Option Draft
  | 0, _, _ => none
  | fuel + 1, d, cs =>
    match d.line? cs with
    | none => none
    | some (d, []) => some d
    | some (d, rest) => lines? fuel d rest

end Draft

/-- Read a document: its table of values. -/
def ofChars? (cs : List Char) : Option (List (String × Toml)) :=
  let cs := match cs with
    | '\ufeff' :: rest => rest
    | _ => cs
  (Draft.lines? (cs.length + 1) {} cs).map fun d => Node.entriesToToml d.root

/-- Read a document: its table of values. -/
def ofString? (s : String) : Option (List (String × Toml)) := ofChars? s.toList

end Pseudoscribe.Toml
