import Pseudoscribe.Text.Trim

/-!
# Phrases

The small cuts by which a line of pseudocode is taken apart: at a keyword, at an assignment, at the
brackets of a signature.
-/

namespace Pseudoscribe.Phrase

/-- The text before and after the first place where the keyword stands by itself, outside of quotation
marks.  `quote` is the mark the text begins inside of, and `prev` the character before it. -/
def splitAtFrom (keyword : List Char) (quote prev : Option Char) :
    List Char → Option (List Char × List Char)
  | [] => none
  | c :: cs =>
    let onward (quote : Option Char) :=
      (splitAtFrom keyword quote (some c) cs).map fun r => (c :: r.1, r.2)
    match quote with
    | some q => onward (if c == q then none else some q)
    | none =>
      if c == '"' || c == '\x27' then onward (some c)
      else
        let behind := (c :: cs).drop keyword.length
        if ((c :: cs).take keyword.length).map Char.toUpper == keyword &&
            !prev.any Text.isAsciiWordChar && !behind.head?.any Text.isAsciiWordChar then
          some ([], behind)
        else onward none

/-- The text before and after a keyword, which is given in capitals. -/
def splitAt? (keyword : String) (cs : List Char) : Option (List Char × List Char) :=
  splitAtFrom keyword.toList none none cs

/-- The text without a keyword at its end that a blank separates from the rest. -/
def dropLastWord (keyword : String) (cs : List Char) : List Char :=
  let trimmed := Text.trimEnd cs
  let head := trimmed.take (trimmed.length - keyword.length)
  if keyword.length < trimmed.length && Text.isWord keyword (trimmed.drop head.length) &&
      head.getLast?.any Text.isSpace then
    Text.trimEnd head
  else trimmed

/-- An arithmetic sign, as in `x += 1`. -/
def isSign (c : Char) : Bool := ['+', '-', '*', '/'].contains c

/-- A name: a letter or underscore, then letters, numerals and underscores. -/
def isName (cs : List Char) : Bool :=
  match cs with
  | [] => false
  | c :: rest => Text.isNameStart c && rest.all Text.isWordChar

/-- A character of something that can be assigned to, as in `box.items["key"]`. -/
def isTargetChar (c : Char) : Bool :=
  Text.isAlnum c || ['_', '.', '[', ']', '"', '\x27'].contains c

/-- Can this be assigned to?  Signs at the end make it a compound assignment. -/
def isTarget (cs : List Char) : Bool :=
  let base := Text.trim (Text.dropEndWhile isSign cs)
  base.all isTargetChar && base.head?.any Text.isNameStart

/-- The two sides of the first `=` that does not belong to a comparison. -/
def splitAtEquals (before : List Char) : List Char → Option (List Char × List Char)
  | [] => none
  | c :: cs =>
    if c == '=' && !before.head?.any ['=', '!', '<', '>'].contains && cs.head? != some '=' then
      some (before.reverse, cs)
    else splitAtEquals (c :: before) cs

/-- A target and a value, if the first can be assigned to. -/
def assignment? (sides : Option (List Char × List Char)) : Option (List Char × List Char) :=
  match sides with
  | some (target, value) =>
    if isTarget (Text.trim target) then some (Text.trim target, Text.trim value) else none
  | none => none

/-- The target and the value of an assignment: `x TO y`, `x <- y`, `x ← y`, `x := y` or `x = y`. -/
def splitAssignment? (cs : List Char) : Option (List Char × List Char) :=
  let text := Text.trim cs
  (assignment? (splitAt? "TO" text)).or <|
  (assignment? (Text.cutAt ['<', '-'] text)).or <|
  (assignment? (Text.cutAt ['←'] text)).or <|
  (assignment? (Text.cutAt [':', '='] text)).or <|
  assignment? (splitAtEquals [] text)

/-- Does the text look like a call: a dotted name, an opening bracket, and a closing one at the end? -/
def isCall (cs : List Char) : Bool :=
  match Text.cutAt ['('] cs with
  | none => false
  | some (callee, _) =>
    let name := Text.trim callee
    !name.isEmpty && name.all (fun c => Text.isWordChar c || c == '.') &&
      (Text.trimEnd cs).getLast? == some ')'

/-- The text up to the last place where the character stands. -/
def beforeLast? (c : Char) (cs : List Char) : Option (List Char) :=
  (Text.cutAt [c] cs.reverse).map fun r => r.2.reverse

/-- The first words of the parts between commas. -/
def parameterNames (cs : List Char) : List String :=
  (Text.splitOn ',' cs).filterMap fun part =>
    let name := (Text.splitWord part).1
    if name.isEmpty then none else some (String.ofList name)

/-- What stands between the brackets of a signature, given the text before and behind the first
opening bracket. -/
def betweenBrackets (before behind : List Char) : List Char :=
  match beforeLast? ')' behind with
  | some inner => inner
  | none => if before.contains ')' then [] else behind

/-- The name and the parameters of a function; a function without a name is `anonymous`. -/
def splitSignature (cs : List Char) : String × List String :=
  let whole := Text.trim cs
  let head := match splitAt? "RETURNS" whole with
    | some (before, _) => Text.trim before
    | none => whole
  let text := Text.trim (match Text.cutAt ['-', '>'] head with
    | some (before, _) => before
    | none => head)
  let (name, params) := match Text.cutAt ['('] text with
    | some (before, behind) => (Text.trim before, betweenBrackets before behind)
    | none =>
      let (name, tail) := Text.splitWord text
      (name, (Text.dropWord? "WITH" (Text.trim tail)).getD tail)
  (if name.isEmpty then "anonymous" else String.ofList name, parameterNames params)

/-- The name of a class and the class it is based on. -/
def splitClass (cs : List Char) : List Char × Option (List Char) :=
  let text := Text.trim cs
  let (name, base) := match Text.cutAt ['('] text with
    | some (before, behind) =>
      (Text.trim before, some (Text.trim (Text.dropEndWhile (· == ')') behind)))
    | none =>
      let (name, tail) := Text.splitWord text
      let base := (Text.dropWord? "EXTENDS" tail).or (Text.dropWord? "INHERITS" tail)
      (name, base.map fun b => Text.trim ((Text.dropWord? "FROM" b).getD b))
  (name, base.filter (!·.isEmpty))

/-- The name that a line declares, if it declares one: the target of an assignment or the variable
of a loop. -/
def declaredName? (line : List Char) : Option String :=
  let (word, rest) := Text.splitWord line
  let upper := Text.upper word
  let candidate :=
    if upper ∈ ["SET", "LET", "ASSIGN"] then (splitAssignment? rest).map (·.1)
    else if upper ∈ ["FOR", "FOREACH"] then
      some (Text.splitWord ((Text.dropWord? "EACH" rest).getD rest)).1
    else (splitAssignment? line).map (·.1)
  candidate.bind fun c =>
    let name := Text.trim (Text.dropEndWhile isSign c)
    if isName name then some (String.ofList name) else none

end Pseudoscribe.Phrase
