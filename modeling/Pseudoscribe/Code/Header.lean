import Pseudoscribe.Block.Shape
import Pseudoscribe.Code.Expression
import Pseudoscribe.Code.Phrase

/-!
# Headers

What the first line of a block says, and what a line says that carries a block on.
-/

namespace Pseudoscribe

/-- What the header of a block says.  Texts are pieces of the line, not yet in the target language. -/
inductive Header where
  | function (name : String) (params : List String)
  | record (name : List Char) (base : Option (List Char))
  | condition (test : List Char)
  | loopWhile (test : List Char)
  /-- a loop whose test stands at its end -/
  | loopUntil
  | loopForever
  | loopRange (var start stop : List Char) (step : Option (List Char))
  | loopEach (var items : List Char)
  | attempt
  /-- a group of lines that is no block of its own -/
  | group
  | unknown
deriving DecidableEq, Repr

namespace Header

/-- `x IN xs` or `x OF xs`. -/
def each? (cs : List Char) : Option Header :=
  let (var, tail) := Text.splitWord cs
  let behind := Text.trim tail
  if var.isEmpty then none
  else ((Text.dropWord? "IN" behind).or (Text.dropWord? "OF" behind)).map (loopEach var)

/-- What follows the variable of a counting loop: `FROM`, an arrow or an equals sign. -/
def rangeStart? (cs : List Char) : Option (List Char) :=
  (Text.dropWord? "FROM" cs).or <|
  (Text.dropBeginning? ['<', '-'] cs).or <|
  (Text.dropBeginning? ['←'] cs).or <|
  Text.dropBeginning? ['='] cs

/-- `a TO b`, or `a TO b STEP s`, of the given variable. -/
def range? (var cs : List Char) : Option Header := do
  let (start, tail) ← Phrase.splitAt? "TO" cs
  let (stop, step) := match Phrase.splitAt? "STEP" tail with
    | some (stop, step) => (stop, some (Text.trim step))
    | none => (tail, none)
  pure (loopRange var (Text.trim start) (Text.trim stop) step)

/-- What follows the word `FOR`. -/
def for? (cs : List Char) : Option Header :=
  match Text.dropWord? "EACH" cs with
  | some rest => each? rest
  | none =>
    let (var, tail) := Text.splitWord cs
    let behind := Text.trim tail
    if var.isEmpty then none
    else if (Text.dropWord? "IN" behind).isSome || (Text.dropWord? "OF" behind).isSome then each? cs
    else (rangeStart? behind).bind (range? var)

/-- The header of a line: without the braces and colons at its end. -/
def strip (code : List Char) : List Char :=
  Text.trim (Text.dropEndWhile (fun c => c == '{' || c == ':') code)

/-- What a header says that opens a block of the given kind. -/
def ofText (kind : BlockKind) (header : List Char) : Header :=
  let (word, rest) := Text.splitWord (LineShape.dropModifiers header)
  let upper := Text.upper word
  match kind with
  | .function => function (Phrase.splitSignature rest).1 (Phrase.splitSignature rest).2
  | .record => record (Phrase.splitClass rest).1 (Phrase.splitClass rest).2
  | .conditional => if upper = "IF" then condition (Phrase.dropLastWord "THEN" rest) else unknown
  | .loop =>
    match upper with
    | "WHILE" => loopWhile (Phrase.dropLastWord "DO" rest)
    | "REPEAT" | "DO" => loopUntil
    | "LOOP" => loopForever
    | "FOR" => (for? (Text.trim rest)).getD unknown
    | "FOREACH" => (each? (Text.trim rest)).getD unknown
    | _ => unknown
  | .generic =>
    match upper with
    | "TRY" => attempt
    | "BEGIN" => group
    | _ => unknown

/-- The names that a header declares. -/
def declares : Header → List String
  | function _ params => params
  | loopRange var .. => [String.ofList var]
  | loopEach var _ => [String.ofList var]
  | _ => []

end Header

/-- What a line says that carries a block on. -/
inductive Continuation where
  | elseIf (test : List Char)
  | otherwise
  | rescue (name : List Char)
  | always
  | unknown
deriving DecidableEq, Repr

namespace Continuation

/-- What a line of code says. -/
def ofCode (code : List Char) : Continuation :=
  let text := Header.strip (Text.trim (code.dropWhile (· == '}')))
  let (word, rest) := Text.splitWord text
  match Text.upper word with
  | "ELIF" | "ELSEIF" => elseIf (Phrase.dropLastWord "THEN" rest)
  | "ELSE" =>
    match Text.dropWord? "IF" rest with
    | some test => elseIf (Phrase.dropLastWord "THEN" test)
    | none => otherwise
  | "OTHERWISE" => otherwise
  | "CATCH" | "EXCEPT" =>
    let isBracket (c : Char) := c == '(' || c == ')'
    rescue (Text.trim (Text.dropEndWhile isBracket ((Text.trim rest).dropWhile isBracket)))
  | "FINALLY" => always
  | _ => unknown

end Continuation

end Pseudoscribe
