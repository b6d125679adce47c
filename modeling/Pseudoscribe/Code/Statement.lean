import Pseudoscribe.Code.Expression
import Pseudoscribe.Code.Phrase

/-!
# Statements

A line of pseudocode that neither opens nor closes a block says one of a dozen things, by its first
word or by its form.  What it says is the same for every target language.
-/

namespace Pseudoscribe

/-- What a plain line says.  Texts are pieces of the line, not yet in the target language. -/
inductive Statement where
  | result (value : List Char)
  | print (arguments : List Char)
  | assign (target value : List Char)
  /-- count a variable up or down -/
  | count (target : List Char) (up : Bool) (amount : Option (List Char))
  | call (expression : List Char)
  | input (target : List Char)
  | leave
  | next
  | nothing
  | throw (value : List Char)
  | unknown
deriving DecidableEq, Repr

namespace Statement

/-- What a line says that its first word alone does not tell. -/
def ofForm (code : List Char) : Statement :=
  match Phrase.splitAssignment? code with
  | some (target, value) => assign target value
  | none => if Phrase.isCall code then call code else unknown

/-- What a line says: `code` without semicolons and blanks around it. -/
def ofCode (code : List Char) : Statement :=
  let (word, tail) := Text.splitWord code
  let rest := Text.trim tail
  match Text.upper word with
  | "RETURN" => result rest
  | "PRINT" | "OUTPUT" | "DISPLAY" | "WRITE" | "PRINTLN" => print (Expression.withoutBrackets rest)
  | "SET" | "LET" | "ASSIGN" =>
    match Phrase.splitAssignment? tail with
    | some (target, value) => assign target value
    | none => unknown
  | "INCREMENT" | "DECREMENT" =>
    let up := Text.upper word == "INCREMENT"
    match Phrase.splitAt? "BY" tail with
    | some (target, amount) => count (Text.trim target) up (some (Text.trim amount))
    | none => count rest up none
  | "CALL" => call rest
  | "INPUT" | "READ" => input rest
  | "BREAK" => leave
  | "CONTINUE" => next
  | "PASS" => nothing
  | "THROW" | "RAISE" => throw rest
  | _ => ofForm code

/-- A line without the semicolons at its end. -/
def strip (code : List Char) : List Char :=
  Text.trim (Text.dropEndWhile (· == ';') code)

end Statement

end Pseudoscribe
