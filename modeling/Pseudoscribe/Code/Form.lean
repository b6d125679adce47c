import Pseudoscribe.Code.Header
import Pseudoscribe.Code.Statement

/-!
# Forms

How statements, headers and continuations are written in each target language.  A header in JavaScript
ends with an opening brace and a continuation begins with a closing one, so that every block opens one
brace and closes one.
-/

namespace Pseudoscribe.Form

/-- A header with its test between brackets and an opening brace. -/
def braced (word : String) (test : List Char) : List Char :=
  word.toList ++ [' ', '('] ++ test ++ [')', ' ', '{']

/-- A header with its test and a colon. -/
def coloned (word : String) (test : List Char) : List Char :=
  word.toList ++ [' '] ++ test ++ [':']

/-- A word and an opening brace. -/
def opening (word : String) : List Char := word.toList ++ [' ', '{']

def function (t : Target) (name : String) (params : List String) : List Char :=
  let signature := name.toList ++ ['('] ++ (String.intercalate ", " params).toList ++ [')']
  match t with
  | .python => "def ".toList ++ signature ++ [':']
  | .javascript => "function ".toList ++ signature ++ [' ', '{']

def record (t : Target) (name : List Char) (base : Option (List Char)) : List Char :=
  match t, base with
  | .python, some base => "class ".toList ++ name ++ ['('] ++ base ++ [')', ':']
  | .python, none => "class ".toList ++ name ++ [':']
  | .javascript, some base => "class ".toList ++ name ++ " extends ".toList ++ base ++ [' ', '{']
  | .javascript, none => "class ".toList ++ name ++ [' ', '{']

/-- A loop over whole numbers; the last one is included. -/
def range (t : Target) (var start stop : List Char) (step : Option (List Char)) : List Char :=
  match t with
  | .python =>
    "for ".toList ++ var ++ " in range(".toList ++ start ++ ", ".toList ++ stop ++ " + 1".toList ++
      (match step with
        | some s => ", ".toList ++ s
        | none => []) ++ [')', ':']
  | .javascript =>
    "for (let ".toList ++ var ++ " = ".toList ++ start ++ "; ".toList ++ var ++ " <= ".toList ++ stop ++
      "; ".toList ++ var ++
      (match step with
        | some s => " += ".toList ++ s
        | none => ['+', '+']) ++ [')', ' ', '{']

def each (t : Target) (var items : List Char) : List Char :=
  match t with
  | .python => "for ".toList ++ var ++ " in ".toList ++ items ++ [':']
  | .javascript => "for (const ".toList ++ var ++ " of ".toList ++ items ++ [')', ' ', '{']

/-- The line that opens a block; nothing for a header that opens none. -/
def header (t : Target) : Header → Option (List Char)
  | .function name params => some (function t name params)
  | .record name base => some (record t name base)
  | .condition test =>
    let test := Expression.renderCondition t test
    some (match t with
      | .python => coloned "if" test
      | .javascript => braced "if" test)
  | .loopWhile test =>
    let test := Expression.renderCondition t test
    some (match t with
      | .python => coloned "while" test
      | .javascript => braced "while" test)
  | .loopUntil => some (match t with
      | .python => "while True:".toList
      | .javascript => opening "do")
  | .loopForever => some (match t with
      | .python => "while True:".toList
      | .javascript => braced "while" "true".toList)
  | .loopRange var start stop step =>
    let render := Expression.render t
    some (range t var (render start) (render stop) (step.map render))
  | .loopEach var items => some (each t var (Expression.render t items))
  | .attempt => some (match t with
      | .python => "try:".toList
      | .javascript => opening "try")
  | .group => none
  | .unknown => none

/-- The line that carries a block on; nothing if the line said nothing known. -/
def continuation (t : Target) : Continuation → Option (List Char)
  | .elseIf test =>
    let test := Expression.renderCondition t test
    some (match t with
      | .python => coloned "elif" test
      | .javascript => '}' :: ' ' :: braced "else if" test)
  | .otherwise => some (match t with
      | .python => "else:".toList
      | .javascript => '}' :: ' ' :: opening "else")
  | .rescue name => some (match t with
      | .python =>
        if name.isEmpty then "except Exception:".toList else coloned "except Exception as" name
      | .javascript =>
        '}' :: ' ' :: braced "catch" (if name.isEmpty then ['e'] else name))
  | .always => some (match t with
      | .python => "finally:".toList
      | .javascript => '}' :: ' ' :: opening "finally")
  | .unknown => none

/-- The last line of a block, other than a loop that tests at its end. -/
def closer : List Char := ['}']

/-- The last line of a loop whose test was never given. -/
def endlessCloser : List Char := '}' :: " while (true);".toList

/-- The last line of a loop that runs until the test holds. -/
def untilCloser (test : List Char) : List Char :=
  '}' :: " while (!(".toList ++ test ++ "));".toList

/-- A plain assignment, or a compound one such as `x += 1` when the target ends with a sign.
`declares` says whether the target is a new name, which some languages want to see declared. -/
def assignment (t : Target) (declares : Bool) (target value : List Char) : List Char :=
  let base := Text.trimEnd (Text.dropEndWhile Phrase.isSign target)
  let value := Expression.render t value
  if base.length != target.length then
    base ++ [' '] ++ Text.trim (target.drop base.length) ++ ['=', ' '] ++ value ++ t.terminator
  else if declares then "let ".toList ++ base ++ [' ', '=', ' '] ++ value ++ t.terminator
  else base ++ [' ', '=', ' '] ++ value ++ t.terminator

/-- The name that a statement may have to declare: a plain name that is assigned to, or whatever is
read in. -/
def newName? (s : Statement) : Option (List Char) :=
  match s with
  | .assign target _ =>
    let base := Text.trimEnd (Text.dropEndWhile Phrase.isSign target)
    if base.length == target.length && Phrase.isName base then some base else none
  | .input target => some target
  | _ => none

/-- The line of a statement; `declares` as for `assignment`.  Nothing for a statement that needs no
line and for one that said nothing known. -/
def statement (t : Target) (declares : Bool) : Statement → Option (List Char)
  | .result value =>
    some ("return".toList ++ (if value.isEmpty then [] else ' ' :: Expression.render t value) ++
      t.terminator)
  | .print arguments =>
    let arguments := Expression.render t arguments
    some (match t with
      | .python => "print(".toList ++ arguments ++ [')']
      | .javascript => "console.log(".toList ++ arguments ++ [')', ';'])
  | .assign target value => some (assignment t declares target value)
  | .count target up amount =>
    some (target ++ [' ', if up then '+' else '-', '=', ' '] ++
      ((amount.map (Expression.render t)).getD ['1']) ++ t.terminator)
  | .call expression => some (Expression.render t expression ++ t.terminator)
  | .input target => some (match t with
      | .python => target ++ " = input()".toList
      | .javascript => (if declares then "let ".toList else []) ++ target ++ " = prompt();".toList)
  | .leave => some ("break".toList ++ t.terminator)
  | .next => some ("continue".toList ++ t.terminator)
  | .nothing => match t with
      | .python => some "pass".toList
      | .javascript => none
  | .throw value =>
    let value := Expression.render t value
    some (match t with
      | .python => "raise Exception(".toList ++ value ++ [')']
      | .javascript => "throw new Error(".toList ++ value ++ [')', ';'])
  | .unknown => none

end Pseudoscribe.Form
