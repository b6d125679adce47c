import Pseudoscribe.Text.Trim

/-!
# Target languages and expressions

The built-in rules write two languages.  All that differs between them is said once, at the forms
of statements and headers.

An expression is cut into string literals, words and marks.  Literals are kept as they are; words such as
`AND` and marks such as `<>` take the form of the target language; all else is kept.  In a condition a
single `=` compares.
-/

/-! ## Languages that the rules can write -/

namespace Pseudoscribe

/-- A language that the rules can write. -/
inductive Target where
  | python
  | javascript
deriving DecidableEq, Repr

namespace Target

def ofName? : String → Option Target
  | "python" => some python
  | "javascript" => some javascript
  | _ => none

/-- The mark of a line comment. -/
def commentMark : Target → List Char
  | python => ['#']
  | javascript => ['/', '/']

/-- The end of a statement. -/
def terminator : Target → List Char
  | python => []
  | javascript => [';']

/-- A line comment. -/
def comment (t : Target) (text : List Char) : List Char :=
  t.commentMark ++ ' ' :: text

end Target

end Pseudoscribe

/-! ## Expressions -/

namespace Pseudoscribe.Expression

/-- A part of an expression. -/
inductive Token where
  /-- a string literal with its quotation marks; the closing one may be missing -/
  | literal (text : List Char)
  | word (text : List Char)
  /-- one or two characters that are neither -/
  | mark (text : List Char)
deriving DecidableEq, Repr

namespace Token

/-- The characters that the token was read from. -/
def text : Token → List Char
  | literal t => t
  | word t => t
  | mark t => t

end Token

/-- A literal behind its opening quotation mark, up to the closing one, and the rest.  A backslash
takes the character behind it along. -/
def literalTail (quote : Char) : List Char → List Char × List Char
  | [] => ([], [])
  | '\\' :: c :: rest =>
    let r := literalTail quote rest
    ('\\' :: c :: r.1, r.2)
  | c :: rest =>
    if c == quote then ([c], rest)
    else
      let r := literalTail quote rest
      (c :: r.1, r.2)

theorem literalTail_append (quote : Char) (cs : List Char) :
    (literalTail quote cs).1 ++ (literalTail quote cs).2 = cs := by
  fun_induction literalTail quote cs <;> simp_all +zetaDelta

theorem length_literalTail_snd_le (quote : Char) (cs : List Char) :
    (literalTail quote cs).2.length ≤ cs.length := by
  have h := congrArg List.length (literalTail_append quote cs)
  simp only [List.length_append] at h
  omega

/-- Marks of two characters. -/
def pairMarks : List (List Char) := [['<', '>'], ['=', '='], ['!', '=']]

/-- The tokens of an expression, in order. -/
def tokens (cs : List Char) : List Token :=
  match cs with
  | [] => []
  | c :: rest =>
    if c == '"' || c == '\x27' then
      let r := literalTail c rest
      .literal (c :: r.1) :: tokens r.2
    else if Text.isNameStart c then
      .word (c :: rest.takeWhile Text.isWordChar) :: tokens (rest.dropWhile Text.isWordChar)
    else if pairMarks.contains ((c :: rest).take 2) then
      .mark ((c :: rest).take 2) :: tokens (rest.drop 1)
    else .mark [c] :: tokens rest
termination_by cs.length
decreasing_by
  · have := length_literalTail_snd_le c rest
    simp only [List.length_cons]
    omega
  · have := (List.dropWhile_sublist Text.isWordChar (l := rest)).length_le
    simp only [List.length_cons]
    omega
  · simp only [List.length_drop, List.length_cons]
    omega
  · simp

theorem flatten_tokens (cs : List Char) : ((tokens cs).map Token.text).flatten = cs := by
  fun_induction tokens cs with
  | case1 => rfl
  | case2 c rest h r ih => simp [Token.text, ih, r, literalTail_append]
  | case3 c rest h1 h2 ih => simp [Token.text, ih]
  | case4 c rest h1 h2 h3 ih => cases rest <;> simp_all [Token.text]
  | case5 c rest h1 h2 h3 ih => simp [Token.text, ih]

/-- How a word is written. -/
def wordText (t : Target) (word : List Char) : List Char :=
  match Text.upper word, t with
  | "AND", .python => "and".toList
  | "AND", .javascript => "&&".toList
  | "OR", .python => "or".toList
  | "OR", .javascript => "||".toList
  | "NOT", .python => "not".toList
  | "NOT", .javascript => "!".toList
  | "TRUE", .python => "True".toList
  | "TRUE", .javascript => "true".toList
  | "FALSE", .python => "False".toList
  | "FALSE", .javascript => "false".toList
  | "NULL", .python | "NIL", .python | "NONE", .python => "None".toList
  | "NULL", .javascript | "NIL", .javascript | "NONE", .javascript => "null".toList
  | "MOD", _ => ['%']
  | "DIV", .python => ['/', '/']
  | _, _ => word

def equalText : Target → List Char
  | .python => ['=', '=']
  | .javascript => ['=', '=', '=']

def unequalText : Target → List Char
  | .python => ['!', '=']
  | .javascript => ['!', '=', '=']

/-- How a mark is written; `prev` is the character in front of it. -/
def markText (t : Target) (condition : Bool) (prev : Option Char) (mark : List Char) : List Char :=
  match mark with
  | ['<', '>'] => unequalText t
  | ['!', '='] => unequalText t
  | ['=', '='] => equalText t
  | ['≠'] => unequalText t
  | ['≤'] => ['<', '=']
  | ['≥'] => ['>', '=']
  | ['='] =>
    if condition && !prev.any ['<', '>', '!', '='].contains then equalText t else mark
  | _ => mark

/-- How a token is written. -/
def tokenText (t : Target) (condition : Bool) (prev : Option Char) : Token → List Char
  | .literal text => text
  | .word text => wordText t text
  | .mark text => markText t condition prev text

/-- Tokens written one after the other; `prev` is the character in front of them. -/
def tokensText (t : Target) (condition : Bool) (prev : Option Char) : List Token → List Char
  | [] => []
  | token :: rest =>
    tokenText t condition prev token ++ tokensText t condition (token.text.getLast?.or prev) rest

/-- An expression in the target language. -/
def render (t : Target) (cs : List Char) : List Char :=
  tokensText t false none (tokens cs)

/-- Do the first and the last character, an opening and a closing bracket, belong together?  `depth`
brackets are open in front of the text. -/
def closesAtEnd (depth : Int) : List Char → Bool
  | [] => depth == 0
  | '(' :: rest => closesAtEnd (depth + 1) rest
  | ')' :: rest => if depth == 1 && !rest.isEmpty then false else closesAtEnd (depth - 1) rest
  | _ :: rest => closesAtEnd depth rest

/-- The text between a pair of brackets that encloses all of it, or the text itself. -/
def withoutBrackets (cs : List Char) : List Char :=
  if cs.head? == some '(' && cs.getLast? == some ')' && closesAtEnd 0 cs then (cs.drop 1).dropLast
  else cs

/-- A condition in the target language. -/
def renderCondition (t : Target) (cs : List Char) : List Char :=
  tokensText t true none (tokens (withoutBrackets (Text.trim cs)))

end Pseudoscribe.Expression
