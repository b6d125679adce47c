import Pseudoscribe.Block.Basic

/-!
# Issues

What can be wrong with the structure of a text, and where.  An issue never stops the reading of a
text: reading goes on as well as it can and hands the issues back with its result.
-/

namespace Pseudoscribe

/-- A place in a text; lines and columns count from 1. -/
structure Place where
  line : Nat
  column : Nat
deriving DecidableEq, Repr, Inhabited

/-- The two kinds of brackets that are matched within and across lines. -/
inductive Bracket where
  | round
  | square
deriving DecidableEq, Repr, Inhabited

namespace Bracket

def opener : Bracket → Char
  | round => '('
  | square => '['

def closer : Bracket → Char
  | round => ')'
  | square => ']'

def ofOpener? : Char → Option Bracket
  | '(' => some round
  | '[' => some square
  | _ => none

def ofCloser? : Char → Option Bracket
  | ')' => some round
  | ']' => some square
  | _ => none

theorem ofOpener?_opener (b : Bracket) : ofOpener? b.opener = some b := by cases b <;> rfl

theorem ofCloser?_closer (b : Bracket) : ofCloser? b.closer = some b := by cases b <;> rfl

end Bracket

/-- What is wrong. -/
inductive Fault where
  /-- a closing bracket that does not fit the bracket opened last -/
  | mismatchedCloser (closer opener : Bracket) (opened : Place)
  | unmatchedCloser (closer : Bracket)
  | unclosedBracket (opener : Bracket)
  | unterminatedString
  | unterminatedLongString
  | unterminatedComment
  /-- nothing is indented under the header on this line -/
  | expectedIndentedBlock (header : Nat)
  | strayCloser (kind : Option BlockKind)
  | notClosedBefore (kind : BlockKind) (opened closer : Nat)
  | neverClosed (kind : BlockKind) (opened : Nat)
  | emptyCode
  | mixedIndentation
  | unmatchedBrace
  | unclosedBrace
  /-- a line of code that still reads as pseudocode -/
  | leftoverPseudocode (text : List Char)
deriving DecidableEq, Repr

namespace Fault

def message : Fault → String
  | mismatchedCloser closer opener opened =>
    s!"mismatched '{closer.closer}', expected closer for '{opener.opener}' opened at " ++
      s!"{opened.line}:{opened.column}"
  | unmatchedCloser closer => s!"unmatched '{closer.closer}'"
  | unclosedBracket opener => s!"unclosed '{opener.opener}'"
  | unterminatedString => "unterminated string literal"
  | unterminatedLongString => "unterminated multi-line string literal"
  | unterminatedComment => "unterminated block comment"
  | expectedIndentedBlock header => s!"expected an indented block after line {header}"
  | strayCloser (some kind) => s!"closer for {kind.name} block has no matching opener"
  | strayCloser none => "closer has no matching opener"
  | notClosedBefore kind opened closer =>
    s!"{kind.name} block opened at line {opened} was not closed before line {closer}"
  | neverClosed kind opened => s!"{kind.name} block opened at line {opened} is never closed"
  | emptyCode => "generated code is empty"
  | mixedIndentation => "indentation mixes tabs and spaces"
  | unmatchedBrace => "unmatched '\x7d'"
  | unclosedBrace => "unclosed '\x7b'"
  | leftoverPseudocode text =>
    "line looks like untranslated pseudocode: " ++ String.ofList text

end Fault

/-- Something wrong at a place. -/
structure Issue where
  place : Place
  fault : Fault
deriving DecidableEq, Repr

namespace Issue

def message (i : Issue) : String := i.fault.message

/-- The issue as one line: `line:column: message`. -/
def text (i : Issue) : String :=
  s!"{i.place.line}:{i.place.column}: {i.message}"

/-- The order in which issues are handed out: by line, then by column. -/
def notAfter (a b : Issue) : Bool :=
  a.place.line < b.place.line ||
    (a.place.line == b.place.line && a.place.column ≤ b.place.column)

/-- Issues by place; those of one place keep the order in which they were found. -/
def sorted (is : List Issue) : List Issue :=
  is.mergeSort notAfter

end Issue

end Pseudoscribe
