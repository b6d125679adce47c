import Pseudoscribe.Block.Shape
import Pseudoscribe.Language
import Pseudoscribe.Scan.Scanner

/-!
# Reviewing generated code

A look at the structure of generated code: indentation, braces, brackets and literals, and lines that still
read as pseudocode.  What is found is reported as warnings and stops nothing.
-/

namespace Pseudoscribe

/-- The state of a review between two lines. -/
structure Review where
  /-- the language marks blocks by indentation -/
  indented : Bool
  scanner : Scanner
  /-- the braces that are open, innermost first -/
  braces : List Place := []
  /-- line and indentation of a header that waits for its indented body -/
  pending : Option (Nat × Nat) := none
  issues : Array Issue := #[]

namespace Review

/-- Keywords of pseudocode that generated code does not begin a line with. -/
def leftoverWords : List String :=
  ["ENDIF", "ENDWHILE", "ENDFOR", "ENDFUNCTION", "ENDPROCEDURE", "PROCEDURE", "ALGORITHM",
    "REPEAT", "UNTIL", "DISPLAY", "OUTPUT", "FOREACH"]

/-- Does a line of masked code still read as pseudocode?  Only capitals count, so that a variable
named `output` is left alone. -/
def isLeftover (masked : List Char) : Bool :=
  let word := String.ofList (LineShape.leadingWord masked)
  word ∈ leftoverWords ||
    (word == "IF" && Text.endsWith " THEN".toList (Text.trim masked)) ||
    word == "END" || "END_".toList.isPrefixOf word.toList

def note (r : Review) (issue : Issue) : Review := { r with issues := r.issues.push issue }

/-- The complaint about a header without an indented body. -/
def missingBody (header : Nat × Nat) : Issue :=
  ⟨⟨header.1, header.2 + 1⟩, .expectedIndentedBlock header.1⟩

/-- Look at a line of a language whose blocks are marked by indentation. -/
def checkIndent (r : Review) (line : ScannedLine) : Review :=
  let noted := match r.pending with
    | some header => if line.indent ≤ header.2 then r.note (missingBody header) else r
    | none => r
  let waits := (Text.trimEnd line.masked).getLast? == some ':'
  { noted with pending := if waits then some (line.number, line.indent) else none }

/-- Look at one character of a line of a language whose blocks are marked by braces. -/
def checkBrace (line : Nat) (r : Review) (column : Nat) (c : Char) : Review :=
  if c == '{' then { r with braces := ⟨line, column⟩ :: r.braces }
  else if c == '}' then
    match r.braces with
    | [] => r.note ⟨⟨line, column⟩, .unmatchedBrace⟩
    | _ :: rest => { r with braces := rest }
  else r

/-- Look at the characters of a line from the given column on. -/
def checkBraces (line : Nat) (r : Review) (column : Nat) : List Char → Review
  | [] => r
  | c :: cs => checkBraces line (checkBrace line r column c) (column + 1) cs

/-- Look at a line of code. -/
def check (r : Review) (line : ScannedLine) : Review :=
  let r := if line.mixedIndent then r.note ⟨⟨line.number, 1⟩, .mixedIndentation⟩ else r
  let r := if r.indented then r.checkIndent line else checkBraces line.number r 1 line.masked
  if isLeftover line.masked then
    r.note ⟨⟨line.number, line.indent + 1⟩, .leftoverPseudocode (Text.trim line.masked)⟩
  else r

/-- Read the next line. -/
def feed (r : Review) (raw : List Char) : Review :=
  let (line, scanner) := r.scanner.feed raw
  let r := { r with scanner }
  if line.startsInLiteral || line.isBlank then r else r.check line

/-- All issues of a review that ends here. -/
def finish (r : Review) : List Issue :=
  Issue.sorted
    (r.issues.toList ++ (r.pending.map missingBody).toList ++
      r.braces.reverse.map (⟨·, .unclosedBrace⟩) ++ r.scanner.finish)

/-- Review code of a language. -/
def ofCode (language : Language) (code : List Char) : List Issue :=
  if Text.isBlank code then [⟨⟨1, 1⟩, .emptyCode⟩]
  else
    let start : Review :=
      { indented := language.isIndented, scanner := { style := .ofMark language.commentMark } }
    ((Text.lines code).foldl feed start).finish

end Review

end Pseudoscribe
