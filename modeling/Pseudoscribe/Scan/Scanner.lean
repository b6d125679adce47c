import Pseudoscribe.Issue
import Pseudoscribe.Text.Lines

/-!
# Scanning lines

A scanner reads a text line by line.  Of each line it keeps the *masked* text, in which the inside
of string literals is replaced by underscores and comments are left out; whatever is looked for
afterwards (keywords, braces, colons) is looked for in the masked text and so never found in a string
or a comment.  Across lines it carries the mode it is in and the brackets that are open.
-/

/-!
## What the scanner is inside of

Which marks begin a comment depends on the text.  Pseudocode knows all three; generated code only those of its language.

Between two characters a scanner stands in code, in a string literal or in a block comment.  The
literals that may run over several lines keep this mode from one line to the next.
-/

namespace Pseudoscribe

/-! ## Comment styles -/

/-- The comment marks that a text knows. -/
structure CommentStyle where
  /-- `#` up to the end of the line -/
  hash : Bool
  /-- two slashes up to the end of the line, and a slash and a star up to a star and a slash -/
  slash : Bool
  /-- two dashes between blanks, up to the end of the line -/
  dash : Bool
deriving DecidableEq, Repr

namespace CommentStyle

/-- In pseudocode every kind of comment may occur. -/
def pseudocode : CommentStyle := ⟨true, true, true⟩

/-- The comments of a language whose line comments begin with this mark. -/
def ofMark : String → CommentStyle
  | "#" => ⟨true, false, false⟩
  | "--" => ⟨false, false, true⟩
  | _ => ⟨false, true, false⟩

end CommentStyle

/-! ## Modes -/

/-- The quotation marks of a string literal. -/
inductive Quote where
  | double
  | single
  | tripleDouble
  | tripleSingle
  | backtick
deriving DecidableEq, Repr

namespace Quote

/-- The mark that opens such a literal, and that closes it. -/
def mark : Quote → List Char
  | double => ['"']
  | single => ['\x27']
  | tripleDouble => ['"', '"', '"']
  | tripleSingle => ['\x27', '\x27', '\x27']
  | backtick => ['\x60']

/-- May such a literal run over the end of a line? -/
def spansLines : Quote → Bool
  | double | single => false
  | tripleDouble | tripleSingle | backtick => true

theorem mark_ne_nil (q : Quote) : q.mark ≠ [] := by cases q <;> simp [mark]

end Quote

/-- What the scanner is inside of. -/
inductive ScanMode where
  | code
  /-- a string literal, opened at this place -/
  | literal (quote : Quote) (opened : Place)
  /-- a block comment, opened at this place -/
  | comment (opened : Place)
deriving DecidableEq, Repr

namespace ScanMode

def isCode : ScanMode → Bool
  | code => true
  | _ => false

end ScanMode

/-! ## Lines -/

/-- A bracket that is still open. -/
structure OpenBracket where
  bracket : Bracket
  place : Place
deriving DecidableEq, Repr

/-- What is known of one line after it was scanned. -/
structure ScannedLine where
  /-- number of the line, from 1 -/
  number : Nat
  /-- the code of the line: inside of literals as underscores, without comments -/
  masked : List Char
  /-- width of the indentation, a tab counting four -/
  indent : Nat
  /-- the line begins inside a literal or a block comment -/
  startsInLiteral : Bool
  /-- the line ends inside a literal or a block comment -/
  endsInLiteral : Bool
  /-- brackets open at the end of the line -/
  openBrackets : Nat
  /-- the indentation has both tabs and spaces -/
  mixedIndent : Bool
deriving DecidableEq, Repr

namespace ScannedLine

/-- No code is left of the line. -/
def isBlank (l : ScannedLine) : Bool :=
  !l.startsInLiteral && Text.isBlank l.masked

/-- May the text be cut after this line, without cutting a literal or a pair of brackets? -/
def safeAfter (l : ScannedLine) : Bool :=
  !l.endsInLiteral && l.openBrackets == 0

end ScannedLine

/-- The state of a scan between two characters. -/
structure Scanner where
  style : CommentStyle
  mode : ScanMode := .code
  /-- the open brackets, innermost first -/
  brackets : List OpenBracket := []
  /-- the number of the line that was read last -/
  line : Nat := 0
  issues : Array Issue := #[]
deriving DecidableEq, Repr

/-- What the scanner does at a character. -/
inductive ScanStep where
  /-- a line comment begins: the rest of the line is no code -/
  | stop
  /-- pass over this character and `extra` more, which give the text `mask` -/
  | pass (extra : Nat) (mask : List Char) (next : Scanner)

namespace Scanner

/-- Does a line comment begin at the character `c`, between `prev` and `rest`? -/
def startsComment (style : CommentStyle) (prev : Option Char) (c : Char) (rest : List Char) : Bool :=
  if style.hash && c == '#' then true
  else if style.slash && ['/', '/'].isPrefixOf (c :: rest) then true
  else if style.dash && ['-', '-'].isPrefixOf (c :: rest) then
    prev.all Text.isSpace && (rest.drop 1).head?.all Text.isSpace
  else false

/-- The literal that begins at the character `c`, if one does.  An apostrophe between two letters or
numerals, as in `don't`, begins none. -/
def quoteAt (prev : Option Char) (c : Char) (rest : List Char) : Option Quote :=
  if Quote.tripleDouble.mark.isPrefixOf (c :: rest) then some .tripleDouble
  else if Quote.tripleSingle.mark.isPrefixOf (c :: rest) then some .tripleSingle
  else if c == '"' then some .double
  else if c == '\x60' then some .backtick
  else if c == '\x27' then
    if prev.any Text.isAlnum && rest.head?.any Text.isAlnum then none else some .single
  else none

/-- The brackets and the complaint after a character of code.  A closing bracket takes the
innermost open bracket away even when the two do not fit. -/
def matchBracket (brackets : List OpenBracket) (place : Place) (c : Char) :
    List OpenBracket × Option Issue :=
  match Bracket.ofOpener? c with
  | some b => (⟨b, place⟩ :: brackets, none)
  | none =>
    match Bracket.ofCloser? c with
    | none => (brackets, none)
    | some b =>
      match brackets with
      | [] => ([], some ⟨place, .unmatchedCloser b⟩)
      | o :: rest =>
        if o.bracket = b then (rest, none)
        else (rest, some ⟨place, .mismatchedCloser b o.bracket o.place⟩)

/-- Put an issue, if there is one, to those found so far. -/
def note (s : Scanner) (issue : Option Issue) : Scanner :=
  match issue with
  | some i => { s with issues := s.issues.push i }
  | none => s

/-- What to do at the character `c` in the given column, between `prev` and `rest`. -/
def step (s : Scanner) (prev : Option Char) (column : Nat) (c : Char) (rest : List Char) : ScanStep :=
  let place : Place := ⟨s.line, column⟩
  match s.mode with
  | .literal quote _ =>
    if c == '\\' && !quote.spansLines then .pass 1 ['_', '_'] s
    else if quote.mark.isPrefixOf (c :: rest) then
      .pass (quote.mark.length - 1) quote.mark { s with mode := .code }
    else .pass 0 ['_'] s
  | .comment _ =>
    if ['*', '/'].isPrefixOf (c :: rest) then .pass 1 [] { s with mode := .code }
    else .pass 0 [] s
  | .code =>
    if startsComment s.style prev c rest then .stop
    else if s.style.slash && ['/', '*'].isPrefixOf (c :: rest) then
      .pass 1 [] { s with mode := .comment place }
    else match quoteAt prev c rest with
      | some quote =>
        .pass (quote.mark.length - 1) quote.mark { s with mode := .literal quote place }
      | none =>
        let (brackets, issue) := matchBracket s.brackets place c
        .pass 0 [c] ({ s with brackets }.note issue)

/-- Scan the rest of a line: its masked text and the scanner behind it.  The first `skip`
characters belong to a mark that was already read. -/
def consume (s : Scanner) (skip : Nat) (prev : Option Char) (column : Nat) :
    List Char → List Char × Scanner
  | [] => ([], s)
  | c :: rest =>
    match skip with
    | k + 1 => consume s k (some c) (column + 1) rest
    | 0 =>
      match s.step prev column c rest with
      | .stop => ([], s)
      | .pass extra mask next =>
        let r := consume next extra (some c) (column + 1) rest
        (mask ++ r.1, r.2)

/-- At the end of a line a literal that may not go on is reported and given up. -/
def endLine (s : Scanner) : Scanner :=
  match s.mode with
  | .literal quote opened =>
    if quote.spansLines then s
    else { s with mode := .code }.note (some ⟨opened, .unterminatedString⟩)
  | _ => s

/-- Width of the indentation of a line, and whether it has both tabs and spaces. -/
def indentation (cs : List Char) : Nat × Bool :=
  let lead := cs.takeWhile fun c => c == ' ' || c == '\t'
  (lead.foldl (fun w c => w + if c == '\t' then 4 else 1) 0, lead.contains ' ' && lead.contains '\t')

/-- Scan the next line. -/
def feed (s : Scanner) (raw : List Char) : ScannedLine × Scanner :=
  let cs := Text.dropLineEnds raw
  let start := { s with line := s.line + 1 }
  let (masked, behind) := start.consume 0 none 1 cs
  let last := behind.endLine
  let (indent, mixedIndent) := indentation cs
  ({ number := last.line
     masked
     indent
     startsInLiteral := !s.mode.isCode
     endsInLiteral := !last.mode.isCode
     openBrackets := last.brackets.length
     mixedIndent },
   last)

/-- Scan lines one after the other. -/
def feedAll (s : Scanner) : List (List Char) → List ScannedLine × Scanner
  | [] => ([], s)
  | raw :: raws =>
    let (l, s') := s.feed raw
    let (ls, s'') := s'.feedAll raws
    (l :: ls, s'')

/-- What is wrong at the end of a text: a literal or comment that goes on, then the brackets still
open, outermost first. -/
def endIssues (s : Scanner) : List Issue :=
  (match s.mode with
    | .code => []
    | .literal _ opened => [⟨opened, .unterminatedLongString⟩]
    | .comment opened => [⟨opened, .unterminatedComment⟩]) ++
  s.brackets.reverse.map fun o => ⟨o.place, .unclosedBracket o.bracket⟩

/-- All issues of a scan that ends here, in the order in which they were found. -/
def finish (s : Scanner) : List Issue :=
  s.issues.toList ++ s.endIssues

end Scanner

/-- Scan a whole text. -/
def scan (style : CommentStyle) (text : List Char) : List ScannedLine × List Issue :=
  let (ls, s) := ({ style } : Scanner).feedAll (Text.lines text)
  (ls, s.finish)

end Pseudoscribe
