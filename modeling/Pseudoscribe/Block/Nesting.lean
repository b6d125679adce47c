import Pseudoscribe.Block.Basic
import Pseudoscribe.Block.Shape
import Pseudoscribe.Scan.Scanner

/-!
# Nesting

The blocks that are open while a text is read.  A closer takes the innermost open block it fits, and
with it every block opened later; an indented block ends at the first line that is not indented further
than its header.

The outline of a text is its forest of blocks, and says after which lines it may be cut.  A blank text has
no outline.  Any other text has one, whatever its faults.
-/

namespace Pseudoscribe

/-- A block that is still open. -/
structure OpenBlock where
  kind : BlockKind
  style : BlockStyle
  header : String
  startLine : Nat
  indent : Nat
  /-- the blocks inside that have ended -/
  children : List Block
deriving Repr

namespace OpenBlock

/-- The block, ended at a line; it never ends before its header. -/
def close (o : OpenBlock) (endLine : Nat) (closed : Bool) : Block :=
  { kind := o.kind
    style := o.style
    header := o.header
    startLine := o.startLine
    endLine := max endLine o.startLine
    closed
    children := o.children }

/-- Where complaints about the block point to. -/
def place (o : OpenBlock) : Place := ⟨o.startLine, o.indent + 1⟩

/-- Does a line of this indentation end the block?  A continuation such as `else:` stands as deep as
the header itself. -/
def endsAt (o : OpenBlock) (indent : Nat) (continuation : Bool) : Bool :=
  o.style == .indent && (if continuation then indent < o.indent else indent ≤ o.indent)

/-- Does a closer of this kind and style fit the block?  Braces close braces, words close words. -/
def fits (o : OpenBlock) (kind : Option BlockKind) (style : BlockStyle) : Bool :=
  o.style == (if style = .brace then .brace else .keyword) && kind.all (· == o.kind)

end OpenBlock

/-- The open blocks of a text that was read up to some line, and the blocks that have ended. -/
structure Nesting where
  /-- the open blocks, innermost first -/
  stack : List OpenBlock := []
  roots : List Block := []
  issues : Array Issue := #[]
  /-- the last line that held code -/
  lastCode : Nat := 0
deriving Repr

namespace Nesting

/-- End the innermost open block and hand it to the block around it. -/
def pop (n : Nesting) (endLine : Nat) (closed : Bool) : Nesting :=
  match n.stack with
  | [] => n
  | [o] => { n with stack := [], roots := n.roots ++ [o.close endLine closed] }
  | o :: parent :: rest =>
    { n with
      stack := { parent with children := parent.children ++ [o.close endLine closed] } :: rest }

/-- End the innermost `count` open blocks at the last line of code.  Blocks marked by indentation
are closed by that; `complain` says what is to be noted about a block. -/
def popMany (complain : OpenBlock → Option Issue) : Nat → Nesting → Nesting
  | 0, n => n
  | count + 1, n =>
    match n.stack with
    | [] => n
    | o :: _ =>
      let noted := match complain o with
        | some i => { n with issues := n.issues.push i }
        | none => n
      popMany complain count (noted.pop n.lastCode (o.style == .indent))

/-- The complaint about a block marked by indentation in which no line follows the header. -/
def emptyBody (lastCode : Nat) (o : OpenBlock) : Option Issue :=
  if lastCode = o.startLine then some ⟨o.place, .expectedIndentedBlock o.startLine⟩ else none

/-- The complaint about a block that a closer further out ends. -/
def cutOff (line : Nat) (o : OpenBlock) : Option Issue :=
  if o.style = .indent then none else some ⟨o.place, .notClosedBefore o.kind o.startLine line⟩

/-- The complaint about a block that is open at the end of the text. -/
def leftOpen (lastCode : Nat) (o : OpenBlock) : Option Issue :=
  if o.style = .indent then emptyBody lastCode o
  else some ⟨o.place, .neverClosed o.kind o.startLine⟩

/-- End the indented blocks that a line of this indentation ends. -/
def dedent (n : Nesting) (indent : Nat) (continuation : Bool) : Nesting :=
  popMany (emptyBody n.lastCode) (n.stack.takeWhile (·.endsAt indent continuation)).length n

/-- A closer at the given line. -/
def close (n : Nesting) (line : Nat) (kind : Option BlockKind) (style : BlockStyle) : Nesting :=
  match n.stack.findIdx? (·.fits kind style) with
  | none => { n with issues := n.issues.push ⟨⟨line, 1⟩, .strayCloser kind⟩ }
  | some above => (popMany (cutOff line) above n).pop line true

/-- The header of a block as it is kept: trimmed, and cut at 77 characters when it has more than 80. -/
def headerText (raw : List Char) : String :=
  let t := Text.trim raw
  String.ofList (if 80 < t.length then t.take 77 ++ "...".toList else t)

/-- What a line of this shape does to the open blocks. -/
def enter (n : Nesting) (line : ScannedLine) (raw : List Char) : LineShape → Nesting
  | .plain => n
  | .continues _ => n
  | .opens kind style =>
    { n with
      stack := ⟨kind, style, headerText raw, line.number, line.indent, []⟩ :: n.stack }
  | .closes kind style => n.close line.number kind style

/-- Read a line.  Lines inside a literal count as code and have no structure. -/
def feed (n : Nesting) (line : ScannedLine) (raw : List Char) : Nesting :=
  if line.startsInLiteral then { n with lastCode := line.number }
  else if line.isBlank then n
  else
    let shape := LineShape.ofLine line.masked
    let entered := (n.dedent line.indent shape.isContinuation).enter line raw shape
    { entered with lastCode := line.number }

/-- Read lines one after the other. -/
def feedAll (n : Nesting) (lines : List (ScannedLine × List Char)) : Nesting :=
  lines.foldl (fun n l => n.feed l.1 l.2) n

/-- End the text: blocks still open reach to the last line of code. -/
def finish (n : Nesting) : Nesting :=
  popMany (leftOpen n.lastCode) n.stack.length n

end Nesting

/-! ## Outlines -/

/-- The structure of a text that is not blank. -/
structure Outline where
  blocks : List Block
  lines : List ScannedLine
deriving Repr

namespace Outline

/-- Read a text: its outline and its issues by place. -/
def ofText (text : List Char) : Option Outline × List Issue :=
  if Text.isBlank text then (none, [])
  else
    let raws := Text.lines text
    let (scanned, scanIssues) := scan .pseudocode text
    let nesting := (({} : Nesting).feedAll (scanned.zip raws)).finish
    (some ⟨nesting.roots, scanned⟩, Issue.sorted (scanIssues ++ nesting.issues.toList))

def lineCount (o : Outline) : Nat := o.lines.length

/-- May the text be cut after this line?  Outside of the text, always. -/
def isSafeAfter (o : Outline) (line : Nat) : Bool :=
  line == 0 || (o.lines[line - 1]?).all ScannedLine.safeAfter

/-- How many blocks the line is inside of; a block's header is not inside it. -/
def depthAt (o : Outline) (line : Nat) : Nat :=
  Block.forestDepthAt line o.blocks

/-- The extents of the outermost blocks. -/
def spans (o : Outline) : List Span :=
  o.blocks.map Block.span

/-- Where the outermost blocks strictly inside a range of lines end, in ascending order. -/
def innerEnds (o : Outline) (first last : Nat) : List Nat :=
  ((Block.forestEndsWithin first last o.blocks).mergeSort (· ≤ ·)).eraseDups

/-- The extents of the outermost blocks of a text. -/
def boundaries (text : List Char) : List Span :=
  match (ofText text).1 with
  | some o => o.spans
  | none => []

end Outline

end Pseudoscribe
