import Pseudoscribe.Code.Form
import Pseudoscribe.Scan.Scanner

/-!
# Emitting code

The emitter turns one line after the other into code.  It keeps a frame for every block that is open;
the frames that stand for a block of the code set the indentation, while groups, which the target
language does not know, leave it as it is.
-/

namespace Pseudoscribe

/-- What an open frame stands for. -/
inductive FrameKind where
  | block (kind : BlockKind)
  /-- a loop that tests at its end -/
  | loopUntil
  /-- a block that was opened in a chunk before -/
  | inherited
  /-- lines that belong together and are no block of the code -/
  | group
deriving DecidableEq, Repr

/-- A block that is open. -/
structure Frame where
  kind : FrameKind
  style : BlockStyle
  indent : Nat
  /-- the block has a statement already -/
  hasBody : Bool
deriving DecidableEq, Repr

namespace Frame

def isGroup (f : Frame) : Bool := f.kind == .group

/-- A block that was opened in a chunk before. -/
def inherited : Frame := ⟨.inherited, .keyword, 0, true⟩

/-- Does a line of this indentation end the block? -/
def endsAt (f : Frame) (indent : Nat) (continuation : Bool) : Bool :=
  f.style == .indent && (if continuation then indent < f.indent else indent ≤ f.indent)

/-- Does a closer of this kind fit the frame? -/
def fits (kind : Option BlockKind) (f : Frame) : Bool :=
  f.style != .indent &&
  match kind, f.kind with
  | _, .inherited => true
  | none, _ => true
  | some k, .block k' => k == k'
  | some .loop, .loopUntil => true
  | some k, .group => k == .generic
  | some _, .loopUntil => false

end Frame

/-- The state of an emitter between two lines. -/
structure Emitter where
  target : Target
  /-- blanks per level of indentation -/
  width : Nat
  /-- the open frames, innermost first -/
  stack : List Frame := []
  /-- names that the code has declared -/
  declared : List String := []
  /-- the lines of code so far -/
  out : Array (List Char) := #[]
deriving Repr

namespace Emitter

/-- The level of indentation of the next statement. -/
def depth (e : Emitter) : Nat := (e.stack.filter (!·.isGroup)).length

/-- Add a line as it is. -/
def emit (e : Emitter) (line : List Char) : Emitter := { e with out := e.out.push line }

/-- Add a line at a level of indentation. -/
def emitAt (e : Emitter) (depth : Nat) (text : List Char) : Emitter :=
  e.emit (List.replicate (depth * e.width) ' ' ++ text)

/-- Note that the innermost block of the code has a statement. -/
def markBody : List Frame → List Frame
  | [] => []
  | f :: fs => if f.isGroup then f :: markBody fs else { f with hasBody := true } :: fs

/-- Add a statement. -/
def statement (e : Emitter) (text : List Char) : Emitter :=
  { e with stack := markBody e.stack }.emitAt e.depth text

/-- Add a frame. -/
def push (e : Emitter) (kind : FrameKind) (style : BlockStyle) (indent : Nat) : Emitter :=
  { e with stack := ⟨kind, style, indent, false⟩ :: e.stack }

/-- What is written where a frame ends, one level further out than its statements. -/
def closing (e : Emitter) (f : Frame) : Emitter :=
  if f.isGroup then e
  else match e.target with
    | .python => if f.hasBody then e else e.emitAt (e.depth + 1) "pass".toList
    | .javascript =>
      e.emitAt e.depth (if f.kind = .loopUntil then Form.endlessCloser else Form.closer)

/-- End the innermost frame. -/
def pop (e : Emitter) : Emitter :=
  match e.stack with
  | [] => e
  | f :: fs => { e with stack := fs }.closing f

/-- End the innermost frames. -/
def popMany : Nat → Emitter → Emitter
  | 0, e => e
  | count + 1, e => popMany count e.pop

/-- End the frames that a line of this indentation ends. -/
def dedent (e : Emitter) (indent : Nat) (continuation : Bool) : Emitter :=
  popMany (e.stack.takeWhile (·.endsAt indent continuation)).length e

/-- End the innermost frame, a loop, with its test. -/
def popUntil (e : Emitter) (test : List Char) : Emitter :=
  let test := Expression.renderCondition e.target test
  match e.target with
  | .python =>
    let e := (e.emitAt e.depth (Form.coloned "if" test)).emitAt (e.depth + 1) "break".toList
    { e with stack := e.stack.drop 1 }
  | .javascript =>
    let e := { e with stack := e.stack.drop 1 }
    e.emitAt e.depth (Form.untilCloser test)

/-- The test of a line that ends a loop with `UNTIL`. -/
def untilTest? (code : List Char) : Option (List Char) :=
  if Text.isWord "UNTIL" (code.take 5) then some (Text.trim (code.drop 5)) else none

/-- A line that closes a block.  A closer that fits nothing leaves no trace. -/
def close (e : Emitter) (kind : Option BlockKind) (code : List Char) : Emitter :=
  let loop := e.stack.findIdx? fun f => f.kind == .loopUntil
  match untilTest? code, loop with
  | some test, some above => (popMany above e).popUntil test
  | _, _ =>
    match e.stack.findIdx? (·.fits kind) with
    | some above => popMany (above + 1) e
    | none => e

/-- A line that carries a block on; `false` if it says nothing known or no block is open. -/
def carryOn (e : Emitter) (code : List Char) : Bool × Emitter :=
  match Form.continuation e.target (Continuation.ofCode code), e.stack with
  | some line, f :: fs =>
    let depth := e.depth - 1
    let filled :=
      if e.target = .python && !f.hasBody then e.emitAt (depth + 1) "pass".toList else e
    (true, { filled.emitAt depth line with stack := { f with hasBody := false } :: fs })
  | _, _ => (false, e)

/-- Declare names. -/
def declare (e : Emitter) (names : List String) : Emitter :=
  { e with declared := names ++ e.declared }

/-- A line that opens a block; `false` if its header says nothing known, and then it is kept as a
comment and its lines stay together as a group. -/
def opens (e : Emitter) (code : List Char) (kind : BlockKind) (style : BlockStyle) (indent : Nat) :
    Bool × Emitter :=
  let text := Header.strip code
  let header := Header.ofText kind text
  match header, Form.header e.target header with
  | .group, _ => (true, e.push .group style indent)
  | _, none => (false, (e.statement (e.target.comment text)).push .group style indent)
  | _, some line =>
    let frame := if header = .loopUntil then FrameKind.loopUntil else .block kind
    (true, ((e.declare header.declares).statement line).push frame style indent)

/-- A plain line; `false` if it says nothing known, and then it is kept as a comment. -/
def plain (e : Emitter) (code : List Char) : Bool × Emitter :=
  let text := Statement.strip code
  let s := Statement.ofCode text
  let new? :=
    if e.target = .javascript then
      ((Form.newName? s).map String.ofList).filter (!e.declared.contains ·)
    else none
  match s, Form.statement e.target new?.isSome s with
  | .unknown, _ => (false, e.statement (e.target.comment text))
  | _, none => (true, e)
  | _, some line => (true, (e.declare new?.toList).statement line)

/-- Drop the marks that end a block comment, from a text that is read backwards. -/
def dropCommentEnds : List Char → List Char
  | '/' :: '*' :: rest => dropCommentEnds rest
  | cs => cs

/-- The text of a comment without its marks. -/
def commentText (cs : List Char) : List Char :=
  let behind :=
    (Text.dropBeginning? ['/', '/'] cs).or <|
    (Text.dropBeginning? ['#'] cs).or <|
    (Text.dropBeginning? ['-', '-'] cs).or <|
    Text.dropBeginning? ['/', '*'] cs
  match behind with
  | some text => Text.trim (dropCommentEnds text.reverse).reverse
  | none => cs

/-- Emit a line that holds more than blanks; `false` if it says nothing known. -/
def line (e : Emitter) (scanned : ScannedLine) (raw : List Char) : Bool × Emitter :=
  let trimmed := Text.trim raw
  let shape := LineShape.ofLine scanned.masked
  let e := e.dedent scanned.indent shape.isContinuation
  let masked := Text.trim scanned.masked
  if masked.isEmpty then
    (true, e.statement (Text.trimEnd (e.target.comment (commentText trimmed))))
  else
    let code := trimmed.take masked.length
    match shape with
    | .closes kind _ => (true, e.close kind code)
    | .continues _ => e.carryOn code
    | .opens kind style => e.opens code kind style scanned.indent
    | .plain => e.plain code

end Emitter

end Pseudoscribe
