/-!
# Blocks

A block is a header line, the lines up to its end and the blocks inside.  Its extent is marked by a closing keyword, by
braces or by indentation.  A text's blocks form a forest.
-/

namespace Pseudoscribe

/-! ## Kinds and styles -/

/-- What a block is. -/
inductive BlockKind where
  | function
  /-- a class, structure, interface or record -/
  | record
  | loop
  | conditional
  /-- any other group of lines -/
  | generic
deriving DecidableEq, Repr, Inhabited

namespace BlockKind

def name : BlockKind → String
  | function => "function"
  | record => "class"
  | loop => "loop"
  | conditional => "conditional"
  | generic => "generic"

/-- The kind of block that a keyword opens, in any mixture of capitals and small letters. -/
def ofKeyword? (word : String) : Option BlockKind :=
  let w := word.map Char.toUpper
  if w ∈ ["FUNCTION", "FUNC", "PROCEDURE", "ALGORITHM", "DEF", "METHOD", "FN", "SUBROUTINE"] then
    some function
  else if w ∈ ["CLASS", "STRUCT", "INTERFACE", "RECORD"] then some record
  else if w ∈ ["FOR", "FOREACH", "WHILE", "REPEAT", "LOOP", "DO"] then some loop
  else if w ∈ ["IF", "SWITCH", "MATCH"] then some conditional
  else if w ∈ ["BEGIN", "TRY", "WITH"] then some generic
  else none

end BlockKind

/-- How the extent of a block is marked. -/
inductive BlockStyle where
  /-- a closing keyword such as `END IF` -/
  | keyword
  /-- a brace at the end of the header, a brace at the start of the closing line -/
  | brace
  /-- a colon at the end of the header; the block ends where the indentation does -/
  | indent
deriving DecidableEq, Repr, Inhabited

namespace BlockStyle

def name : BlockStyle → String
  | keyword => "keyword"
  | brace => "brace"
  | indent => "indent"

end BlockStyle

/-! ## Blocks and their extents -/

/-- A block and the blocks inside it, in the order of their lines. -/
structure Block where
  kind : BlockKind
  style : BlockStyle
  /-- the header line, shortened when it is long -/
  header : String
  startLine : Nat
  endLine : Nat
  /-- ended by a closer, or by the end of its indentation -/
  closed : Bool
  children : List Block
deriving Repr

/-- The extent of a block. -/
structure Span where
  kind : BlockKind
  startLine : Nat
  endLine : Nat
deriving DecidableEq, Repr

namespace Block

def span (b : Block) : Span := ⟨b.kind, b.startLine, b.endLine⟩

/-- The line belongs to the block and is not its header. -/
def isInside (b : Block) (line : Nat) : Bool :=
  b.startLine < line && line ≤ b.endLine

mutual

/-- How many blocks the line is inside of, this block included. -/
def depthAt (line : Nat) : Block → Nat
  | b@⟨_, _, _, _, _, _, children⟩ => (if b.isInside line then 1 else 0) + forestDepthAt line children

/-- How many blocks of a forest the line is inside of. -/
def forestDepthAt (line : Nat) : List Block → Nat
  | [] => 0
  | b :: bs => depthAt line b + forestDepthAt line bs

end

mutual

/-- The last lines of the outermost blocks that lie strictly between the lines `first` and `last`. -/
def endsWithin (first last : Nat) : Block → List Nat
  | ⟨_, _, _, startLine, endLine, _, children⟩ =>
    if endLine < first || last < startLine then []
    else if first < startLine && endLine < last then [endLine]
    else forestEndsWithin first last children

/-- The same for a forest. -/
def forestEndsWithin (first last : Nat) : List Block → List Nat
  | [] => []
  | b :: bs => endsWithin first last b ++ forestEndsWithin first last bs

end

end Block

end Pseudoscribe
