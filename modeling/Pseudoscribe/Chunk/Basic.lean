import Pseudoscribe.Json.Record
import Pseudoscribe.Text.Trim

/-!
# Chunks

A source text is converted in chunks, consecutive ranges of whole lines.  The texts of the chunks, one after
the other, are the source text.
-/

namespace Pseudoscribe

/-- What a chunk is made of. -/
inductive ChunkKind where
  /-- whole blocks, and the loose lines between them -/
  | wholeBlock
  /-- a part of a block that was too long -/
  | partialBlock
  /-- loose lines alone -/
  | leftoverFragment
deriving DecidableEq, Repr, Inhabited

namespace ChunkKind

def name : ChunkKind → String
  | wholeBlock => "whole_block"
  | partialBlock => "partial_block"
  | leftoverFragment => "leftover_fragment"

def ofName? : String → Option ChunkKind
  | "whole_block" => some wholeBlock
  | "partial_block" => some partialBlock
  | "leftover_fragment" => some leftoverFragment
  | _ => none

theorem ofName?_name (k : ChunkKind) : ofName? k.name = some k := by cases k <;> rfl

end ChunkKind

/-- A range of lines of the source text. -/
structure Chunk where
  /-- place in the order of the chunks, from 0 -/
  index : Nat := 0
  text : String := ""
  kind : ChunkKind := .wholeBlock
  startLine : Nat := 1
  endLine : Nat := 1
  /-- the last lines of the chunk before, for a chunk that begins inside of something -/
  context : Option String := none
  /-- how many blocks the first line is inside of -/
  depth : Nat := 0
  /-- the last block goes on in the next chunk -/
  continues : Bool := false
deriving DecidableEq, Repr, Inhabited

namespace Chunk

/-- The number of lines; nothing for a range that ends before it begins. -/
def lineCount? (c : Chunk) : Option Nat :=
  if c.startLine ≤ c.endLine + 1 then some (c.endLine + 1 - c.startLine) else none

/-- Length in characters. -/
def length (c : Chunk) : Nat := c.text.length

def isBlank (c : Chunk) : Bool := Text.isBlank c.text.toList

/-! ## Chunks on the wire -/

def toJson (c : Chunk) : Json :=
  .obj [("index", .ofNat c.index), ("source_text", .str c.text), ("kind", .str c.kind.name),
    ("start_line", .ofNat c.startLine), ("end_line", .ofNat c.endLine),
    ("leading_context", .ofText? c.context), ("nesting_depth", .ofNat c.depth),
    ("continues", .bool c.continues)]

def ofJson? (j : Json) : Option Chunk := do
  let r ← j.record?
    [("index", .required), ("source_text", .required), ("kind", .required),
      ("start_line", .required), ("end_line", .required), ("leading_context", .defaulted),
      ("nesting_depth", .defaulted), ("continues", .defaulted)]
  let index ← r.read? "index" Json.asNat?
  let text ← r.read? "source_text" Json.asText?
  let kind ← r.read? "kind" fun j => j.word?.bind ChunkKind.ofName?
  let startLine ← r.read? "start_line" Json.asNat?
  let endLine ← r.read? "end_line" Json.asNat?
  let context ← r.readOr? "leading_context" none (Json.optional? Json.asText?)
  let depth ← r.readOr? "nesting_depth" 0 Json.asNat?
  let continues ← r.readOr? "continues" false Json.asBool?
  pure { index, text, kind, startLine, endLine, context, depth, continues }

end Chunk

end Pseudoscribe
