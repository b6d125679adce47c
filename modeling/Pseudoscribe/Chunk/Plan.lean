import Pseudoscribe.Block.Nesting
import Pseudoscribe.Chunk.Piece

/-!
# Planning chunks

The outermost blocks of a text and the loose lines between them are its units.  Units are packed into a
chunk as long as they fit; a unit that does not fit by itself is cut into pieces.  A text without blocks
is one unit.
-/

namespace Pseudoscribe

/-- The limits of a plan. -/
structure ChunkLimits where
  /-- greatest length of a chunk in characters -/
  maxSize : Nat := 2000
  /-- lines of the piece before that a piece carries as context -/
  overlap : Nat := 3
deriving DecidableEq, Repr

/-- A unit of packing: consecutive lines, with the lines inside that it is best cut after. -/
structure ChunkUnit where
  rows : List Row
  isBlock : Bool
  preferred : List Nat
deriving Repr

/-- A chunk before it has its number. -/
structure ChunkDraft where
  rows : List Row
  kind : ChunkKind
  context : Option String
  continues : Bool
deriving Repr

/-- Chunks in order, what is worth saying about them, and the issues of the text. -/
structure ChunkPlan where
  chunks : List Chunk := []
  warnings : List CutWarning := []
  issues : List Issue := []
deriving Repr

namespace ChunkPlan

/-- The lines of a text. -/
def rowsOf (outline : Option Outline) (text : List Char) : List Row :=
  (Text.pieces text).mapIdx fun i piece =>
    ⟨i + 1, piece, outline.all (·.isSafeAfter (i + 1))⟩

/-- The units of a text: blocks at the given extents, and the lines between and behind them. -/
def unitsOf (innerEnds : Nat → Nat → List Nat) : List Span → List Row → List ChunkUnit
  | [], rows => if rows.isEmpty then [] else [⟨rows, false, []⟩]
  | span :: spans, rows =>
    let before := rows.takeWhile (·.number < span.startLine)
    let rest := rows.dropWhile (·.number < span.startLine)
    let inside := rest.takeWhile (·.number ≤ span.endLine)
    let behind := rest.dropWhile (·.number ≤ span.endLine)
    (if before.isEmpty then [] else [⟨before, false, []⟩]) ++
      ⟨inside, true, innerEnds span.startLine span.endLine⟩ :: unitsOf innerEnds spans behind

/-- The last lines of a piece, as context for the next one; none if they are blank. -/
def contextOf (overlap : Nat) (piece : List Row) : Option String :=
  let context := Row.join (piece.drop (piece.length - overlap))
  if overlap = 0 || Text.isBlank context then none else some (String.ofList context)

/-- Chunks of the pieces of one unit.  `previous` is the piece before. -/
def draftPieces (overlap : Nat) (kind : ChunkKind) (previous : Option (List Row)) :
    List (List Row) → List ChunkDraft
  | [] => []
  | piece :: rest =>
    { rows := piece
      kind
      context := previous.bind (contextOf overlap)
      continues := kind == .partialBlock && !rest.isEmpty } ::
      draftPieces overlap kind (some piece) rest

/-- Cut a unit that is too long for one chunk. -/
def splitUnit (limits : ChunkLimits) (unit : ChunkUnit) : List ChunkDraft × List CutWarning :=
  let pieces := Piece.split limits.maxSize unit.preferred unit.rows
  let kind := if unit.isBlock then .partialBlock else .leftoverFragment
  (draftPieces limits.overlap kind none (pieces.map (·.1)), pieces.flatMap (·.2))

/-- A chunk of whole units. -/
def whole (rows : List Row) : List ChunkDraft :=
  if rows.isEmpty then [] else [⟨rows, .wholeBlock, none, false⟩]

/-- Pack units one after the other; `current` are the lines of the chunk that is being filled. -/
def pack (limits : ChunkLimits) (current : List Row) :
    List ChunkUnit → List ChunkDraft × List CutWarning
  | [] => (whole current, [])
  | unit :: units =>
    let size := Row.total unit.rows
    if !current.isEmpty && Row.total current + size ≤ limits.maxSize then
      pack limits (current ++ unit.rows) units
    else if size ≤ limits.maxSize then
      let (drafts, warnings) := pack limits unit.rows units
      (whole current ++ drafts, warnings)
    else
      let (cut, cutWarnings) := splitUnit limits unit
      let (drafts, warnings) := pack limits [] units
      (whole current ++ cut ++ drafts, cutWarnings ++ warnings)

/-- The chunk of a draft that stands at the given place in the order. -/
def chunkOf (outline : Option Outline) (index : Nat) (d : ChunkDraft) : Chunk :=
  let first := (d.rows.head?.map Row.number).getD 1
  { index
    text := String.ofList (Row.join d.rows)
    kind := d.kind
    startLine := first
    endLine := (d.rows.getLast?.map Row.number).getD first
    context := d.context
    depth := (outline.map (·.depthAt first)).getD 0
    continues := d.continues }

/-- Give the drafts their numbers. -/
def number (outline : Option Outline) (drafts : List ChunkDraft) : List Chunk :=
  drafts.mapIdx (chunkOf outline)

/-- The chunks before they are numbered, and the warnings. -/
def drafts (limits : ChunkLimits) (outline : Option Outline) (rows : List Row) :
    List ChunkDraft × List CutWarning :=
  match outline with
  | some o =>
    if o.spans.isEmpty then splitUnit limits ⟨rows, false, []⟩
    else pack limits [] (unitsOf o.innerEnds o.spans rows)
  | none => splitUnit limits ⟨rows, false, []⟩

/-- Plan the chunks of a text.  A limit of 0 counts as 1. -/
def ofText (limits : ChunkLimits) (text : List Char) : ChunkPlan :=
  let limits := { limits with maxSize := limits.maxSize.max 1 }
  let (outline, issues) := Outline.ofText text
  let (ds, warnings) := drafts limits outline (rowsOf outline text)
  ⟨number outline ds, warnings, issues⟩

end ChunkPlan

end Pseudoscribe
