import Pseudoscribe.Answer
import Pseudoscribe.Chunk.Basic
import Pseudoscribe.ImportLine
import Pseudoscribe.Json.Record
import Pseudoscribe.RequestId
import Pseudoscribe.Text.Lines

/-!
# Assembling the result

The answers for the chunks are put together in the order of the chunks.  A chunk without code is kept as
it stood in the source, so that every chunk occurs exactly once; each chunk is told which lines of the
result are its own.

Each chunk brings the imports it needs.  In the whole result they are moved to the head, each statement
once; a chunk then no longer owns the lines that were moved.
-/

namespace Pseudoscribe

/-- How a chunk ended. -/
inductive ChunkStatus where
  | succeeded
  | abandoned
  | cancelled
deriving DecidableEq, Repr, Inhabited

namespace ChunkStatus

def name : ChunkStatus → String
  | succeeded => "succeeded"
  | abandoned => "abandoned"
  | cancelled => "cancelled"

def ofName? : String → Option ChunkStatus
  | "succeeded" => some succeeded
  | "abandoned" => some abandoned
  | "cancelled" => some cancelled
  | _ => none

end ChunkStatus

/-- How a chunk ended, with what it left. -/
inductive ChunkEnd where
  | converted (answer : Answer) (attempts : Nat)
  | abandoned (lastError : String) (attempts : Nat)
  | cancelled (attempts : Nat)
deriving DecidableEq, Repr

namespace ChunkEnd

def status : ChunkEnd → ChunkStatus
  | converted .. => .succeeded
  | abandoned .. => .abandoned
  | cancelled _ => .cancelled

def attempts : ChunkEnd → Nat
  | converted _ n => n
  | abandoned _ n => n
  | cancelled n => n

def confidence : ChunkEnd → Double
  | converted a _ => a.confidence
  | _ => 0

/-- What the chunk contributes to the result. -/
def text (chunk : Chunk) : ChunkEnd → String
  | converted a _ => a.code.getD ""
  | _ => chunk.text

def warnings : ChunkEnd → List String
  | converted a _ => a.warnings
  | _ => []

def error? : ChunkEnd → Option String
  | converted .. => none
  | abandoned lastError attempts =>
    some s!"abandoned after {attempts} attempt(s), source kept verbatim: {lastError}"
  | cancelled _ => some "cancelled before completion, source kept verbatim"

end ChunkEnd

/-- A message about a chunk. -/
structure Diagnostic where
  chunk : Nat
  message : String
deriving DecidableEq, Repr

def Diagnostic.text (d : Diagnostic) : String := s!"[chunk {d.chunk}] {d.message}"

/-- What became of a chunk. -/
structure ChunkReport where
  chunk : Nat
  startLine : Nat
  endLine : Nat
  status : ChunkStatus
  attempts : Nat
  confidence : Double
  /-- first and last of its lines in the result -/
  outputLines : Option (Nat × Nat)
deriving DecidableEq, Repr

/-- Does the chunk own this line of the result? -/
def ChunkReport.owns (r : ChunkReport) (line : Nat) : Bool :=
  r.outputLines.any fun (first, last) => first ≤ line && line ≤ last

/-- The result for a whole source text. -/
structure Assembly where
  id : RequestId
  code : String := ""
  success : Bool := true
  cancelled : Bool := false
  confidence : Double := 1
  warnings : List Diagnostic := []
  errors : List Diagnostic := []
  chunks : List ChunkReport := []
deriving DecidableEq, Repr

namespace Assembly

/-- How many lines a text has; a last line without a newline counts. -/
def countLines (cs : List Char) : Nat :=
  let newlines := cs.count '\n'
  if cs.isEmpty || cs.getLast? == some '\n' then newlines else newlines + 1

/-- Put a piece behind the code so far, each piece on lines of its own. -/
def appendPiece (code piece : String) (isLast : Bool) : String :=
  let joined := code ++ piece
  if !isLast && !joined.isEmpty && joined.toList.getLast? != some '\n' then joined ++ "\n" else joined

/-- Add a chunk and how it ended. -/
def add (a : Assembly) (chunk : Chunk) (final : ChunkEnd) (isLast : Bool) : Assembly :=
  let piece := final.text chunk
  let code := appendPiece a.code piece isLast
  let first := countLines a.code.toList + 1
  let last := countLines code.toList
  let report : ChunkReport :=
    { chunk := chunk.index
      startLine := chunk.startLine
      endLine := chunk.endLine
      status := final.status
      attempts := final.attempts
      confidence := final.confidence
      outputLines :=
        if Text.isBlank piece.toList || last < first then none else some (first, last) }
  { a with
    code
    success := a.success && final.status == .succeeded
    confidence := Double.least a.confidence final.confidence
    warnings := a.warnings ++ final.warnings.map (⟨chunk.index, ·⟩)
    errors := a.errors ++ (final.error?.map (⟨chunk.index, ·⟩)).toList
    chunks := a.chunks ++ [report] }

/-- Add chunks in order.  The first end given for the index of a chunk is used up by it; a chunk
without one was cancelled before it was tried. -/
def addAll (a : Assembly) (finals : List (Nat × ChunkEnd)) : List Chunk → Assembly
  | [] => a
  | chunk :: rest =>
    let final := (finals.lookup chunk.index).getD (.cancelled 0)
    (a.add chunk final rest.isEmpty).addAll (finals.filter (·.1 != chunk.index)) rest

/-- Put the ends of the chunks together. -/
def ofChunks (id : RequestId) (chunks : List Chunk) (finals : List (Nat × ChunkEnd))
    (cancelled : Bool) : Assembly :=
  let a := ({ id } : Assembly).addAll finals chunks
  { a with success := a.success && !cancelled, cancelled }

/-- The chunk that a line of the result belongs to. -/
def ownerOf? (a : Assembly) (line : Nat) : Option Nat :=
  (a.chunks.find? (·.owns line)).map (·.chunk)

def report? (a : Assembly) (chunk : Nat) : Option ChunkReport :=
  a.chunks.find? (·.chunk == chunk)

def addWarning (a : Assembly) (chunk : Nat) (message : String) : Assembly :=
  { a with warnings := a.warnings ++ [⟨chunk, message⟩] }

def errorsFor (a : Assembly) (chunk : Nat) : List Diagnostic :=
  a.errors.filter (·.chunk == chunk)

end Assembly

/-! ## Results on the wire -/

def Diagnostic.toJson (d : Diagnostic) : Json :=
  .obj [("chunk_index", .ofNat d.chunk), ("message", .str d.message)]

def ChunkReport.toJson (r : ChunkReport) : Json :=
  .obj [("chunk_index", .ofNat r.chunk), ("start_line", .ofNat r.startLine),
    ("end_line", .ofNat r.endLine), ("status", .str r.status.name), ("attempts", .ofNat r.attempts),
    ("confidence", .real r.confidence),
    ("output_lines", match r.outputLines with
      | some (first, last) => .arr [.ofNat first, .ofNat last]
      | none => .null)]

def Assembly.toJson (a : Assembly) : Json :=
  .obj [("request_id", .str a.id.text), ("code", .str a.code), ("success", .bool a.success),
    ("cancelled", .bool a.cancelled), ("confidence", .real a.confidence),
    ("warnings", .arr (a.warnings.map Diagnostic.toJson)),
    ("errors", .arr (a.errors.map Diagnostic.toJson)),
    ("chunks", .arr (a.chunks.map ChunkReport.toJson))]

end Pseudoscribe

/-! ## Moving imports to the head -/

namespace Pseudoscribe.Assembly

/-- A line of the result, with its newline, and whether it is moved or dropped. -/
structure HoistLine where
  text : List Char
  removed : Bool
deriving Repr

/-- Is this line of the result an import that may be moved?  Source kept verbatim is left alone. -/
def isMovable (a : Assembly) (language : Language) (line : Nat) (text : List Char) : Bool :=
  (a.chunks.find? (·.owns line)).any (·.status == .succeeded) && ImportLine.isTopLevel language text

/-- Drop the blank lines that are left at the beginning. -/
def dropLeadingBlanks : List HoistLine → List HoistLine
  | [] => []
  | l :: ls =>
    if l.removed then l :: dropLeadingBlanks ls
    else if Text.isBlank l.text then { l with removed := true } :: dropLeadingBlanks ls
    else l :: ls

/-- The new numbers of lines, counted on from `next`; removed lines have none. -/
def renumber (next : Nat) : List HoistLine → List (Option Nat)
  | [] => []
  | l :: ls => if l.removed then none :: renumber next ls else some (next + 1) :: renumber (next + 1) ls

/-- A range of lines after renumbering: from the first line that is left to the last. -/
def moveRange (numbers : List (Option Nat)) (range : Nat × Nat) : Option (Nat × Nat) :=
  let kept := ((numbers.take range.2).drop (range.1 - 1)).filterMap fun n => n
  match kept.head?, kept.getLast? with
  | some first, some last => some (first, last)
  | _, _ => none

/-- Move the imports to the head; how many lines were moved. -/
def hoist (a : Assembly) (language : Language) : Assembly × Nat :=
  let lines := (Text.pieces a.code.toList).mapIdx fun i text =>
    HoistLine.mk text (a.isMovable language (i + 1) text)
  let moved := lines.filter (·.removed)
  let statements := (moved.map fun l => Text.trimEnd l.text).eraseDups
  if statements.isEmpty then (a, 0)
  else
    let left := dropLeadingBlanks lines
    let (leading, rest) := statements.partition (ImportLine.isLeading language)
    let body := ((left.filter (!·.removed)).map HoistLine.text).flatten
    let head := Text.unlines (leading ++ rest) ++
      (if Text.isBlank body then ['\n'] else ['\n', '\n'])
    let numbers := renumber (countLines head) left
    ({ a with
       code := String.ofList (head ++ body)
       chunks := a.chunks.map fun r =>
         { r with outputLines := r.outputLines.bind (moveRange numbers) } },
     moved.length)

end Pseudoscribe.Assembly
