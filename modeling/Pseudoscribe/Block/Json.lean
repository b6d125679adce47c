import Pseudoscribe.Block.Nesting
import Pseudoscribe.Json.Members

/-!
# Scanned lines and outlines as JSON
-/

namespace Pseudoscribe

/-! ## Scanned lines -/

def ScannedLine.toJson (l : ScannedLine) : Json :=
  .obj [("line", .ofNat l.number), ("masked", .ofChars l.masked), ("indent", .ofNat l.indent),
    ("starts_in_literal", .bool l.startsInLiteral), ("ends_in_literal", .bool l.endsInLiteral),
    ("open_brackets", .ofNat l.openBrackets), ("mixed_indent", .bool l.mixedIndent),
    ("blank", .bool l.isBlank), ("safe", .bool l.safeAfter)]

/-- Pseudocode, a mark of line comments, or the marks one by one. -/
def CommentStyle.ofJson : Json → CommentStyle
  | .str "pseudocode" => .pseudocode
  | .str mark => .ofMark mark
  | j => ⟨j.flagAt "hash", j.flagAt "slash", j.flagAt "dash"⟩

def Issue.toJson (i : Issue) : Json :=
  .obj [("line", .ofNat i.place.line), ("column", .ofNat i.place.column), ("message", .str i.message)]

/-- Issues as lines of text. -/
def Issue.texts (is : List Issue) : Json := .ofList (fun i => .str i.text) is

/-! ## Outlines -/

def LineShape.toJson : LineShape → Json
  | .plain => .str "plain"
  | .opens kind style => .obj [("open", .str kind.name), ("style", .str style.name)]
  | .closes kind style =>
    .obj [("close", .ofText? (kind.map BlockKind.name)), ("style", .str style.name)]
  | .continues style => .obj [("continue", .str style.name)]

namespace Block

mutual

def toJson : Block → Json
  | ⟨kind, style, header, startLine, endLine, closed, children⟩ =>
    .obj [("kind", .str kind.name), ("style", .str style.name), ("header", .str header),
      ("start_line", .ofNat startLine), ("end_line", .ofNat endLine), ("closed", .bool closed),
      ("children", .arr (forestItems children))]

def forestItems : List Block → List Json
  | [] => []
  | b :: bs => toJson b :: forestItems bs

end

end Block

def Span.toJson (s : Span) : Json :=
  .obj [("kind", .str s.kind.name), ("start_line", .ofNat s.startLine), ("end_line", .ofNat s.endLine)]

/-- An outline with what it says of each line, and of the inside of some ranges of lines. -/
def Outline.toJson (o : Outline) (ranges : List (Nat × Nat)) : Json :=
  let lines := List.range (o.lineCount + 2)
  .obj [("blocks", .ofList Block.toJson o.blocks), ("line_count", .ofNat o.lineCount),
    ("safe", .ofList (fun l => .bool (o.isSafeAfter l)) lines),
    ("depth", .ofList (fun l => .ofNat (o.depthAt l)) lines),
    ("top", .ofList Span.toJson o.spans),
    ("inner", .ofList (fun r => .ofList Json.ofNat (o.innerEnds r.1 r.2)) ranges)]

end Pseudoscribe
