import Pseudoscribe.Code.Emitter
import Pseudoscribe.Json.Members
import Pseudoscribe.Number.Double
import Pseudoscribe.Text.Lines

/-!
# Generation by rules

A source text becomes code line by line.  Every line that is not blank is counted, and so is every line
that said something known; the others are kept as comments and their numbers are reported.
-/

namespace Pseudoscribe

/-- Code, and how much of the source it was made of. -/
structure Generation where
  code : List Char
  /-- lines that said something known -/
  recognized : Nat
  /-- lines that are not blank -/
  total : Nat
  /-- numbers of the lines that said nothing known, from 1 -/
  unrecognized : List Nat
deriving DecidableEq, Repr

namespace Generation

/-- The share of the lines that said something known; 1 when there are none. -/
def coverage (g : Generation) : Double :=
  if g.total = 0 then 1 else Double.ofRatio false g.recognized g.total

/-- What is asked of a generation beside the source. -/
structure Setting where
  /-- the source before, from which declared names are taken -/
  context : Option String := none
  /-- blocks that are open where the source begins -/
  baseDepth : Nat := 0
  /-- leave blocks open at the end, for the source that follows -/
  leaveOpen : Bool := false
deriving Repr

/-- The state of a generation between two lines. -/
structure Progress where
  scanner : Scanner := { style := .pseudocode }
  emitter : Emitter
  recognized : Nat := 0
  total : Nat := 0
  unrecognized : Array Nat := #[]

/-- Read the next line. -/
def Progress.feed (p : Progress) (raw : List Char) : Progress :=
  let (scanned, scanner) := p.scanner.feed raw
  if scanned.startsInLiteral then
    { p with
      scanner
      emitter := p.emitter.emit (Text.trimEnd raw)
      recognized := p.recognized + 1
      total := p.total + 1 }
  else if Text.isBlank raw then { p with scanner, emitter := p.emitter.emit [] }
  else
    let (known, emitter) := p.emitter.line scanned raw
    { scanner
      emitter
      recognized := if known then p.recognized + 1 else p.recognized
      total := p.total + 1
      unrecognized := if known then p.unrecognized else p.unrecognized.push scanned.number }

/-- Lines put together, with one newline at the end and no blank lines before it. -/
def joinLines (lines : List (List Char)) : List Char :=
  let rec strip : List Char → List Char
    | '\n' :: '\n' :: rest => strip ('\n' :: rest)
    | cs => cs
  match strip (Text.unlines lines).reverse with
  | [] => []
  | '\n' :: rest => ('\n' :: rest).reverse
  | cs => ('\n' :: cs).reverse

/-- The names that the lines before declare. -/
def contextNames (context : Option String) : List String :=
  match context with
  | none => []
  | some text => (Text.lines text.toList).filterMap fun l => Phrase.declaredName? (Text.trim l)

/-- The emitter that a generation begins with. -/
def start (target : Target) (width : Nat) (setting : Setting) : Emitter :=
  { target
    width := width.max 1
    stack := List.replicate setting.baseDepth Frame.inherited
    declared := contextNames setting.context }

/-- Turn a source into code. -/
def ofSource (target : Target) (width : Nat) (setting : Setting) (source : List Char) : Generation :=
  let p := (Text.lines source).foldl Progress.feed { emitter := start target width setting }
  let e := if setting.leaveOpen then p.emitter else p.emitter.popMany p.emitter.stack.length
  { code := joinLines e.out.toList
    recognized := p.recognized
    total := p.total
    unrecognized := p.unrecognized.toList }

end Generation

/-! ## Generated code as JSON -/

def Generation.toJson (g : Generation) : Json :=
  .obj [("code", .ofChars g.code), ("recognized", .ofNat g.recognized), ("total", .ofNat g.total),
    ("unrecognized", .ofList Json.ofNat g.unrecognized), ("coverage", .real g.coverage)]

end Pseudoscribe
