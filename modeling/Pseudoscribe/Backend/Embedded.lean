import Pseudoscribe.Answer
import Pseudoscribe.Backend.Manifest
import Pseudoscribe.Chunk.Basic
import Pseudoscribe.Code.Generation

/-!
# Local models

A local model writes code by the built-in rules, in the languages its manifest names.  A source that is too
long for the model is cut after a whole line, and the answer says so.  The manifest is read once.
-/

namespace Pseudoscribe

/-! ## The budget of a model -/

namespace Budget

/-- How many tokens a text has: its words between blanks. -/
def countTokens : List Char → Nat
  | [] => 0
  | [c] => if Text.isSpace c then 0 else 1
  | c :: d :: cs =>
    (if !Text.isSpace c && Text.isSpace d then 1 else 0) + countTokens (d :: cs)

/-- The lines from the first on that have no more tokens together than allowed. -/
def takeLines (budget : Nat) : List (List Char) → List (List Char)
  | [] => []
  | line :: rest =>
    if countTokens line ≤ budget then line :: takeLines (budget - countTokens line) rest else []

/-- The longest beginning in whole lines that the budget allows, and whether anything is missing. -/
def truncate (budget : Nat) (source : List Char) : List Char × Bool :=
  if countTokens source ≤ budget then (source, false)
  else ((takeLines budget (Text.pieces source)).flatten, true)

end Budget

/-! ## Answers -/

namespace Manifest

/-- The language in which the rules write, if the model has it. -/
def target? (m : Manifest) (language : Language) : Option Target :=
  if m.capabilities.supports language then Target.ofName? language.name else none

/-- How sure the model is: half for the effort, half for the lines it knew, and half of that if it has not
seen everything. -/
def confidence (coverage : Double) (truncated : Bool) : Double :=
  let half := Double.ofRatio false 1 2
  let x := half + half * coverage
  if truncated then x / Double.ofNat 2 else x

/-- The warning about lines that the rules did not know. -/
def unknownLines (chunk : Chunk) (lines : List Nat) : String :=
  let numbers := String.intercalate ", " (lines.map fun n => toString (chunk.startLine + n - 1))
  s!"line(s) {numbers} not recognized, kept as comments"

/-- The warning about lines that are missing. -/
def missingLines (m : Manifest) (kept whole : List Char) : String :=
  let first := (Text.lines kept).length
  let all := (Text.lines whole).length
  s!"input truncated to {first} of {all} line(s) to fit max_context_tokens ({m.maxContextTokens})"

/-- The answer of a model that is loaded. -/
def answer (m : Manifest) (provenance : Provenance) (chunk : Chunk) (language : Language) : Answer :=
  match m.target? language with
  | none =>
    .ofError s!"model {m.name}@{m.revision} does not support target language '{language.name}'"
      provenance
  | some target =>
    let source := chunk.text.toList
    let contextTokens := chunk.context.elim 0 fun t => Budget.countTokens t.toList
    let (kept, truncated) := Budget.truncate (m.maxContextTokens - contextTokens) source
    let g := Generation.ofSource target m.indentWidth ⟨chunk.context, chunk.depth, chunk.continues⟩
      kept
    let a := Answer.ofCode (String.ofList g.code) (confidence g.coverage truncated) provenance
    let a := if g.unrecognized.isEmpty then a else a.addWarning (unknownLines chunk g.unrecognized)
    if truncated then (a.addWarning (m.missingLines kept source)).markBestEffort else a

end Manifest

/-! ## The backend -/

/-- A local model, and its manifest once it was read. -/
structure EmbeddedBackend where
  settings : LocalModel
  manifest : Option Manifest := none
  /-- how often a manifest was read -/
  loads : Nat := 0
deriving Repr

namespace EmbeddedBackend

def provenance (b : EmbeddedBackend) : Provenance :=
  { model := b.settings.model, revision := b.settings.revision, backend := .embedded }

/-- Read the manifest unless that was done before; a failure is not remembered. -/
def load (files : Files) (b : EmbeddedBackend) : Except BackendError Manifest × EmbeddedBackend :=
  match b.manifest with
  | some m => (.ok m, b)
  | none =>
    match Manifest.load files b.settings with
    | .ok m => (.ok m, { b with manifest := some m, loads := b.loads + 1 })
    | .error e => (.error e, b)

def capabilities (b : EmbeddedBackend) : Capabilities :=
  b.manifest.elim Manifest.defaultCapabilities Manifest.capabilities

/-- The answer for a chunk. -/
def answer (files : Files) (b : EmbeddedBackend) (chunk : Chunk) (language : Language) :
    Answer × EmbeddedBackend :=
  match b.load files with
  | (.ok m, b) => (m.answer b.provenance chunk language, b)
  | (.error e, b) => (.ofError s!"local model unavailable: {e.message}" b.provenance, b)

end EmbeddedBackend

end Pseudoscribe
