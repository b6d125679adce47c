import Pseudoscribe.Assembly.Basic
import Pseudoscribe.Backend.Spec
import Pseudoscribe.Chunk.Plan
import Pseudoscribe.Request
import Pseudoscribe.Review
import Pseudoscribe.Run.Chunk

/-!
# A request on its way

A run brings a request from its plan to its result.  It begins chunks in their order and has no more of them on
their way than the request allows; when the last one has ended it puts the result together.  What happens
to a chunk, and that the request is to stop, comes from outside.  From then on chunks are withdrawn, and no
attempt is handed to the pool any more.

For the result the ends of the chunks are assembled, imports are moved to the head, and warnings are added: of the
plan, of the source text, and of the code, each with the chunk that it concerns.

The moves (`move?`) say what can happen next, one thing at a time.  A step (`step?`) is a move with all
moves after it that need nothing from outside.
-/

/-! ## Results -/

namespace Pseudoscribe.Run

/-- The chunk that a line of the source belongs to. -/
def ownerOfSource (chunks : List Chunk) (line : Nat) : Nat :=
  match chunks.find? fun c => c.startLine ≤ line && line ≤ c.endLine with
  | some c => c.index
  | none => (chunks.getLast?.map Chunk.index).getD 0

/-- The chunk that a line of the result is blamed on. -/
def ownerOfOutput (a : Assembly) (line : Nat) : Nat :=
  match a.ownerOf? line with
  | some i => i
  | none => (a.chunks.getLast?.map ChunkReport.chunk).getD 0

/-- Did the run end before all chunks were carried through? -/
def isPartial (chunks : List Chunk) (finals : List (Nat × ChunkEnd)) : Bool :=
  finals.length < chunks.length || finals.any fun f => f.2.status == .cancelled

/-- The result with the warnings of the plan and of the source text. -/
def withPlanWarnings (plan : ChunkPlan) (a : Assembly) : Assembly :=
  let a := plan.warnings.foldl (fun a w => a.addWarning 0 w.message) a
  plan.issues.foldl
    (fun a i => a.addWarning (ownerOfSource plan.chunks i.place.line) s!"source {i.text}") a

/-- The result with the warnings of its code. -/
def withReview (language : Language) (a : Assembly) : Assembly :=
  if a.cancelled || Text.isBlank a.code.toList then a
  else
    (Review.ofCode language a.code.toList).foldl
      (fun r i => r.addWarning (ownerOfOutput a i.place.line) s!"output {i.text}") a

/-- The result of a run whose chunks have ended like this. -/
def report (id : RequestId) (language : Language) (plan : ChunkPlan)
    (finals : List (Nat × ChunkEnd)) : Assembly :=
  let assembled := Assembly.ofChunks id plan.chunks finals (isPartial plan.chunks finals)
  withReview language (withPlanWarnings plan (assembled.hoist language).1)

end Pseudoscribe.Run

/-! ## Runs -/

namespace Pseudoscribe

/-- A request on its way. -/
structure Run where
  request : Request
  spec : BackendSpec
  plan : ChunkPlan
  /-- when it was begun -/
  since : Nat
  /-- chunks that were not begun -/
  waiting : List Chunk
  onWay : List ChunkRun := []
  /-- how chunks ended, by index, in the order in which they ended -/
  finals : List (Nat × ChunkEnd) := []
  /-- it is to stop -/
  cancelled : Bool := false
  result : Option Assembly := none
deriving Repr

/-- A move of a run. -/
inductive RunMove where
  /-- the next chunk is begun -/
  | next
  /-- something happens to a chunk on its way -/
  | chunk (index : Nat) (input : ChunkInput)
  /-- the request is to stop -/
  | cancel
  /-- the result is put together -/
  | conclude
deriving DecidableEq, Repr

namespace Run

def options (r : Run) : Options := r.request.options

def total (r : Run) : Nat := r.plan.chunks.length

/-- How many chunks have ended. -/
def completed (r : Run) : Nat := r.finals.length

/-- How many chunks may be on their way at the same time. -/
def limit (r : Run) : Nat := max 1 r.options.workerCount

/-- Where the answer for a blank chunk comes from. -/
def provenance (r : Run) : Provenance :=
  { model := r.spec.model, revision := r.spec.revision, backend := r.spec.kind }

def find? (r : Run) (chunk : Nat) : Option ChunkRun :=
  r.onWay.find? (·.chunk.index == chunk)

/-- Put a chunk back after a step; one that has ended leaves the way. -/
def place (r : Run) (c : ChunkRun) (notes : List Note) : Run × List Note :=
  let index := c.chunk.index
  match c.stage with
  | .ended final =>
    let r := { r with
      onWay := r.onWay.filter (·.chunk.index != index)
      finals := r.finals ++ [(index, final)] }
    let told := match final with
      | .converted a attempts =>
        [Note.event (.chunkCompleted index attempts a.confidence r.completed r.total)]
      | _ => []
    (r, notes ++ told)
  | _ =>
    let onWay :=
      if r.onWay.any (·.chunk.index == index) then
        r.onWay.map fun x => if x.chunk.index == index then c else x
      else r.onWay ++ [c]
    ({ r with onWay }, notes)

/-- The last words of a run. -/
def lastNotes (r : Run) (now : Nat) (a : Assembly) : List Note :=
  let status := if a.cancelled then "cancelled" else if a.success then "succeeded" else "failed"
  [.figure "translation" (ChunkRun.elapsed now r.since) [(status, 1), ("chunks", r.total)],
    .event (if a.cancelled then .cancelled r.completed r.total
      else .completed a.success a.confidence a.warnings.length a.errors.length)]

/-- The time that an attempt may take, if there is such a length of time. -/
def timeout? (r : Run) : Option Duration := r.options.timeout?

/-- Begin the next chunk, if there is room on the way. -/
def next? (r : Run) (now : Nat) : Option (Run × List Note) :=
  match r.waiting with
  | [] => none
  | chunk :: rest =>
    if r.onWay.length < r.limit && !r.cancelled then
      let (c, notes) := ChunkRun.start now r.provenance chunk
      some ({ r with waiting := rest }.place c notes)
    else none

/-- A chunk on its way goes on.  When the request is to stop it is withdrawn, and nothing else happens to it;
before that it is not.  Nothing happens when no attempt can be made because the time that it may take is no
length of time. -/
def stepChunk? (r : Run) (now index : Nat) (input : ChunkInput) : Option (Run × List Note) :=
  if r.timeout?.isSome && input.isWithdrawal == r.cancelled then do
    let c ← r.find? index
    let (c, notes) ← c.step? now r.options input
    pure (r.place c notes)
  else none

/-- Put the result together when nothing is on its way and nothing more will be begun. -/
def conclude? (r : Run) (now : Nat) : Option (Run × List Note) :=
  if r.onWay.isEmpty && (r.waiting.isEmpty || r.cancelled) && r.result.isNone then
    let a := report r.request.id r.request.language r.plan r.finals
    some ({ r with result := some a }, r.lastNotes now a)
  else none

/-- One move; nothing if it cannot be made now. -/
def move? (r : Run) (now : Nat) : RunMove → Option (Run × List Note)
  | .next => r.next? now
  | .chunk index input => r.stepChunk? now index input
  | .cancel =>
    if r.cancelled || r.result.isSome then none else some ({ r with cancelled := true }, [])
  | .conclude => r.conclude? now

/-- Make moves one after the other; those that cannot be made are passed over. -/
def makeAll (r : Run) (now : Nat) : List RunMove → Run × List Note
  | [] => (r, [])
  | m :: ms =>
    match r.move? now m with
    | none => r.makeAll now ms
    | some (r, notes) =>
      let (r, more) := r.makeAll now ms
      (r, notes ++ more)

/-- The moves that need nothing from outside, in the order in which they are due. -/
def ownMoves (r : Run) : List RunMove :=
  r.onWay.map (fun c => .chunk c.chunk.index .withdrawn) ++ r.waiting.map (fun _ => .next) ++ [.conclude]

/-- Make all moves that need nothing from outside. -/
def settle (r : Run) (now : Nat) : Run × List Note := r.makeAll now r.ownMoves

/-- One step: a move, and all that it brings with it; nothing if the move cannot be made now. -/
def step? (r : Run) (now : Nat) (m : RunMove) : Option (Run × List Note) := do
  let (r, notes) ← r.move? now m
  let (r, more) := r.settle now
  pure (r, notes ++ more)

/-- A run of which no chunk was begun; `cancelled` if it is to stop before that. -/
def new (now : Nat) (request : Request) (spec : BackendSpec) (cancelled : Bool) : Run :=
  let limits : ChunkLimits := ⟨request.options.maxChunkSize, request.options.overlapLines⟩
  let plan := ChunkPlan.ofText limits request.source.toList
  { request, spec, plan, since := now, waiting := plan.chunks, cancelled }

/-- Begin a run. -/
def start (now : Nat) (request : Request) (spec : BackendSpec) (cancelled : Bool) :
    Run × List Note :=
  let r := new now request spec cancelled
  let (r', notes) := r.settle now
  (r', .event (.started r.total) :: notes)

/-- An attempt is to be made, and the time that it may take is no length of time. -/
def isStranded (r : Run) : Bool := r.timeout?.isNone && !r.onWay.isEmpty

end Run

end Pseudoscribe
