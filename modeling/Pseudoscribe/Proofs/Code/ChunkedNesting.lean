import Pseudoscribe.Proofs.Chunk.Tiling
import Pseudoscribe.Proofs.Code.Nesting
import Pseudoscribe.Proofs.Text.Pieces

/-!
# Nesting chunk by chunk

A plan hands each chunk to a generation of its own, with the number of blocks that are open where the chunk
begins.  Chunk by chunk a text is nested as it is in one piece exactly when every cut is harmless: the scan
stands in code there, and the run that knows of the depth only can resume the uncut one.  The chunks then
end as many blocks as the whole does exactly when the blocks that are left open at the ends of chunks are as
many as the blocks that chunks begin inside of.
-/

namespace Pseudoscribe

open Pseudoscribe.Frame

/-- The lines of a chunk. -/
def Chunk.lines (c : Chunk) : List (List Char) := Text.lines c.text.toList

namespace ChunkPlan

theorem Covers.pieces_eq {before : Nat} {lines : List (List Char)} {chunks : List Chunk}
    (h : Covers before lines chunks) (hp : Text.pieces lines.flatten = lines) :
    (chunks.flatMap fun c => Text.pieces c.text.toList) = lines := by
  induction h with
  | nil => rfl
  | cons _ text_eq _ _ _ ih =>
    obtain ⟨hlines, hrest⟩ := Text.pieces_flatten_append hp
    rw [List.flatMap_cons, text_eq, hlines, ih hrest]

/-- The lines of the chunks are the lines of the text. -/
theorem lines_ofText (limits : ChunkLimits) (text : List Char) :
    (ofText limits text).chunks.flatMap Chunk.lines = Text.lines text := by
  have h := (covers_ofText limits text).pieces_eq (by rw [Text.flatten_pieces])
  rw [Text.lines, ← h, List.map_flatMap]
  rfl

end ChunkPlan

namespace Generation

open Progress

/-- Where a generation begins. -/
def begin (target : Target) (width : Nat) (setting : Setting) : Progress :=
  { emitter := start target width setting }

/-- Where the generation for a chunk begins. -/
def beginChunk (target : Target) (width : Nat) (c : Chunk) : Progress :=
  begin target width ⟨c.context, c.depth, c.continues⟩

/-- The uncut run can be resumed at the beginning of each chunk, from where it stands there. -/
def Harmless (p : Progress) : List Chunk → Prop
  | [] => True
  | c :: cs =>
    ((p.scanner.mode.isCode = true ∨ ∀ raw ∈ c.lines, Text.isBlank raw = true) ∧
      FrameStep.Resumes p.emitter.target [] (p.emitter.stack.map bare) c.depth
        (FrameStep.ofLines p.emitter.target p.scanner c.lines)) ∧
    Harmless (c.lines.foldl feed p) cs

/-! ## One chunk -/

/-- An uncut run reads pseudocode, and the literals it is inside of may run over lines. -/
structure Reads (p : Progress) : Prop where
  style : p.scanner.style = .pseudocode
  settled : p.scanner.Settled

theorem reads_begin (target : Target) (width : Nat) (setting : Setting) :
    Reads (begin target width setting) :=
  ⟨rfl, fun _ _ h => nomatch h⟩

theorem Reads.feed {p : Progress} (h : Reads p) (raw : List Char) : Reads (p.feed raw) := by
  refine ⟨?_, ?_⟩
  · rw [(p.feed_keeps raw).1, Scanner.feed_style, h.style]
  · rw [(p.feed_keeps raw).1]
    exact p.scanner.settled_feed raw

theorem Reads.foldl {p : Progress} (h : Reads p) (raws : List (List Char)) :
    Reads (raws.foldl Progress.feed p) := by
  induction raws generalizing p with
  | nil => exact h
  | cons raw raws ih => exact ih (h.feed raw)

theorem target_foldl (p : Progress) (raws : List (List Char)) :
    (raws.foldl feed p).emitter.target = p.emitter.target := by
  induction raws generalizing p with
  | nil => rfl
  | cons raw raws ih => rw [List.foldl_cons, ih, (p.feed_keeps raw).2]

/-- A generation that begins anew where the uncut one stands in code reads the source as that one does. -/
theorem Reads.alike_beginChunk {p : Progress} (h : Reads p) (width : Nat) (c : Chunk)
    (hcode : p.scanner.mode.isCode = true) :
    (beginChunk p.emitter.target width c).scanner.Alike p.scanner := by
  refine ⟨h.style.symm, ?_⟩
  cases hm : p.scanner.mode with
  | code => exact .code
  | literal => simp [hm, ScanMode.isCode] at hcode
  | comment => simp [hm, ScanMode.isCode] at hcode

theorem nestings_beginChunk_eq_iff {p : Progress} (h : Reads p) (width : Nat) (c : Chunk) :
    (beginChunk p.emitter.target width c).nestings c.lines = p.nestings c.lines ↔
      (p.scanner.mode.isCode = true ∨ ∀ raw ∈ c.lines, Text.isBlank raw = true) ∧
        FrameStep.Resumes p.emitter.target [] (p.emitter.stack.map bare) c.depth
          (FrameStep.ofLines p.emitter.target p.scanner c.lines) := by
  have hstack : (beginChunk p.emitter.target width c).emitter.stack.map bare =
      List.replicate c.depth inherited.bare := List.map_replicate
  have htarget : (beginChunk p.emitter.target width c).emitter.target = p.emitter.target := rfl
  have hreads : Reads (beginChunk p.emitter.target width c) := reads_begin _ width _
  rw [nestings_eq, nestings_eq, hstack, htarget]
  -- a cut inside of a literal is seen at once: the new scan takes its lines for code
  by_cases hcode : p.scanner.mode.isCode = true
  · rw [FrameStep.ofLines_alike _ (h.alike_beginChunk width c hcode)]
    simp only [hcode, true_or, true_and]
    exact FrameStep.nestings_eq_iff_resumes [] (FrameStep.remains_replicate c.depth) (.inl rfl) _
  · rw [FrameStep.nestings_ofLines_inside _ _ _ rfl hreads.settled (by simpa using hcode) h.settled]
    simp only [hcode, Bool.false_eq_true, false_or]
    constructor
    · intro hblank
      refine ⟨hblank, ?_⟩
      rw [FrameStep.ofLines_blank _ _ hblank]
      exact FrameStep.resumes_replicate_none _ _ _ _ _
    · exact fun hboth => hboth.1

/-! ## All chunks -/

theorem nestings_chunks_eq_iff {p : Progress} (h : Reads p) (width : Nat) (chunks : List Chunk) :
    (chunks.flatMap fun c => (beginChunk p.emitter.target width c).nestings c.lines) =
        p.nestings (chunks.flatMap Chunk.lines) ↔
      Harmless p chunks := by
  induction chunks generalizing p with
  | nil => simp [Harmless, nestings]
  | cons c cs ih =>
    have hrest := ih (h.foldl c.lines)
    rw [target_foldl] at hrest
    rw [List.flatMap_cons, List.flatMap_cons, nestings_append, Harmless, ← hrest,
      ← nestings_beginChunk_eq_iff h width c]
    constructor
    -- a chunk has as many nestings as lines, so the two lists can be taken apart chunk by chunk
    · intro heq
      exact List.append_inj heq (by rw [length_nestings, length_nestings])
    · rintro ⟨hc, hcs⟩
      rw [hc, hcs]

/-- How many blocks a generation ends, with those that it ends at the end of its source. -/
def closings (p : Progress) (raws : List (List Char)) (leaveOpen : Bool) : Nat :=
  p.ended raws + if leaveOpen then 0 else (raws.foldl feed p).emitter.depth

/-- How many blocks the generation for a chunk leaves open at its end. -/
def left (target : Target) (width : Nat) (c : Chunk) : Nat :=
  if c.continues then (c.lines.foldl feed (beginChunk target width c)).emitter.depth else 0

theorem depth_begin (target : Target) (width : Nat) (setting : Setting) :
    (begin target width setting).emitter.depth = setting.baseDepth := by
  show ((List.replicate setting.baseDepth Frame.inherited).filter (!·.isGroup)).length = _
  rw [List.filter_replicate_of_pos rfl, List.length_replicate]

/-- A run from the first line to the last ends the blocks that it opens. -/
theorem closings_begin (target : Target) (width : Nat) (raws : List (List Char)) :
    closings (begin target width {}) raws false = (begin target width {}).opened raws := by
  have hbalance := (begin target width {}).depth_add_opened raws
  have hdepth : (begin target width {}).emitter.depth = 0 := depth_begin target width {}
  unfold closings
  rw [if_neg Bool.false_ne_true]
  omega

theorem closings_add_left (target : Target) (width : Nat) (c : Chunk) :
    closings (beginChunk target width c) c.lines c.continues + left target width c =
      c.depth + (beginChunk target width c).opened c.lines := by
  have hbalance := (beginChunk target width c).depth_add_opened c.lines
  have hdepth : (beginChunk target width c).emitter.depth = c.depth := depth_begin target width _
  unfold closings left
  split <;> omega

theorem total_closings_add_left (target : Target) (width : Nat) (chunks : List Chunk) :
    Pseudoscribe.total (chunks.map fun c => closings (beginChunk target width c) c.lines c.continues) +
        Pseudoscribe.total (chunks.map (left target width)) =
      Pseudoscribe.total (chunks.map Chunk.depth) +
        Pseudoscribe.total (chunks.map fun c => (beginChunk target width c).opened c.lines) := by
  induction chunks with
  | nil => rfl
  | cons c cs ih =>
    have hc := closings_add_left target width c
    simp only [List.map_cons, total_cons] at ih ⊢
    omega

theorem opened_beginChunk_eq {p : Progress} (h : Reads p) (width : Nat) {c : Chunk}
    (hc : p.scanner.mode.isCode = true ∨ ∀ raw ∈ c.lines, Text.isBlank raw = true) :
    (beginChunk p.emitter.target width c).opened c.lines = p.opened c.lines := by
  have htarget : (beginChunk p.emitter.target width c).emitter.target = p.emitter.target := rfl
  rw [opened_eq, opened_eq, htarget]
  rcases hc with hcode | hblank
  · rw [FrameStep.ofLines_alike _ (h.alike_beginChunk width c hcode)]
  · rw [FrameStep.ofLines_blank _ _ hblank, FrameStep.ofLines_blank _ _ hblank]

theorem total_opened_eq {p : Progress} (h : Reads p) (width : Nat) {chunks : List Chunk}
    (hharmless : Harmless p chunks) :
    Pseudoscribe.total (chunks.map fun c => (beginChunk p.emitter.target width c).opened c.lines) =
      p.opened (chunks.flatMap Chunk.lines) := by
  induction chunks generalizing p with
  | nil => rfl
  | cons c cs ih =>
    obtain ⟨⟨hscan, -⟩, hcs⟩ := hharmless
    have hrest := ih (h.foldl c.lines) hcs
    rw [target_foldl] at hrest
    rw [List.map_cons, total_cons, hrest, opened_beginChunk_eq h width hscan, List.flatMap_cons,
      opened_append]

/-- Chunk by chunk every line of the text is nested as it is in one piece, as many blocks are opened, and in
JavaScript as many are closed. -/
structure NestsAsWhole (target : Target) (width : Nat) (chunks : List Chunk) (text : List Char) :
    Prop where
  nestings : (chunks.flatMap fun c => (beginChunk target width c).nestings c.lines) =
    (begin target width {}).nestings (Text.lines text)
  opened : Pseudoscribe.total (chunks.map fun c => (beginChunk target width c).opened c.lines) =
    (begin target width {}).opened (Text.lines text)
  closings : target = .javascript →
    Pseudoscribe.total (chunks.map fun c => closings (beginChunk target width c) c.lines c.continues) =
      closings (begin target width {}) (Text.lines text) false

/-- A plan nests a text as it is nested in one piece exactly when its cuts are harmless and, in JavaScript,
as many blocks are left open at the ends of chunks as chunks begin inside of. -/
theorem nestsAsWhole_iff (target : Target) (width : Nat) (limits : ChunkLimits) (text : List Char) :
    NestsAsWhole target width (ChunkPlan.ofText limits text).chunks text ↔
      Harmless (begin target width {}) (ChunkPlan.ofText limits text).chunks ∧
        (target = .javascript →
          Pseudoscribe.total ((ChunkPlan.ofText limits text).chunks.map (left target width)) =
            Pseudoscribe.total ((ChunkPlan.ofText limits text).chunks.map Chunk.depth)) := by
  have hiff := nestings_chunks_eq_iff (reads_begin target width {}) width
    (ChunkPlan.ofText limits text).chunks
  rw [ChunkPlan.lines_ofText] at hiff
  have hchunks := total_closings_add_left target width (ChunkPlan.ofText limits text).chunks
  have hopened (hharmless : Harmless (begin target width {}) (ChunkPlan.ofText limits text).chunks) :
      Pseudoscribe.total ((ChunkPlan.ofText limits text).chunks.map fun c =>
          (beginChunk target width c).opened c.lines) =
        (begin target width {}).opened (Text.lines text) := by
    rw [← ChunkPlan.lines_ofText limits text]
    exact total_opened_eq (reads_begin target width {}) width hharmless
  have hwhole := closings_begin target width (Text.lines text)
  constructor
  · rintro ⟨hnest, -, hends⟩
    have hharmless := hiff.1 hnest
    refine ⟨hharmless, fun ht => ?_⟩
    have h1 := hends ht
    have h2 := hopened hharmless
    omega
  · rintro ⟨hharmless, hleft⟩
    have h2 := hopened hharmless
    refine ⟨hiff.2 hharmless, h2, fun ht => ?_⟩
    have h1 := hleft ht
    omega

/-- Behind a cut no indentation ends a block from before it: the last line is written into the `if`. -/
theorem levels_behind_cut_in_indented_block :
    (ChunkPlan.ofText ⟨18, 0⟩ "def f():\n  if x:\n    a = 1\n  c = 2\n".toList).issues = [] ∧
      ((ChunkPlan.ofText ⟨18, 0⟩ "def f():\n  if x:\n    a = 1\n  c = 2\n".toList).chunks.flatMap
        fun c => ((beginChunk .python 4 c).nestings c.lines).map (·.map LineNesting.level)) =
          [some 0, some 1, some 2, some 2] ∧
      ((begin .python 4 {}).nestings
        (Text.lines "def f():\n  if x:\n    a = 1\n  c = 2\n".toList)).map (·.map LineNesting.level) =
          [some 0, some 1, some 2, some 1] := by
  decide +kernel

end Generation

end Pseudoscribe
