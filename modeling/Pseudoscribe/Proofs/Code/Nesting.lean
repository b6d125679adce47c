import Pseudoscribe.Code.Generation
import Pseudoscribe.Proofs.Code.Resume
import Pseudoscribe.Proofs.Scan.Alike

/-!
# How deep a generation nests its lines

The nesting of a line is read off the emitter, and it is what the frames say: two generations that read the
same lines with the same frames open nest them alike, whatever they have written before.
-/

namespace Pseudoscribe

open Pseudoscribe.Frame

namespace Emitter

/-- How deep a line is nested that the emitter is given next. -/
def nesting (e : Emitter) (line : ScannedLine) (raw : List Char) : LineNesting :=
  let shape := LineShape.ofLine line.masked
  let dedented := e.dedent line.indent shape.isContinuation
  let behind := (e.line line raw).2.depth
  { behind
    level := match shape with
      | .closes _ _ =>
        behind + FrameStep.testLevel e.target (untilTest? (FrameStep.codeOf line raw)).isSome dedented.stack
      | .continues _ => dedented.depth - 1
      | _ => dedented.depth }

theorem depth_eq_blocks (e : Emitter) : e.depth = blocks (e.stack.map bare) :=
  (blocks_map_bare e.stack).symm

theorem hasLoop_map_bare (stack : List Frame) :
    FrameStep.hasLoop (stack.map bare) = FrameStep.hasLoop stack := List.any_map

theorem map_bare_dedent (e : Emitter) (line : ScannedLine) (raw : List Char) :
    (e.dedent line.indent (LineShape.ofLine line.masked).isContinuation).stack.map bare =
      (FrameStep.ofLine e.target line raw).dedented (e.stack.map bare) := by
  rw [stack_dedent, FrameStep.dedented_map_bare]
  rfl

theorem nesting_eq (e : Emitter) (line : ScannedLine) (raw : List Char) :
    e.nesting line raw = (FrameStep.ofLine e.target line raw).nesting e.target (e.stack.map bare) := by
  have hbehind := (e.stack_line line raw).1
  have hdedent := e.map_bare_dedent line raw
  unfold nesting FrameStep.nesting
  rw [← hbehind, ← hdedent]
  dsimp only
  rw [depth_eq_blocks, depth_eq_blocks, LineNesting.mk.injEq]
  refine ⟨?_, rfl⟩
  unfold FrameStep.ofLine
  cases LineShape.ofLine line.masked with
  | closes kind style =>
    dsimp only
    congr 1
    exact FrameStep.testLevel_congr e.target fun _ => (hasLoop_map_bare _).symm
  | _ => rfl

end Emitter

namespace FrameStep

/-- The lines of a source as the open frames see them. -/
def ofLines (target : Target) : Scanner → List (List Char) → List (Option FrameStep)
  | _, [] => []
  | s, raw :: raws =>
    (if (s.feed raw).1.startsInLiteral || Text.isBlank raw then none
      else some (ofLine target (s.feed raw).1 raw)) :: ofLines target (s.feed raw).2 raws

theorem ofLines_alike (target : Target) {s t : Scanner} (h : s.Alike t) (raws : List (List Char)) :
    ofLines target s raws = ofLines target t raws := by
  induction raws generalizing s t with
  | nil => rfl
  | cons raw raws ih =>
    obtain ⟨hcode, hnext⟩ := h.feed raw
    rw [ofLines, ofLines, ih hnext, hcode.startsInLiteral]
    unfold ofLine codeOf
    rw [hcode.masked, hcode.indent]

theorem ofLines_blank (target : Target) (s : Scanner) {raws : List (List Char)}
    (h : ∀ raw ∈ raws, Text.isBlank raw = true) :
    ofLines target s raws = List.replicate raws.length none := by
  induction raws generalizing s with
  | nil => rfl
  | cons raw raws ih =>
    obtain ⟨hraw, hraws⟩ := List.forall_mem_cons.1 h
    rw [ofLines, ih _ hraws, hraw, Bool.or_true, if_pos rfl, List.length_cons, List.replicate_succ]

theorem resumes_replicate_none (target : Target) (own base : List Frame) (n k : Nat) :
    Resumes target own base n (List.replicate k none) := by
  induction k with
  | zero => trivial
  | succ k ih =>
    rw [List.replicate_succ, Resumes]
    exact ih

/-- A run that is taken up inside of a literal sees code where the uncut run sees none. -/
theorem nestings_ofLines_inside (target : Target) (xs ys : List Frame) {s t : Scanner}
    (hs : s.mode.isCode = true) (hset : s.Settled) (ht : t.mode.isCode = false) (htset : t.Settled)
    (raws : List (List Char)) :
    nestings target xs (ofLines target s raws) = nestings target ys (ofLines target t raws) ↔
      ∀ raw ∈ raws, Text.isBlank raw = true := by
  induction raws generalizing s t with
  | nil => simp [ofLines, nestings]
  | cons raw raws ih =>
    rw [List.forall_mem_cons, ofLines, ofLines]
    by_cases hraw : Text.isBlank raw = true
    · have hmode := Scanner.mode_feed_blank hset hraw
      have hmode' := Scanner.mode_feed_blank htset hraw
      rw [hraw, Bool.or_true, Bool.or_true, if_pos rfl, if_pos rfl, nestings, nestings,
        List.cons.injEq, ih (hmode ▸ hs) (s.settled_feed raw) (hmode' ▸ ht) (t.settled_feed raw)]
      simp only [true_and]
    · have hsome : (s.feed raw).1.startsInLiteral = false := by
        show (!s.mode.isCode) = false
        rw [hs, Bool.not_true]
      have hnone : (t.feed raw).1.startsInLiteral = true := by
        show (!t.mode.isCode) = true
        rw [ht, Bool.not_false]
      rw [hsome, hnone, Bool.false_or, Bool.true_or, if_neg hraw, if_pos rfl, nestings, nestings,
        List.cons.injEq]
      simp [hraw]

/-- How many blocks a line opens. -/
def opened (s : FrameStep) : Nat :=
  match s.act with
  | .opens f => if f.isGroup then 0 else 1
  | _ => 0

/-- How many blocks lines open. -/
def openedBy : List (Option FrameStep) → Nat
  | [] => 0
  | none :: steps => openedBy steps
  | some s :: steps => s.opened + openedBy steps

theorem blocks_behind_sub (s : FrameStep) (stack : List Frame) :
    blocks (s.behind stack) - blocks (s.dedented stack) = s.opened := by
  unfold behind opened
  cases s.act with
  | keep => exact Nat.sub_self _
  | opens f =>
    dsimp only
    rw [blocks_cons, Nat.add_sub_cancel]
  | closes kind test =>
    have hle := blocks_closed_le kind test (s.dedented stack)
    dsimp only
    omega

end FrameStep

namespace Generation.Progress

/-- How deep the next line is nested; nothing for a line that is blank or begins inside of a literal. -/
def nesting? (p : Progress) (raw : List Char) : Option LineNesting :=
  let line := (p.scanner.feed raw).1
  if line.startsInLiteral || Text.isBlank raw then none else some (p.emitter.nesting line raw)

/-- How deep lines are nested, one after the other. -/
def nestings (p : Progress) : List (List Char) → List (Option LineNesting)
  | [] => []
  | raw :: raws => p.nesting? raw :: (p.feed raw).nestings raws

theorem feed_keeps (p : Progress) (raw : List Char) :
    (p.feed raw).scanner = (p.scanner.feed raw).2 ∧
      (p.feed raw).emitter.target = p.emitter.target := by
  unfold feed
  dsimp only
  split
  · exact ⟨rfl, rfl⟩
  · split
    · exact ⟨rfl, rfl⟩
    · exact ⟨rfl, (p.emitter.stack_line _ raw).2⟩

theorem stack_feed (p : Progress) (raw : List Char) :
    (p.feed raw).emitter.stack.map bare =
      if (p.scanner.feed raw).1.startsInLiteral || Text.isBlank raw then p.emitter.stack.map bare
      else (FrameStep.ofLine p.emitter.target (p.scanner.feed raw).1 raw).behind
        (p.emitter.stack.map bare) := by
  unfold feed
  dsimp only
  split
  · next h => rw [h, Bool.true_or, if_pos rfl]; rfl
  · next h =>
    rw [Bool.not_eq_true] at h
    rw [h, Bool.false_or]
    split
    · rfl
    · exact (p.emitter.stack_line _ raw).1

theorem nestings_eq (p : Progress) (raws : List (List Char)) :
    p.nestings raws = FrameStep.nestings p.emitter.target (p.emitter.stack.map bare)
      (FrameStep.ofLines p.emitter.target p.scanner raws) := by
  induction raws generalizing p with
  | nil => rfl
  | cons raw raws ih =>
    obtain ⟨hscanner, htarget⟩ := p.feed_keeps raw
    rw [nestings, ih, hscanner, htarget, stack_feed, FrameStep.ofLines, nesting?]
    split
    · rfl
    · rw [FrameStep.nestings, Emitter.nesting_eq]

theorem length_nestings (p : Progress) (raws : List (List Char)) :
    (p.nestings raws).length = raws.length := by
  induction raws generalizing p with
  | nil => rfl
  | cons raw raws ih => rw [nestings, List.length_cons, ih, List.length_cons]

theorem nestings_append (p : Progress) (xs ys : List (List Char)) :
    p.nestings (xs ++ ys) = p.nestings xs ++ (xs.foldl feed p).nestings ys := by
  induction xs generalizing p with
  | nil => rfl
  | cons x xs ih => rw [List.cons_append, nestings, ih, nestings, List.cons_append, List.foldl_cons]

/-! ## Blocks that lines open and end -/

/-- How many blocks the indentation of the next line leaves open. -/
def within (p : Progress) (raw : List Char) : Nat :=
  let line := (p.scanner.feed raw).1
  if line.startsInLiteral || Text.isBlank raw then p.emitter.depth
  else (p.emitter.dedent line.indent (LineShape.ofLine line.masked).isContinuation).depth

/-- How many blocks lines open. -/
def opened (p : Progress) : List (List Char) → Nat
  | [] => 0
  | raw :: raws => ((p.feed raw).emitter.depth - p.within raw) + (p.feed raw).opened raws

/-- How many blocks lines end, by their indentation and as closers. -/
def ended (p : Progress) : List (List Char) → Nat
  | [] => 0
  | raw :: raws =>
    (p.emitter.depth - p.within raw) + (p.within raw - (p.feed raw).emitter.depth) +
      (p.feed raw).ended raws

theorem within_le_depth (p : Progress) (raw : List Char) : p.within raw ≤ p.emitter.depth := by
  unfold within
  dsimp only
  split
  · exact Nat.le_refl _
  · unfold Emitter.depth
    rw [Emitter.stack_dedent]
    exact blocks_dropWhile_le _ _

/-- What was open before and what lines open is what they end and what is open behind them. -/
theorem depth_add_opened (p : Progress) (raws : List (List Char)) :
    p.emitter.depth + p.opened raws = p.ended raws + (raws.foldl feed p).emitter.depth := by
  induction raws generalizing p with
  | nil => exact (Nat.zero_add _).symm
  | cons raw raws ih =>
    have hnext := ih (p.feed raw)
    have hle := p.within_le_depth raw
    rw [opened, ended, List.foldl_cons]
    omega

theorem opened_append (p : Progress) (xs ys : List (List Char)) :
    p.opened (xs ++ ys) = p.opened xs + (xs.foldl feed p).opened ys := by
  induction xs generalizing p with
  | nil => exact (Nat.zero_add _).symm
  | cons x xs ih => rw [List.cons_append, opened, ih, opened, List.foldl_cons, Nat.add_assoc]

/-- Which blocks a line opens does not depend on the frames that it finds. -/
theorem opened_eq (p : Progress) (raws : List (List Char)) :
    p.opened raws = FrameStep.openedBy (FrameStep.ofLines p.emitter.target p.scanner raws) := by
  induction raws generalizing p with
  | nil => rfl
  | cons raw raws ih =>
    obtain ⟨hscanner, htarget⟩ := p.feed_keeps raw
    rw [opened, ih, hscanner, htarget, FrameStep.ofLines, Emitter.depth_eq_blocks, stack_feed, within]
    split
    · rw [FrameStep.openedBy, Emitter.depth_eq_blocks, Nat.sub_self, Nat.zero_add]
    · rw [FrameStep.openedBy, Emitter.depth_eq_blocks, Emitter.map_bare_dedent,
        FrameStep.blocks_behind_sub]

end Generation.Progress

end Pseudoscribe
