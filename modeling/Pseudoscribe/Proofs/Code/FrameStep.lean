import Pseudoscribe.Code.Emitter

/-!
# What a line does to the open frames

The emitter writes code and names as it goes, but which frames are open after a line depends on the line
and the frames alone.  A line ends the indented frames that it stands outside of, and then it opens a
frame, closes some, or does neither.
-/

namespace Pseudoscribe

namespace Frame

/-- The frame without the note about its statements, which no line asks for. -/
def bare (f : Frame) : Frame := { f with hasBody := false }

/-- How many of the frames are blocks of the code. -/
def blocks (stack : List Frame) : Nat := (stack.filter (!·.isGroup)).length

@[simp]
theorem blocks_append (xs ys : List Frame) : blocks (xs ++ ys) = blocks xs + blocks ys := by
  simp [blocks]

theorem blocks_cons (f : Frame) (fs : List Frame) :
    blocks (f :: fs) = (if f.isGroup then 0 else 1) + blocks fs := by
  unfold blocks
  cases h : f.isGroup
  · rw [List.filter_cons_of_pos (by simp [h]), List.length_cons]
    simp [Nat.add_comm]
  · rw [List.filter_cons_of_neg (by simp [h])]
    simp

theorem blocks_eq_zero_iff {stack : List Frame} : blocks stack = 0 ↔ ∀ f ∈ stack, f.isGroup = true := by
  simp [blocks]

@[simp]
theorem blocks_map_bare (stack : List Frame) : blocks (stack.map bare) = blocks stack := by
  unfold blocks
  rw [List.filter_map, List.length_map]
  rfl

theorem blocks_take_add_drop (stack : List Frame) (k : Nat) :
    blocks (stack.take k) + blocks (stack.drop k) = blocks stack := by
  rw [← blocks_append, List.take_append_drop]

theorem blocks_dropWhile_le (p : Frame → Bool) (stack : List Frame) :
    blocks (stack.dropWhile p) ≤ blocks stack := by
  have h := List.takeWhile_append_dropWhile (p := p) (l := stack)
  have hb := blocks_append (stack.takeWhile p) (stack.dropWhile p)
  rw [h] at hb
  omega

/-- The frame that a closer ends, with all frames inside of it.  A closer with a test looks for a loop that
tests at its end before it looks for any other. -/
def closeIndex? (kind : Option BlockKind) (test : Bool) (stack : List Frame) : Option Nat :=
  (if test then stack.findIdx? (·.kind == .loopUntil) else none).or
    (stack.findIdx? (·.fits kind))

/-- The frames that a closer leaves. -/
def closed (kind : Option BlockKind) (test : Bool) (stack : List Frame) : List Frame :=
  match closeIndex? kind test stack with
  | some i => stack.drop (i + 1)
  | none => stack

theorem blocks_closed_le (kind : Option BlockKind) (test : Bool) (stack : List Frame) :
    blocks (closed kind test stack) ≤ blocks stack := by
  unfold closed
  split
  · next i _ =>
    have hsplit := blocks_take_add_drop stack (i + 1)
    omega
  · exact Nat.le_refl _

theorem closeIndex?_map_bare (kind : Option BlockKind) (test : Bool) (stack : List Frame) :
    closeIndex? kind test (stack.map bare) = closeIndex? kind test stack := by
  unfold closeIndex?
  rw [List.findIdx?_map, List.findIdx?_map]
  rfl

theorem closed_map_bare (kind : Option BlockKind) (test : Bool) (stack : List Frame) :
    closed kind test (stack.map bare) = (closed kind test stack).map bare := by
  unfold closed
  rw [closeIndex?_map_bare]
  split
  · rw [List.map_drop]
  · rfl

end Frame

open Pseudoscribe.Frame

/-- What a line does to the open frames, once it has ended those that it stands outside of. -/
inductive FrameAct where
  | keep
  | opens (frame : Frame)
  /-- a closer; with a test, if it is `UNTIL` -/
  | closes (kind : Option BlockKind) (test : Bool)
deriving DecidableEq, Repr

/-- A line, as far as the open frames see it. -/
structure FrameStep where
  indent : Nat
  continuation : Bool
  act : FrameAct
deriving DecidableEq, Repr

namespace FrameStep

/-- The code of a line, as the emitter takes it from the line and its masked text. -/
def codeOf (line : ScannedLine) (raw : List Char) : List Char :=
  (Text.trim raw).take (Text.trim line.masked).length

/-- What the frame of a header stands for. -/
def headerKind (target : Target) (kind : BlockKind) (code : List Char) : FrameKind :=
  let header := Header.ofText kind (Header.strip code)
  if header = .group ∨ (Form.header target header).isNone then .group
  else if header = .loopUntil then .loopUntil
  else .block kind

/-- What a line that is not blank does. -/
def ofLine (target : Target) (line : ScannedLine) (raw : List Char) : FrameStep :=
  let shape := LineShape.ofLine line.masked
  { indent := line.indent
    continuation := shape.isContinuation
    act := match shape with
      | .plain | .continues _ => .keep
      | .opens kind style =>
        .opens ⟨headerKind target kind (codeOf line raw), style, line.indent, false⟩
      | .closes kind _ => .closes kind (Emitter.untilTest? (codeOf line raw)).isSome }

/-- The frames that the line leaves open by its indentation. -/
def dedented (s : FrameStep) (stack : List Frame) : List Frame :=
  stack.dropWhile (·.endsAt s.indent s.continuation)

/-- The frames that are open behind the line. -/
def behind (s : FrameStep) (stack : List Frame) : List Frame :=
  match s.act with
  | .keep => s.dedented stack
  | .opens f => f :: s.dedented stack
  | .closes kind test => closed kind test (s.dedented stack)

theorem dedented_map_bare (s : FrameStep) (stack : List Frame) :
    s.dedented (stack.map bare) = (s.dedented stack).map bare := by
  unfold dedented
  rw [List.dropWhile_map]
  rfl

end FrameStep

/-! ## The emitter -/

theorem LineShape.ofLine_of_trim_eq_nil {masked : List Char} (h : Text.trim masked = []) :
    LineShape.ofLine masked = .plain := by
  unfold LineShape.ofLine
  rw [h]

namespace Emitter

theorem closing_keeps (e : Emitter) (f : Frame) :
    (e.closing f).stack = e.stack ∧ (e.closing f).target = e.target := by
  unfold closing
  split
  · exact ⟨rfl, rfl⟩
  · split
    · split <;> exact ⟨rfl, rfl⟩
    · exact ⟨rfl, rfl⟩

theorem pop_keeps (e : Emitter) : e.pop.stack = e.stack.tail ∧ e.pop.target = e.target := by
  unfold pop
  split
  · next h => exact ⟨by rw [h, List.tail_nil], rfl⟩
  · next f fs h =>
    obtain ⟨hstack, htarget⟩ := closing_keeps { e with stack := fs } f
    exact ⟨by rw [hstack, h, List.tail_cons], htarget⟩

@[simp]
theorem stack_popMany (count : Nat) (e : Emitter) : (popMany count e).stack = e.stack.drop count := by
  induction count generalizing e with
  | zero => rfl
  | succ k ih => rw [popMany, ih, e.pop_keeps.1, List.drop_tail]

@[simp]
theorem target_popMany (count : Nat) (e : Emitter) : (popMany count e).target = e.target := by
  induction count generalizing e with
  | zero => rfl
  | succ k ih => rw [popMany, ih, e.pop_keeps.2]

theorem stack_dedent (e : Emitter) (indent : Nat) (continuation : Bool) :
    (e.dedent indent continuation).stack = e.stack.dropWhile (·.endsAt indent continuation) := by
  have h := List.takeWhile_append_dropWhile (p := (·.endsAt indent continuation)) (l := e.stack)
  rw [dedent, stack_popMany]
  exact (congrArg _ h.symm).trans List.drop_left

@[simp]
theorem target_dedent (e : Emitter) (indent : Nat) (continuation : Bool) :
    (e.dedent indent continuation).target = e.target := target_popMany _ e

theorem map_bare_markBody (stack : List Frame) : (markBody stack).map bare = stack.map bare := by
  induction stack with
  | nil => rfl
  | cons f fs ih =>
    rw [markBody]
    split
    · rw [List.map_cons, ih, List.map_cons]
    · rfl

theorem map_bare_statement (e : Emitter) (text : List Char) :
    (e.statement text).stack.map bare = e.stack.map bare := map_bare_markBody e.stack

theorem popUntil_keeps (e : Emitter) (test : List Char) :
    (e.popUntil test).stack = e.stack.drop 1 ∧ (e.popUntil test).target = e.target := by
  obtain ⟨target, width, stack, declared, out⟩ := e
  cases target <;> exact ⟨rfl, rfl⟩

/-- A closer ends the frames up to the one that it finds. -/
theorem stack_close (e : Emitter) (kind : Option BlockKind) (code : List Char) :
    (e.close kind code).stack = closed kind (untilTest? code).isSome e.stack := by
  unfold close closed closeIndex?
  cases htest : untilTest? code with
  | none =>
    simp only [Option.isSome_none, Bool.false_eq_true, if_false, Option.none_or]
    cases e.stack.findIdx? (·.fits kind) with
    | none => rfl
    | some i => exact stack_popMany (i + 1) e
  | some test =>
    simp only [Option.isSome_some, if_true]
    -- the test looks for its loop first, and is an ordinary closer if there is none
    cases e.stack.findIdx? (·.kind == .loopUntil) with
    | none =>
      simp only [Option.none_or]
      cases e.stack.findIdx? (·.fits kind) with
      | none => rfl
      | some i => exact stack_popMany (i + 1) e
    | some i =>
      simp only [Option.some_or]
      rw [(popUntil_keeps _ test).1, stack_popMany, List.drop_drop]

theorem target_close (e : Emitter) (kind : Option BlockKind) (code : List Char) :
    (e.close kind code).target = e.target := by
  unfold close
  dsimp only
  split
  · rw [(popUntil_keeps _ _).2, target_popMany]
  · split
    · rw [target_popMany]
    · rfl

theorem carryOn_keeps (e : Emitter) (code : List Char) :
    (e.carryOn code).2.stack.map bare = e.stack.map bare ∧
      (e.carryOn code).2.target = e.target := by
  unfold carryOn
  split
  · next line f fs _ hs =>
    dsimp only
    refine ⟨by rw [hs]; rfl, ?_⟩
    split <;> rfl
  · exact ⟨rfl, rfl⟩

theorem plain_keeps (e : Emitter) (code : List Char) :
    (e.plain code).2.stack.map bare = e.stack.map bare ∧ (e.plain code).2.target = e.target := by
  unfold plain
  dsimp only
  split
  · exact ⟨map_bare_statement _ _, rfl⟩
  · exact ⟨rfl, rfl⟩
  · exact ⟨map_bare_statement _ _, rfl⟩

theorem opens_keeps (e : Emitter) (code : List Char) (kind : BlockKind) (style : BlockStyle)
    (indent : Nat) :
    (e.opens code kind style indent).2.stack.map bare =
        ⟨FrameStep.headerKind e.target kind code, style, indent, false⟩ :: e.stack.map bare ∧
      (e.opens code kind style indent).2.target = e.target := by
  unfold opens FrameStep.headerKind
  dsimp only
  split
  · next hgroup =>
    rw [if_pos (.inl hgroup)]
    exact ⟨rfl, rfl⟩
  · next hnone _ =>
    rw [if_pos (.inr (by rw [hnone]; rfl))]
    exact ⟨congrArg (List.cons _) (map_bare_statement e _), rfl⟩
  · next line hline hgroup =>
    have hnot : ¬ (Header.ofText kind (Header.strip code) = .group ∨
        (Form.header e.target (Header.ofText kind (Header.strip code))).isNone = true) := by
      simpa [hline] using hgroup
    rw [if_neg hnot]
    exact ⟨congrArg (List.cons _) (map_bare_statement (e.declare _) line), rfl⟩

/-- Which frames are open behind a line. -/
theorem stack_line (e : Emitter) (line : ScannedLine) (raw : List Char) :
    (e.line line raw).2.stack.map bare =
        (FrameStep.ofLine e.target line raw).behind (e.stack.map bare) ∧
      (e.line line raw).2.target = e.target := by
  have hdedent : (FrameStep.ofLine e.target line raw).dedented (e.stack.map bare) =
      (e.dedent line.indent (LineShape.ofLine line.masked).isContinuation).stack.map bare := by
    rw [stack_dedent, FrameStep.dedented_map_bare]
    rfl
  have htarget := target_dedent e line.indent (LineShape.ofLine line.masked).isContinuation
  unfold FrameStep.behind
  rw [hdedent]
  unfold Emitter.line FrameStep.ofLine FrameStep.codeOf
  dsimp only
  generalize e.dedent line.indent (LineShape.ofLine line.masked).isContinuation = d at htarget ⊢
  split
  · next hempty =>
    rw [LineShape.ofLine_of_trim_eq_nil (List.isEmpty_iff.1 hempty)]
    exact ⟨map_bare_statement d _, htarget⟩
  · generalize (Text.trim raw).take (Text.trim line.masked).length = code
    cases LineShape.ofLine line.masked with
    | plain =>
      dsimp only
      exact ⟨(d.plain_keeps code).1, (d.plain_keeps code).2.trans htarget⟩
    | continues =>
      dsimp only
      exact ⟨(d.carryOn_keeps code).1, (d.carryOn_keeps code).2.trans htarget⟩
    | opens kind style =>
      dsimp only
      rw [← htarget]
      exact d.opens_keeps code kind style line.indent
    | closes kind style =>
      dsimp only
      refine ⟨?_, (target_close d kind _).trans htarget⟩
      rw [stack_close, closed_map_bare]

end Emitter

end Pseudoscribe
