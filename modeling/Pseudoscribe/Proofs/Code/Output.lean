import Pseudoscribe.Proofs.Code.Nesting

/-!
# Nesting as it is written

The level of a line is the indentation of the statement that the emitter writes for it, and in JavaScript
each block that ends is one line of the code.
-/

namespace Pseudoscribe

open Pseudoscribe.Frame

/-- The end of the frame is not written. -/
def Frame.endsSilently (target : Target) (f : Frame) : Bool := f.isGroup || (target == .python && f.hasBody)

namespace Emitter

/-! ## Blocks that end -/

theorem depth_eq_blocks_stack (e : Emitter) : e.depth = blocks e.stack := rfl

theorem closing_javascript {e : Emitter} (h : e.target = .javascript) {f : Frame}
    (hf : f.isGroup = false) : ∃ text, e.closing f = e.emitAt e.depth text := by
  unfold closing
  rw [hf, h]
  exact ⟨_, rfl⟩

/-- A block that ends is one line, at the level that is left. -/
theorem pop_javascript {e : Emitter} (h : e.target = .javascript) {f : Frame} {fs : List Frame}
    (hs : e.stack = f :: fs) (hf : f.isGroup = false) :
    ∃ text, e.pop.out = e.out.push (List.replicate (blocks fs * e.width) ' ' ++ text) := by
  obtain ⟨text, htext⟩ := closing_javascript (e := { e with stack := fs }) h hf
  refine ⟨text, ?_⟩
  unfold pop
  rw [hs]
  dsimp only
  rw [htext]
  rfl

theorem pop_group {e : Emitter} {f : Frame} {fs : List Frame} (hs : e.stack = f :: fs)
    (hf : f.isGroup = true) : e.pop.out = e.out := by
  unfold pop
  rw [hs]
  dsimp only
  unfold closing
  rw [if_pos hf]

theorem size_pop {e : Emitter} (h : e.target = .javascript) :
    e.pop.out.size + e.pop.depth = e.out.size + e.depth := by
  rw [depth_eq_blocks_stack, depth_eq_blocks_stack, e.pop_keeps.1]
  cases hs : e.stack with
  | nil =>
    unfold pop
    rw [hs]
    rfl
  | cons f fs =>
    rw [List.tail_cons, blocks_cons]
    cases hf : f.isGroup with
    | true =>
      rw [pop_group hs hf, if_pos rfl, Nat.zero_add]
    | false =>
      obtain ⟨text, hout⟩ := pop_javascript h hs hf
      rw [hout, Array.size_push, if_neg Bool.false_ne_true]
      omega

/-- Of the frames that end, each that is a block is one line. -/
theorem size_popMany (count : Nat) {e : Emitter} (h : e.target = .javascript) :
    (popMany count e).out.size + (popMany count e).depth = e.out.size + e.depth := by
  induction count generalizing e with
  | zero => rfl
  | succ k ih => rw [popMany, ih (e.pop_keeps.2.trans h), size_pop h]

theorem popMany_succ (count : Nat) (e : Emitter) : popMany (count + 1) e = (popMany count e).pop := by
  induction count generalizing e with
  | zero => rfl
  | succ k ih =>
    show popMany (k + 1) e.pop = (popMany k e.pop).pop
    exact ih e.pop

theorem popMany_add (m n : Nat) (e : Emitter) : popMany (m + n) e = popMany n (popMany m e) := by
  induction m generalizing e with
  | zero => rw [Nat.zero_add]; rfl
  | succ k ih => rw [Nat.succ_add, popMany, ih, popMany]

theorem closing_silent {e : Emitter} {f : Frame} (h : f.endsSilently e.target = true) : e.closing f = e := by
  unfold Frame.endsSilently at h
  unfold closing
  cases hf : f.isGroup with
  | true => rfl
  | false =>
    rw [hf, Bool.false_or, Bool.and_eq_true] at h
    rw [eq_of_beq h.1, h.2]
    rfl

theorem popMany_silent {count : Nat} {e : Emitter}
    (h : (e.stack.take count).all (·.endsSilently e.target) = true) :
    popMany count e = { e with stack := e.stack.drop count } := by
  induction count generalizing e with
  | zero => rfl
  | succ k ih =>
    cases hs : e.stack with
    | nil =>
      have hpop : e.pop = e := by
        unfold pop
        rw [hs]
      rw [popMany, hpop, ih (by rw [hs, List.take_nil]; rfl), hs, List.drop_nil, List.drop_nil]
    | cons f fs =>
      rw [hs, List.take_succ_cons, List.all_cons, Bool.and_eq_true] at h
      have hpop : e.pop = { e with stack := fs } := by
        unfold pop
        rw [hs]
        exact closing_silent h.1
      rw [popMany, hpop, ih h.2]
      rfl

theorem width_closing (e : Emitter) (f : Frame) : (e.closing f).width = e.width := by
  unfold closing
  split
  · rfl
  · split
    · split <;> rfl
    · rfl

theorem width_pop (e : Emitter) : e.pop.width = e.width := by
  unfold pop
  split
  · rfl
  · next f fs _ => exact width_closing { e with stack := fs } f

@[simp]
theorem width_popMany (count : Nat) (e : Emitter) : (popMany count e).width = e.width := by
  induction count generalizing e with
  | zero => rfl
  | succ k ih => rw [popMany, ih, width_pop]

/-- How a closer ends the frame that it finds. -/
inductive Closing (e after : Emitter) (i : Nat) : Prop
  | pop (eq : after = (popMany i e).pop)
  | test (text : List Char) (eq : after = (popMany i e).popUntil text)
    (loop : ∀ f fs, e.stack.drop i = f :: fs → f.kind = .loopUntil)

theorem close_closing {e : Emitter} {kind : Option BlockKind} {code : List Char} {i : Nat}
    (hi : closeIndex? kind (untilTest? code).isSome e.stack = some i) :
    Closing e (e.close kind code) i := by
  unfold closeIndex? at hi
  unfold close
  dsimp only
  cases htest : untilTest? code with
  | none =>
    rw [htest] at hi
    simp only [Option.isSome_none, Bool.false_eq_true, if_false, Option.none_or] at hi
    rw [hi]
    exact .pop (popMany_succ i e)
  | some test =>
    rw [htest] at hi
    simp only [Option.isSome_some, if_true] at hi
    cases hloop : e.stack.findIdx? (·.kind == .loopUntil) with
    | none =>
      rw [hloop, Option.none_or] at hi
      rw [hi]
      exact .pop (popMany_succ i e)
    | some j =>
      rw [hloop, Option.some_or] at hi
      cases hi
      refine .test test rfl fun f fs hdrop => ?_
      obtain ⟨hlt, hkind, -⟩ := List.findIdx?_eq_some_iff_getElem.1 hloop
      rw [List.drop_eq_getElem_cons hlt] at hdrop
      cases hdrop
      simpa using hkind

theorem popUntil_javascript {e : Emitter} (h : e.target = .javascript) {f : Frame} {fs : List Frame}
    (hs : e.stack = f :: fs) (test : List Char) :
    ∃ text, (e.popUntil test).out = e.out.push (List.replicate (blocks fs * e.width) ' ' ++ text) := by
  obtain ⟨target, width, stack, declared, out⟩ := e
  obtain rfl : target = .javascript := h
  obtain rfl : stack = f :: fs := hs
  exact ⟨_, rfl⟩

theorem close_of_none {e : Emitter} {kind : Option BlockKind} {code : List Char}
    (hi : closeIndex? kind (untilTest? code).isSome e.stack = none) : e.close kind code = e := by
  obtain ⟨hloop, hfits⟩ := Option.or_eq_none_iff.1 hi
  unfold close
  dsimp only
  cases htest : untilTest? code with
  | none => rw [hfits]
  | some test =>
    rw [htest, Option.isSome_some, if_pos rfl] at hloop
    rw [hloop, hfits]

/-- A closer that ends a block is written at the level that it leaves. -/
theorem out_close_javascript {e : Emitter} (h : e.target = .javascript) {kind : Option BlockKind}
    {code : List Char} {i : Nat} (hi : closeIndex? kind (untilTest? code).isSome e.stack = some i)
    {f : Frame} {fs : List Frame} (hs : e.stack.drop i = f :: fs) (hf : f.isGroup = false) :
    ∃ text, (e.close kind code).out =
      (popMany i e).out.push (List.replicate ((e.close kind code).depth * e.width) ' ' ++ text) := by
  have hstack : (popMany i e).stack = f :: fs := (stack_popMany i e).trans hs
  have htarget : (popMany i e).target = .javascript := (target_popMany i e).trans h
  have hdepth : (e.close kind code).depth = blocks fs := by
    rw [depth_eq_blocks_stack, stack_close, closed, hi]
    dsimp only
    rw [← List.tail_drop, hs, List.tail_cons]
  rw [hdepth, ← width_popMany i e]
  cases close_closing hi with
  | pop heq =>
    rw [heq]
    exact pop_javascript htarget hstack hf
  | test text heq hloop =>
    rw [heq]
    exact popUntil_javascript htarget hstack text

/-- A closer writes one line for each block that it ends. -/
theorem size_close {e : Emitter} (h : e.target = .javascript) (kind : Option BlockKind)
    (code : List Char) :
    (e.close kind code).out.size + (e.close kind code).depth = e.out.size + e.depth := by
  cases hi : closeIndex? kind (untilTest? code).isSome e.stack with
  | none => rw [close_of_none hi]
  | some i =>
    have hmany := size_popMany i h
    cases close_closing hi with
    | pop heq => rw [heq, size_pop ((target_popMany i e).trans h), hmany]
    | test text heq hloop =>
      have hlt := FrameStep.closeIndex?_lt hi
      have hs := List.drop_eq_getElem_cons hlt
      have hgroup : (e.stack[i]).isGroup = false := by
        rw [isGroup, hloop _ _ hs]
        rfl
      obtain ⟨line, hout⟩ := out_close_javascript h hi hs hgroup
      have hdepth : (popMany i e).depth = 1 + blocks (e.stack.drop (i + 1)) := by
        rw [depth_eq_blocks_stack, stack_popMany, hs, blocks_cons, hgroup]
        rfl
      have hdepth' : (e.close kind code).depth = blocks (e.stack.drop (i + 1)) := by
        rw [depth_eq_blocks_stack, stack_close, FrameStep.closed_of_some hi]
      rw [hout, Array.size_push]
      omega

/-- What the emitter makes of a line: it ends the frames that the line stands outside of, and then it writes a
comment, says what a plain line says, carries a block on, opens one, or closes some. -/
inductive LineCase (e : Emitter) (line : ScannedLine) (raw : List Char) : Prop
  | comment (empty : Text.trim line.masked = [])
    (eq : e.line line raw = (true, (e.dedent line.indent false).statement
      (Text.trimEnd (e.target.comment (commentText (Text.trim raw))))))
  | plain (shape : LineShape.ofLine line.masked = .plain) (nonempty : Text.trim line.masked ≠ [])
    (eq : e.line line raw = (e.dedent line.indent false).plain (FrameStep.codeOf line raw))
  | continues (style : BlockStyle) (shape : LineShape.ofLine line.masked = .continues style)
    (eq : e.line line raw = (e.dedent line.indent true).carryOn (FrameStep.codeOf line raw))
  | opens (kind : BlockKind) (style : BlockStyle) (shape : LineShape.ofLine line.masked = .opens kind style)
    (eq : e.line line raw =
      (e.dedent line.indent false).opens (FrameStep.codeOf line raw) kind style line.indent)
  | closes (kind : Option BlockKind) (style : BlockStyle)
    (shape : LineShape.ofLine line.masked = .closes kind style)
    (eq : e.line line raw = (true, (e.dedent line.indent false).close kind (FrameStep.codeOf line raw)))

theorem lineCase (e : Emitter) (line : ScannedLine) (raw : List Char) : LineCase e line raw := by
  have htarget := target_dedent e line.indent false
  by_cases hempty : Text.trim line.masked = []
  · refine .comment hempty ?_
    unfold Emitter.line
    dsimp only
    rw [LineShape.ofLine_of_trim_eq_nil hempty, hempty, ← htarget]
    rfl
  · cases hshape : LineShape.ofLine line.masked with
    | plain =>
      exact .plain hshape hempty
        (by simp [Emitter.line, hshape, hempty, LineShape.isContinuation, FrameStep.codeOf])
    | continues style =>
      exact .continues style hshape
        (by simp [Emitter.line, hshape, hempty, LineShape.isContinuation, FrameStep.codeOf])
    | opens kind style =>
      exact .opens kind style hshape
        (by simp [Emitter.line, hshape, hempty, LineShape.isContinuation, FrameStep.codeOf])
    | closes kind style =>
      exact .closes kind style hshape
        (by simp [Emitter.line, hshape, hempty, LineShape.isContinuation, FrameStep.codeOf])

theorem line_closes {line : ScannedLine} {kind : Option BlockKind} {style : BlockStyle}
    (hshape : LineShape.ofLine line.masked = .closes kind style) (e : Emitter) (raw : List Char) :
    (e.line line raw).2 = (e.dedent line.indent false).close kind (FrameStep.codeOf line raw) := by
  cases e.lineCase line raw with
  | comment hempty _ =>
    rw [LineShape.ofLine_of_trim_eq_nil hempty] at hshape
    cases hshape
  | plain hshape' | continues _ hshape' | opens _ _ hshape' =>
    rw [hshape'] at hshape
    cases hshape
  | closes kind' style' hshape' heq =>
    rw [hshape'] at hshape
    cases hshape
    rw [heq]

/-- Each block that a closer ends, by its indentation or as its closer, is one line of the code. -/
theorem size_line_closes {e : Emitter} (h : e.target = .javascript) {line : ScannedLine}
    {kind : Option BlockKind} {style : BlockStyle}
    (hshape : LineShape.ofLine line.masked = .closes kind style) (raw : List Char) :
    (e.line line raw).2.out.size + (e.line line raw).2.depth = e.out.size + e.depth := by
  rw [line_closes hshape, size_close ((target_dedent e _ _).trans h)]
  exact size_popMany _ h

/-! ## Statements -/

theorem depth_statement (e : Emitter) (text : List Char) : (e.statement text).depth = e.depth := by
  rw [depth_eq_blocks, depth_eq_blocks, map_bare_statement]

theorem back_statement (e : Emitter) (text : List Char) :
    (e.statement text).out.back? = some (List.replicate (e.depth * e.width) ' ' ++ text) :=
  Array.back?_push

theorem depth_push_group (e : Emitter) (style : BlockStyle) (indent : Nat) :
    (e.push .group style indent).depth = e.depth := by
  rw [depth_eq_blocks_stack, depth_eq_blocks_stack, push, blocks_cons]
  exact Nat.zero_add _

theorem depth_push_block {e : Emitter} {kind : FrameKind} (h : kind ≠ .group) (style : BlockStyle) (indent : Nat) :
    (e.push kind style indent).depth = e.depth + 1 := by
  have hgroup : (⟨kind, style, indent, false⟩ : Frame).isGroup = false := beq_eq_false_iff_ne.2 h
  rw [depth_eq_blocks_stack, depth_eq_blocks_stack, push, blocks_cons, hgroup, Nat.add_comm]
  rfl

/-- A header opens a block, whichever frame it puts on the stack. -/
theorem depth_header (e : Emitter) (line : List Char) (h : Header) (kind : BlockKind) (style : BlockStyle)
    (indent : Nat) :
    ((e.statement line).push (if h = .loopUntil then .loopUntil else .block kind) style indent).depth =
      e.depth + 1 := by
  have hkind : (if h = .loopUntil then FrameKind.loopUntil else .block kind) ≠ .group := by
    split <;> simp
  rw [depth_push_block hkind, depth_statement]

theorem out_plain (e : Emitter) (code : List Char) :
    (e.plain code).2.out = e.out ∨
      ∃ text, (e.plain code).2.out.back? = some (List.replicate (e.depth * e.width) ' ' ++ text) := by
  unfold plain
  dsimp only
  split
  · exact .inr ⟨_, back_statement e _⟩
  · exact .inl rfl
  · exact .inr ⟨_, back_statement (e.declare _) _⟩

theorem out_opens (e : Emitter) (code : List Char) (kind : BlockKind) (style : BlockStyle)
    (indent : Nat) :
    (e.opens code kind style indent).2.out = e.out ∨
      ∃ text, (e.opens code kind style indent).2.out.back? =
        some (List.replicate (e.depth * e.width) ' ' ++ text) := by
  unfold opens
  dsimp only
  split
  · exact .inl rfl
  · exact .inr ⟨_, back_statement e _⟩
  · exact .inr ⟨_, back_statement (e.declare _) _⟩

/-- The block that is carried on has no statement. -/
def carried (e : Emitter) (f : Frame) (fs : List Frame) : Emitter := { e with stack := { f with hasBody := false } :: fs }

theorem carryOn_of_none {e : Emitter} {code : List Char}
    (h : Form.continuation e.target (Continuation.ofCode code) = none) : (e.carryOn code).2 = e := by
  unfold carryOn
  rw [h]

theorem carryOn_of_nil {e : Emitter} {code : List Char} (h : e.stack = []) : (e.carryOn code).2 = e := by
  unfold carryOn
  rw [h]
  cases Form.continuation e.target (Continuation.ofCode code) <;> rfl

theorem carryOn_of_cons {e : Emitter} {code line : List Char} {f : Frame} {fs : List Frame}
    (hline : Form.continuation e.target (Continuation.ofCode code) = some line) (hs : e.stack = f :: fs) :
    (e.carryOn code).2 =
      (if e.target = .python && !f.hasBody then (e.carried f fs).emitAt (e.depth - 1 + 1) "pass".toList
        else e.carried f fs).emitAt (e.depth - 1) line := by
  unfold carryOn
  rw [hline, hs]
  dsimp only
  split <;> rfl

theorem out_carryOn (e : Emitter) (code : List Char) :
    (e.carryOn code).2.out = e.out ∨
      ∃ text, (e.carryOn code).2.out.back? =
        some (List.replicate ((e.depth - 1) * e.width) ' ' ++ text) := by
  unfold carryOn
  split
  · dsimp only
    split
    · exact .inr ⟨_, Array.back?_push⟩
    · exact .inr ⟨_, Array.back?_push⟩
  · exact .inl rfl

/-- A line that is no closer writes its statement last, at its level, if it writes one. -/
theorem back_line (e : Emitter) (line : ScannedLine) (raw : List Char)
    (hshape : ∀ kind style, LineShape.ofLine line.masked ≠ .closes kind style) :
    (e.line line raw).2.out =
        (e.dedent line.indent (LineShape.ofLine line.masked).isContinuation).out ∨
      ∃ text, (e.line line raw).2.out.back? =
        some (List.replicate ((e.nesting line raw).level * e.width) ' ' ++ text) := by
  have hwidth : (e.dedent line.indent (LineShape.ofLine line.masked).isContinuation).width = e.width :=
    width_popMany _ e
  unfold nesting Emitter.line
  dsimp only
  rw [← hwidth]
  generalize e.dedent line.indent (LineShape.ofLine line.masked).isContinuation = d
  split
  · next hempty =>
    rw [LineShape.ofLine_of_trim_eq_nil (List.isEmpty_iff.1 hempty)]
    exact .inr ⟨_, back_statement d _⟩
  · generalize (Text.trim raw).take (Text.trim line.masked).length = code
    cases hs : LineShape.ofLine line.masked with
    | plain =>
      dsimp only
      exact d.out_plain code
    | continues style =>
      dsimp only
      exact d.out_carryOn code
    | opens kind style =>
      dsimp only
      exact d.out_opens code kind style line.indent
    | closes kind style => exact absurd hs (hshape kind style)

/-- In JavaScript a closer that ends a block writes the end of that block last, at its level. -/
theorem back_line_closes {e : Emitter} (h : e.target = .javascript) {line : ScannedLine}
    {kind : Option BlockKind} {style : BlockStyle}
    (hshape : LineShape.ofLine line.masked = .closes kind style) (raw : List Char) {i : Nat}
    (hi : closeIndex? kind (untilTest? (FrameStep.codeOf line raw)).isSome
      (e.dedent line.indent false).stack = some i)
    {f : Frame} {fs : List Frame} (hs : (e.dedent line.indent false).stack.drop i = f :: fs)
    (hf : f.isGroup = false) :
    ∃ text, (e.line line raw).2.out.back? =
      some (List.replicate ((e.nesting line raw).level * e.width) ' ' ++ text) := by
  have htarget : (e.dedent line.indent false).target = .javascript := (target_dedent e _ _).trans h
  have hwidth : (e.dedent line.indent false).width = e.width := width_popMany _ e
  have hlevel : (e.nesting line raw).level = (e.line line raw).2.depth := by
    unfold nesting FrameStep.testLevel
    dsimp only
    rw [hshape, h]
    simp
  obtain ⟨text, hout⟩ := out_close_javascript htarget hi hs hf
  refine ⟨text, ?_⟩
  rw [hlevel, line_closes hshape, hout, hwidth]
  exact Array.back?_push

end Emitter

/-! ## All lines -/

namespace Generation

/-- The lines of code of a source that is read from here, with the ends of the blocks that are open at its end. -/
def Progress.written (p : Progress) (raws : List (List Char)) : List (List Char) :=
  let e := (raws.foldl feed p).emitter
  (e.popMany e.stack.length).out.toList

theorem Progress.emitter_feed (p : Progress) (raw : List Char) :
    (p.feed raw).emitter =
      if (p.scanner.feed raw).1.startsInLiteral then p.emitter.emit (Text.trimEnd raw)
      else if Text.isBlank raw then p.emitter.emit []
      else (p.emitter.line (p.scanner.feed raw).1 raw).2 := by
  unfold feed
  dsimp only
  split
  · rfl
  · split <;> rfl

theorem Progress.written_cons (p : Progress) (raw : List Char) (raws : List (List Char)) :
    p.written (raw :: raws) = (p.feed raw).written raws := rfl

theorem Progress.written_append (p : Progress) (xs ys : List (List Char)) :
    p.written (xs ++ ys) = (xs.foldl feed p).written ys := by
  unfold written
  rw [List.foldl_append]

/-- The code is its lines, without the blank ones at the end. -/
theorem code_ofSource (target : Target) (width : Nat) (source : List Char) :
    (ofSource target width {} source).code =
      joinLines (({ emitter := start target width {} } : Progress).written (Text.lines source)) := rfl

end Generation

end Pseudoscribe
