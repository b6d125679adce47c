import Pseudoscribe.Proofs.Code.ChunkedNesting
import Pseudoscribe.Proofs.Code.Output
import Pseudoscribe.Proofs.Text.Pieces

/-!
# Comment lines

A comment line that is put between two lines of a source is one more line of the code.  It is the body of the
block that it stands in, which then needs no `pass`, and it ends the indented blocks that it stands outside of.
So all other lines stay as they are if no block ends there, or if the blocks that end there end at the next line
of code as well.
-/

namespace Pseudoscribe

open Pseudoscribe.Frame

/-! ## The scan -/

namespace Scanner

/-- Of a comment line only the blanks before the comment are left. -/
theorem consume_comment {s : Scanner} (hmode : s.mode = .code) (hhash : s.style.hash = true) (prev : Option Char)
    (column : Nat) {lead : List Char} (hlead : Text.isBlank lead = true) (text : List Char) :
    (s.consume 0 prev column (lead ++ '#' :: text)).1 = lead ∧
      (s.consume 0 prev column (lead ++ '#' :: text)).2.mode = .code := by
  induction lead generalizing s prev column with
  | nil =>
    have hstep : s.step prev column '#' text = .stop := by
      unfold step
      rw [hmode]
      simp [startsComment, hhash]
    rw [List.nil_append, consume, hstep]
    exact ⟨rfl, hmode⟩
  | cons c lead ih =>
    obtain ⟨hc, hlead⟩ := Bool.and_eq_true_iff.1 hlead
    obtain ⟨mask, next, hstep, hnext, hmask⟩ := s.step_space prev column (lead ++ '#' :: text) hc
    have hstyle : next.style.hash = true := by rw [(follows_step hstep).style, hhash]
    obtain ⟨hfst, hsnd⟩ := ih (hnext.trans hmode) hstyle (some c) (column + 1) hlead
    rw [List.cons_append, consume, hstep]
    dsimp only
    exact ⟨by rw [hfst, hmask hmode]; rfl, hsnd⟩

theorem startsInLiteral_of_code {s : Scanner} (h : s.mode = .code) (raw : List Char) :
    (s.feed raw).1.startsInLiteral = false := by
  show (!s.mode.isCode) = false
  rw [h]
  rfl

theorem indentation_comment (lead text : List Char) :
    indentation (lead ++ '#' :: text) = indentation lead := by
  have htake : (lead ++ '#' :: text).takeWhile (fun c => c == ' ' || c == '\t') =
      lead.takeWhile fun c => c == ' ' || c == '\t' := by
    rw [List.takeWhile_append]
    split
    · next h =>
      rw [List.takeWhile_cons_of_neg (by decide), List.append_nil]
      exact ((List.takeWhile_prefix _).eq_of_length h).symm
    · rfl
  unfold indentation
  rw [htake]

/-- A comment line has no code, and behind it a scan that stands in code goes on as before it. -/
theorem feed_comment {s : Scanner} (hmode : s.mode = .code) (hhash : s.style.hash = true) {lead : List Char}
    (hlead : Text.isBlank lead = true) (text : List Char) :
    (s.feed (lead ++ '#' :: text)).1.masked = lead ∧
      (s.feed (lead ++ '#' :: text)).1.indent = (indentation lead).1 ∧
      s.Alike (s.feed (lead ++ '#' :: text)).2 := by
  have hends : Text.dropLineEnds (lead ++ '#' :: text) = lead ++ '#' :: Text.dropLineEnds text :=
    Text.dropEndWhile_append_cons (by decide) lead text
  obtain ⟨hmasked, hbehind⟩ := consume_comment (s := { s with line := s.line + 1 }) hmode hhash none 1 hlead
    (Text.dropLineEnds text)
  rw [← hends] at hmasked hbehind
  refine ⟨hmasked, ?_, (feed_style s _).symm, ?_⟩
  · show (indentation (Text.dropLineEnds (lead ++ '#' :: text))).1 = (indentation lead).1
    rw [hends, indentation_comment]
  · have hsettled : (({ s with line := s.line + 1 } : Scanner).consume 0 none 1
        (Text.dropLineEnds (lead ++ '#' :: text))).2.Settled := by
      intro quote opened h
      rw [hbehind] at h
      cases h
    have hmode' : (s.feed (lead ++ '#' :: text)).2.mode = .code := by
      show (endLine _).mode = .code
      rw [hsettled.endLine]
      exact hbehind
    rw [hmode, hmode']
    exact .code

end Scanner

/-! ## Lines that differ by a comment -/

/-- The second lines have one line more, with this text behind some blanks. -/
def Inserted (text : List Char) (lines lines' : List (List Char)) : Prop :=
  ∃ before blanks after, lines = before ++ after ∧
    lines' = before ++ (List.replicate blanks ' ' ++ text) :: after

/-- The second lines have one line more, with this text behind some blanks, and in Python perhaps one `pass` less
that would follow it.  All other lines are the same and in the same order. -/
inductive DifferBy (target : Target) (text : List Char) (lines lines' : List (List Char)) : Prop
  | inserted (h : Inserted text lines lines')
  | passLess (python : target = .python) (before between after : List (List Char)) (blanks blanks' : Nat)
    (eq : lines = before ++ between ++ (List.replicate blanks' ' ' ++ "pass".toList) :: after)
    (eq' : lines' = before ++ (List.replicate blanks ' ' ++ text) :: (between ++ after))

theorem Inserted.append {text : List Char} {lines lines' : List (List Char)} (h : Inserted text lines lines')
    (line : List Char) : Inserted text (lines ++ [line]) (lines' ++ [line]) := by
  obtain ⟨before, blanks, after, rfl, rfl⟩ := h
  exact ⟨before, blanks, after ++ [line], by simp, by simp⟩

theorem DifferBy.append {target : Target} {text : List Char} {lines lines' : List (List Char)}
    (h : DifferBy target text lines lines') (line : List Char) :
    DifferBy target text (lines ++ [line]) (lines' ++ [line]) := by
  cases h with
  | inserted h => exact .inserted (h.append line)
  | passLess python before between after blanks blanks' eq eq' =>
    exact .passLess python before between (after ++ [line]) blanks blanks' (by simp [eq]) (by simp [eq'])

theorem DifferBy.mem {target : Target} {text : List Char} {lines lines' : List (List Char)}
    (h : DifferBy target text lines lines') {line : List Char} (hmem : line ∈ lines) :
    line ∈ lines' ∨ ∃ blanks, line = List.replicate blanks ' ' ++ "pass".toList := by
  cases h with
  | inserted h =>
    obtain ⟨before, blanks, after, rfl, rfl⟩ := h
    refine .inl ?_
    rcases List.mem_append.1 hmem with h | h <;> simp [h]
  | passLess python before between after blanks blanks' eq eq' =>
    rw [eq, List.mem_append, List.mem_append, List.mem_cons] at hmem
    rw [eq']
    rcases hmem with (h | h) | h | h
    · exact .inl (by simp [h])
    · exact .inl (by simp [h])
    · exact .inr ⟨blanks', h⟩
    · exact .inl (by simp [h])

theorem Inserted.passLess {text : List Char} {lines lines' : List (List Char)} (h : Inserted text lines lines')
    (blanks : Nat) : DifferBy .python text (lines ++ [List.replicate blanks ' ' ++ "pass".toList]) lines' := by
  obtain ⟨before, blanks', after, rfl, rfl⟩ := h
  exact .passLess rfl before after [] blanks' blanks rfl (by simp)

/-! ## The emitter -/

namespace Emitter

theorem isGroup_hasBody (f : Frame) (b : Bool) : ({ f with hasBody := b } : Frame).isGroup = f.isGroup := rfl

@[simp]
theorem markBody_markBody (stack : List Frame) : markBody (markBody stack) = markBody stack := by
  induction stack with
  | nil => rfl
  | cons f fs ih =>
    cases hf : f.isGroup with
    | true => simp [markBody, hf, ih]
    | false => simp [markBody, hf, isGroup_hasBody]

@[simp]
theorem blocks_markBody (stack : List Frame) : blocks (markBody stack) = blocks stack := by
  rw [← blocks_map_bare, map_bare_markBody, blocks_map_bare]

/-- What does not look at the note about the statements of a frame. -/
theorem findIdx?_markBody {p : Frame → Bool} (hp : ∀ f, p f.bare = p f) (stack : List Frame) :
    (markBody stack).findIdx? p = stack.findIdx? p := by
  have hcomp : p ∘ bare = p := funext hp
  have hbare (fs : List Frame) : (fs.map bare).findIdx? p = fs.findIdx? p := by rw [List.findIdx?_map, hcomp]
  rw [← hbare, map_bare_markBody, hbare]

theorem length_takeWhile_markBody {p : Frame → Bool} (hp : ∀ f, p f.bare = p f) (stack : List Frame) :
    ((markBody stack).takeWhile p).length = (stack.takeWhile p).length := by
  have hcomp : p ∘ bare = p := funext hp
  have hbare (fs : List Frame) : ((fs.map bare).takeWhile p).length = (fs.takeWhile p).length := by
    rw [List.takeWhile_map, hcomp, List.length_map]
  rw [← hbare, map_bare_markBody, hbare]

/-- The second emitter wrote the comment, and is otherwise the first one; or the innermost block of the code has no
other statement yet than the comment. -/
inductive Beside (text : List Char) (e : Emitter) : Emitter → Prop
  | same (out : Array (List Char)) (lines : DifferBy e.target text e.out.toList out.toList) :
    Beside text e { e with out }
  | marked (out : Array (List Char)) (lines : Inserted text e.out.toList out.toList) :
    Beside text e { e with stack := markBody e.stack, out }

namespace Beside

variable {text : List Char} {e e' : Emitter}

theorem target_eq (h : Beside text e e') : e'.target = e.target := by cases h <;> rfl

theorem width_eq (h : Beside text e e') : e'.width = e.width := by cases h <;> rfl

theorem declared_eq (h : Beside text e e') : e'.declared = e.declared := by cases h <;> rfl

theorem depth_eq (h : Beside text e e') : e'.depth = e.depth := by
  cases h with
  | same => rfl
  | marked => exact blocks_markBody e.stack

theorem length_stack (h : Beside text e e') : e'.stack.length = e.stack.length := by
  cases h with
  | same => rfl
  | marked =>
    have hbare := congrArg List.length (map_bare_markBody e.stack)
    simpa only [List.length_map] using hbare

theorem findIdx?_stack (h : Beside text e e') {p : Frame → Bool} (hp : ∀ f, p f.bare = p f) :
    e'.stack.findIdx? p = e.stack.findIdx? p := by
  cases h with
  | same => rfl
  | marked => exact findIdx?_markBody hp e.stack

theorem emit (h : Beside text e e') (line : List Char) : Beside text (e.emit line) (e'.emit line) := by
  cases h with
  | same out lines => exact .same (e := e.emit line) (out.push line) (by simpa [Emitter.emit] using lines.append line)
  | marked out lines =>
    exact .marked (e := e.emit line) (out.push line) (by simpa [Emitter.emit] using lines.append line)

theorem emitAt (h : Beside text e e') (depth : Nat) (line : List Char) :
    Beside text (e.emitAt depth line) (e'.emitAt depth line) := by
  unfold Emitter.emitAt
  rw [h.width_eq]
  exact h.emit _

theorem declare (h : Beside text e e') (names : List String) : Beside text (e.declare names) (e'.declare names) := by
  cases h with
  | same out lines => exact .same (e := e.declare names) out lines
  | marked out lines => exact .marked (e := e.declare names) out lines

/-- A statement is a body as well, so that behind it the comment makes no difference. -/
theorem exists_statement (h : Beside text e e') (line : List Char) :
    ∃ out, e'.statement line = { e.statement line with out } ∧
      DifferBy e.target text (e.statement line).out.toList out.toList := by
  cases h with
  | same out lines =>
    exact ⟨_, rfl, by simpa [Emitter.statement, Emitter.emitAt, Emitter.emit, depth] using lines.append _⟩
  | marked out lines =>
    have hdepth : ({ e with stack := markBody e.stack, out } : Emitter).depth = e.depth := blocks_markBody e.stack
    refine ⟨out.push (List.replicate (e.depth * e.width) ' ' ++ line), ?_, .inserted ?_⟩
    · unfold Emitter.statement
      rw [hdepth]
      dsimp only
      rw [markBody_markBody]
      rfl
    · simpa [Emitter.statement, Emitter.emitAt, Emitter.emit] using lines.append _

theorem statement (h : Beside text e e') (line : List Char) :
    Beside text (e.statement line) (e'.statement line) := by
  obtain ⟨out, heq, hlines⟩ := h.exists_statement line
  rw [heq]
  exact .same out hlines

/-- A group takes no note of statements. -/
theorem push_group (h : Beside text e e') (style : BlockStyle) (indent : Nat) :
    Beside text (e.push .group style indent) (e'.push .group style indent) := by
  cases h with
  | same out lines => exact .same (e := e.push .group style indent) out lines
  | marked out lines => exact .marked (e := e.push .group style indent) out lines

theorem statement_push (h : Beside text e e') (line : List Char) (kind : FrameKind) (style : BlockStyle)
    (indent : Nat) :
    Beside text ((e.statement line).push kind style indent) ((e'.statement line).push kind style indent) := by
  obtain ⟨out, heq, hlines⟩ := h.exists_statement line
  rw [heq]
  exact .same (e := (e.statement line).push kind style indent) out hlines

theorem closing (h : Beside text e e') (f : Frame) : Beside text (e.closing f) (e'.closing f) := by
  unfold Emitter.closing
  rw [h.target_eq, h.depth_eq]
  split
  · exact h
  · split
    · split
      · exact h
      · exact h.emitAt _ _
    · exact h.emitAt _ _

/-- The comment stands in place of a `pass`. -/
theorem of_pass (htarget : e.target = .python) {out : Array (List Char)} (h : Inserted text e.out.toList out.toList)
    (depth : Nat) : Beside text (e.emitAt depth "pass".toList) { e with out } := by
  refine .same (e := e.emitAt depth "pass".toList) out ?_
  have hlines := h.passLess (depth * e.width)
  simpa [Emitter.emitAt, Emitter.emit, htarget] using hlines

/-- Where the block ends that the comment is the only statement of, there is no `pass`. -/
theorem closing_marked {out : Array (List Char)} (h : Inserted text e.out.toList out.toList)
    {f : Frame} (hf : f.isGroup = false) :
    Beside text (e.closing f) ({ e with out }.closing { f with hasBody := true }) := by
  have hsame : Beside text e { e with out } := .same out (.inserted h)
  have hf' : ({ f with hasBody := true } : Frame).isGroup = false := hf
  unfold Emitter.closing
  rw [hf, hf', if_neg Bool.false_ne_true, if_neg Bool.false_ne_true]
  dsimp only
  split
  · next htarget =>
    rw [if_pos rfl]
    split
    · exact hsame
    · exact of_pass htarget h (e.depth + 1)
  · exact hsame.emitAt _ _

theorem pop (h : Beside text e e') : Beside text e.pop e'.pop := by
  unfold Emitter.pop
  cases h with
  | same out lines =>
    dsimp only
    split
    · exact .same out lines
    · next f fs hs => exact closing (.same (e := { e with stack := fs }) out lines) f
  | marked out lines =>
    dsimp only
    split
    · next hs =>
      have hmarked : Beside text e { e with stack := markBody e.stack, out } := .marked out lines
      rwa [hs] at hmarked ⊢
    · next f fs hs =>
      rw [hs, markBody]
      cases hf : f.isGroup with
      | true => exact closing (.marked (e := { e with stack := fs }) out lines) f
      | false => exact closing_marked (e := { e with stack := fs }) lines hf

theorem popMany (h : Beside text e e') (count : Nat) :
    Beside text (e.popMany count) (e'.popMany count) := by
  induction count generalizing e e' with
  | zero => exact h
  | succ k ih => exact ih h.pop

theorem dedent (h : Beside text e e') (indent : Nat) (continuation : Bool) :
    Beside text (e.dedent indent continuation) (e'.dedent indent continuation) := by
  have hlength : (e'.stack.takeWhile (·.endsAt indent continuation)).length =
      (e.stack.takeWhile (·.endsAt indent continuation)).length := by
    cases h with
    | same => rfl
    | marked => exact length_takeWhile_markBody (fun _ => rfl) e.stack
  unfold Emitter.dedent
  rw [hlength]
  exact h.popMany _

theorem drop_one (h : Beside text e e') :
    Beside text { e with stack := e.stack.drop 1 } { e' with stack := e'.stack.drop 1 } := by
  cases h with
  | same out lines => exact .same (e := { e with stack := e.stack.drop 1 }) out lines
  | marked out lines =>
    cases hs : e.stack with
    | nil => exact .marked (e := { e with stack := [] }) out lines
    | cons f fs =>
      cases hf : f.isGroup with
      | true =>
        simp only [markBody, hf, if_true, List.drop_one, List.tail_cons]
        exact .marked (e := { e with stack := fs }) out lines
      | false =>
        simp only [markBody, hf, Bool.false_eq_true, if_false, List.drop_one, List.tail_cons]
        exact .same (e := { e with stack := fs }) out (.inserted lines)

theorem popUntil (h : Beside text e e') (test : List Char) : Beside text (e.popUntil test) (e'.popUntil test) := by
  have hdrop := h.drop_one
  have htarget := h.target_eq
  have hdepth := h.depth_eq
  unfold Emitter.popUntil
  dsimp only
  generalize ({ e' with stack := e'.stack.drop 1 } : Emitter) = d' at hdrop ⊢
  rw [htarget, hdepth, hdrop.depth_eq]
  split
  · exact ((h.emitAt _ _).emitAt _ _).drop_one
  · exact hdrop.emitAt _ _

theorem close (h : Beside text e e') (kind : Option BlockKind) (code : List Char) :
    Beside text (e.close kind code) (e'.close kind code) := by
  unfold Emitter.close
  dsimp only
  rw [h.findIdx?_stack fun _ => rfl, h.findIdx?_stack fun _ => rfl]
  split
  · exact (h.popMany _).popUntil _
  · split
    · exact h.popMany _
    · exact h

theorem carryOn_of_carried (h : Beside text e e') {code line : List Char} {f : Frame} {fs fs' : List Frame}
    (hline : Form.continuation e.target (Continuation.ofCode code) = some line) (hs : e.stack = f :: fs)
    (hs' : e'.stack = f :: fs') (hcarried : Beside text (e.carried f fs) (e'.carried f fs')) :
    Beside text (e.carryOn code).2 (e'.carryOn code).2 := by
  rw [carryOn_of_cons hline hs, carryOn_of_cons (h.target_eq ▸ hline) hs', h.target_eq, h.depth_eq]
  split
  · exact (hcarried.emitAt _ _).emitAt _ _
  · exact hcarried.emitAt _ _

/-- Where the block is carried on that the comment is the only statement of, there is no `pass`. -/
theorem carryOn_marked {out : Array (List Char)} (lines : Inserted text e.out.toList out.toList)
    {code line : List Char} {f : Frame} {fs : List Frame}
    (hline : Form.continuation e.target (Continuation.ofCode code) = some line) (hs : e.stack = f :: fs)
    (hf : f.isGroup = false) :
    Beside text (e.carryOn code).2 (Emitter.carryOn { e with stack := markBody e.stack, out } code).2 := by
  have hdepth : ({ e with stack := markBody e.stack, out } : Emitter).depth = e.depth := blocks_markBody e.stack
  have hs' : markBody e.stack = { f with hasBody := true } :: fs := by
    rw [hs, markBody, if_neg (by simp [hf])]
  rw [carryOn_of_cons hline hs, carryOn_of_cons (e := { e with stack := markBody e.stack, out }) hline hs',
    hdepth, Bool.not_true, Bool.and_false, if_neg Bool.false_ne_true]
  have hpass : Beside text (if e.target = .python && !f.hasBody then
      (e.carried f fs).emitAt (e.depth - 1 + 1) "pass".toList else e.carried f fs)
      { e.carried f fs with out } := by
    split
    · next hcond =>
      have hpython : e.target = .python := by simpa using (Bool.and_eq_true_iff.1 hcond).1
      exact of_pass (e := e.carried f fs) hpython lines (e.depth - 1 + 1)
    · exact .same (e := e.carried f fs) out (.inserted lines)
  exact hpass.emitAt (e.depth - 1) line

theorem carryOn (h : Beside text e e') (code : List Char) :
    Beside text (e.carryOn code).2 (e'.carryOn code).2 := by
  obtain hs | ⟨f, fs, hs⟩ : e.stack = [] ∨ ∃ f fs, e.stack = f :: fs := by cases e.stack <;> simp
  · have hs' : e'.stack = [] := by
      rw [← List.length_eq_zero_iff, h.length_stack, hs, List.length_nil]
    rw [carryOn_of_nil hs, carryOn_of_nil hs']
    exact h
  · cases hline : Form.continuation e.target (Continuation.ofCode code) with
    | none =>
      rw [carryOn_of_none hline, carryOn_of_none (h.target_eq ▸ hline)]
      exact h
    | some line =>
      cases h with
      | same out lines => exact carryOn_of_carried (.same out lines) hline hs hs (.same (e := e.carried f fs) out lines)
      | marked out lines =>
        cases hf : f.isGroup with
        | true =>
          have hs' : markBody e.stack = f :: markBody fs := by rw [hs, markBody, if_pos hf]
          refine carryOn_of_carried (.marked out lines) hline hs hs' ?_
          have hcarried := Beside.marked (e := e.carried f fs) out lines
          have hstack : markBody (e.carried f fs).stack = { f with hasBody := false } :: markBody fs := by
            rw [carried, markBody, if_pos (by exact hf)]
          rw [hstack] at hcarried
          exact hcarried
        | false => exact carryOn_marked lines hline hs hf

theorem plain (h : Beside text e e') (code : List Char) : Beside text (e.plain code).2 (e'.plain code).2 := by
  unfold Emitter.plain
  rw [h.target_eq, h.declared_eq]
  dsimp only
  split
  · exact h.statement _
  · exact h
  · exact (h.declare _).statement _

theorem opens (h : Beside text e e') (code : List Char) (kind : BlockKind) (style : BlockStyle) (indent : Nat) :
    Beside text (e.opens code kind style indent).2 (e'.opens code kind style indent).2 := by
  unfold Emitter.opens
  rw [h.target_eq]
  dsimp only
  split
  · exact h.push_group style indent
  · exact h.statement_push _ _ _ _
  · exact (h.declare _).statement_push _ _ _ _

theorem line (h : Beside text e e') (scanned : ScannedLine) (raw : List Char) :
    Beside text (e.line scanned raw).2 (e'.line scanned raw).2 := by
  unfold Emitter.line
  dsimp only
  generalize LineShape.ofLine scanned.masked = shape
  generalize (Text.trim raw).take (Text.trim scanned.masked).length = code
  have hdedent := h.dedent scanned.indent shape.isContinuation
  rw [hdedent.target_eq]
  split
  · exact hdedent.statement _
  · cases shape with
    | closes kind style => exact hdedent.close kind code
    | continues style => exact hdedent.carryOn code
    | opens kind style => exact hdedent.opens code kind style scanned.indent
    | plain => exact hdedent.plain code

end Beside

end Emitter

/-! ## Blocks that end early -/

namespace Emitter

theorem dedent_silent {e : Emitter} {indent : Nat} {continuation : Bool}
    (h : (e.stack.takeWhile (·.endsAt indent continuation)).all (·.endsSilently e.target) = true) :
    e.dedent indent continuation =
      { e with stack := e.stack.dropWhile (·.endsAt indent continuation) } := by
  rw [← stack_dedent]
  unfold dedent
  rw [stack_popMany]
  refine popMany_silent ?_
  rwa [← List.prefix_iff_eq_take.1 (List.takeWhile_prefix _)]

/-- The frames that end here end at the next line as well, which finds the others as it would have found them. -/
theorem dedent_dedent {e : Emitter} {indent indent' : Nat} {continuation : Bool}
    (h : (e.stack.takeWhile (·.endsAt indent false)).all (·.endsAt indent' continuation) = true) :
    (e.dedent indent false).dedent indent' continuation = e.dedent indent' continuation := by
  have hsplit := List.takeWhile_append_dropWhile (p := (·.endsAt indent false)) (l := e.stack)
  have hlength : (e.stack.takeWhile (·.endsAt indent' continuation)).length =
      (e.stack.takeWhile (·.endsAt indent false)).length +
        ((e.stack.dropWhile (·.endsAt indent false)).takeWhile (·.endsAt indent' continuation)).length := by
    conv => lhs; rw [← hsplit]
    rw [List.takeWhile_append_of_pos (List.all_eq_true.1 h), List.length_append]
  rw [dedent, stack_dedent, dedent, dedent, hlength, popMany_add]

theorem line_dedent {e : Emitter} {indent : Nat} {line : ScannedLine}
    (h : (e.stack.takeWhile (·.endsAt indent false)).all
      (·.endsAt line.indent (LineShape.ofLine line.masked).isContinuation) = true) (raw : List Char) :
    (e.dedent indent false).line line raw = e.line line raw := by
  unfold Emitter.line
  dsimp only
  rw [dedent_dedent h]

theorem beside_statement (e : Emitter) (text : List Char) : Beside text e (e.statement text) := by
  refine .marked (e := e) (e.out.push (List.replicate (e.depth * e.width) ' ' ++ text)) ?_
  exact ⟨e.out.toList, e.depth * e.width, [], by simp, by simp⟩

theorem line_congr {line line' : ScannedLine} (h : Scanner.SameCode line line') (e : Emitter) (raw : List Char) :
    e.line line raw = e.line line' raw := by
  unfold Emitter.line
  rw [h.masked, h.indent]

end Emitter

namespace Generation

namespace Progress

open Emitter

/-- The run in which the blocks end that a line of this indentation stands outside of. -/
def dedented (p : Progress) (indent : Nat) : Progress := { p with emitter := p.emitter.dedent indent false }

/-- The blocks that a line of this indentation stands outside of end at the next line of code as well, by its
indentation, or at the end of the text.  If blank lines come before, these ends are not written. -/
def endsAnyway (p : Progress) (indent : Nat) : List (List Char) → Bool
  | [] => true
  | raw :: raws =>
    let ended := p.emitter.stack.takeWhile (·.endsAt indent false)
    let line := (p.scanner.feed raw).1
    if Text.isBlank raw then
      ended.all (·.endsSilently p.emitter.target) && (p.feed raw).endsAnyway indent raws
    else ended.all (·.endsAt line.indent (LineShape.ofLine line.masked).isContinuation)

theorem feed_blank {p : Progress} (hcode : p.scanner.mode = .code) {raw : List Char}
    (h : Text.isBlank raw = true) :
    p.feed raw = { p with scanner := (p.scanner.feed raw).2, emitter := p.emitter.emit [] } := by
  unfold feed
  dsimp only
  rw [Scanner.startsInLiteral_of_code hcode, if_neg Bool.false_ne_true, if_pos h]

theorem emitter_feed_line {p : Progress} (hcode : p.scanner.mode = .code) {raw : List Char}
    (h : Text.isBlank raw = false) : (p.feed raw).emitter = (p.emitter.line (p.scanner.feed raw).1 raw).2 := by
  rw [emitter_feed, Scanner.startsInLiteral_of_code hcode, if_neg Bool.false_ne_true, h, if_neg Bool.false_ne_true]

theorem written_dedented {p : Progress} (hp : Reads p) (hcode : p.scanner.mode = .code) {indent : Nat}
    {raws : List (List Char)} (h : p.endsAnyway indent raws = true) :
    (p.dedented indent).written raws = p.written raws := by
  -- over blank lines the stacks go on to differ; the next line of code, or the end of the text, makes them equal
  induction raws generalizing p with
  | nil =>
    have hlength : (p.emitter.stack.takeWhile (·.endsAt indent false)).length +
        (p.emitter.dedent indent false).stack.length = p.emitter.stack.length := by
      rw [stack_dedent, ← List.length_append, List.takeWhile_append_dropWhile]
    show (popMany (p.emitter.dedent indent false).stack.length (p.emitter.dedent indent false)).out.toList =
      (popMany p.emitter.stack.length p.emitter).out.toList
    conv => lhs; rw [dedent]
    rw [← popMany_add, ← dedent, hlength]
  | cons raw raws ih =>
    rw [written_cons, written_cons]
    unfold endsAnyway at h
    dsimp only at h
    split at h
    · next hblank =>
      obtain ⟨hsilent, hrest⟩ := Bool.and_eq_true_iff.1 h
      have hfeed : (p.dedented indent).feed raw = (p.feed raw).dedented indent := by
        rw [feed_blank hcode hblank, feed_blank (p := p.dedented indent) hcode hblank]
        unfold dedented
        dsimp only
        rw [dedent_silent hsilent, dedent_silent (e := p.emitter.emit []) hsilent]
        rfl
      rw [hfeed]
      refine ih (hp.feed raw) ?_ hrest
      rw [(p.feed_keeps raw).1, Scanner.mode_feed_blank hp.settled hblank]
      exact hcode
    · next hblank =>
      have hfeed : (p.dedented indent).feed raw = p.feed raw := by
        unfold feed dedented
        dsimp only
        simp only [line_dedent h, Scanner.startsInLiteral_of_code hcode, hblank, Bool.false_eq_true, if_false]
      rw [hfeed]

/-! ## Comments between lines -/

theorem beside_feed {p p' : Progress} (hscan : p.scanner.Alike p'.scanner) {text : List Char}
    (h : Beside text p.emitter p'.emitter) (raw : List Char) :
    Beside text (p.feed raw).emitter (p'.feed raw).emitter := by
  obtain ⟨hcode, -⟩ := hscan.feed raw
  rw [emitter_feed, emitter_feed, hcode.startsInLiteral, line_congr hcode]
  split
  · exact h.emit _
  · split
    · exact h.emit _
    · exact h.line _ raw

theorem beside_foldl {p p' : Progress} (hscan : p.scanner.Alike p'.scanner) {text : List Char}
    (h : Beside text p.emitter p'.emitter) (raws : List (List Char)) :
    Beside text (raws.foldl feed p).emitter (raws.foldl feed p').emitter := by
  induction raws generalizing p p' with
  | nil => exact h
  | cons raw raws ih =>
    refine ih ?_ (beside_feed hscan h raw)
    rw [(p.feed_keeps raw).1, (p'.feed_keeps raw).1]
    exact (hscan.feed raw).2

theorem differBy_written {p p' : Progress} (hscan : p.scanner.Alike p'.scanner) {text : List Char}
    (h : Beside text p.emitter p'.emitter) (raws : List (List Char)) :
    DifferBy p.emitter.target text (p.written raws) (p'.written raws) := by
  have hrun := beside_foldl hscan h raws
  have hends := hrun.popMany (raws.foldl feed p).emitter.stack.length
  unfold written
  dsimp only
  rw [hrun.length_stack, ← target_foldl p raws]
  generalize (raws.foldl feed p').emitter.popMany (raws.foldl feed p).emitter.stack.length = e' at hends ⊢
  rw [← target_popMany (raws.foldl feed p).emitter.stack.length]
  cases hends with
  | same out lines => exact lines
  | marked out lines => exact .inserted lines

/-- A comment line ends the blocks that it stands outside of and is a statement of the block that it stands in. -/
theorem emitter_feed_comment {p : Progress} (hcode : p.scanner.mode = .code) (hhash : p.scanner.style.hash = true)
    {lead : List Char} (hlead : Text.isBlank lead = true) (text : List Char) :
    (p.feed (lead ++ '#' :: text)).emitter =
      (p.emitter.dedent (Scanner.indentation lead).1 false).statement
        (Text.trimEnd (p.emitter.target.comment (commentText ('#' :: Text.trimEnd text)))) := by
  obtain ⟨hmasked, hindent, -⟩ := Scanner.feed_comment hcode hhash hlead text
  have hblank : Text.isBlank (lead ++ '#' :: text) = false := by
    simp [Text.isBlank, show Text.isSpace '#' = false by decide]
  have hempty : Text.trim (p.scanner.feed (lead ++ '#' :: text)).1.masked = [] := by
    rw [hmasked, Text.trim_eq_nil hlead]
  have hline : (p.emitter.line (p.scanner.feed (lead ++ '#' :: text)).1 (lead ++ '#' :: text)).2 =
      (p.emitter.dedent (Scanner.indentation lead).1 false).statement
        (Text.trimEnd (p.emitter.target.comment (commentText (Text.trim (lead ++ '#' :: text))))) := by
    unfold Emitter.line
    dsimp only
    rw [LineShape.ofLine_of_trim_eq_nil hempty, hempty, hindent, ← target_dedent p.emitter (Scanner.indentation lead).1]
    rfl
  rw [emitter_feed_line hcode hblank, hline, Text.trim_append_cons hlead (by decide)]

end Progress

/-- The state of a generation behind the first part of a text. -/
def behind (target : Target) (width : Nat) (before : List Char) : Progress :=
  (Text.lines before).foldl Progress.feed (begin target width {})

/-- A comment line between two lines of a source is one more line of the code, if it is compared with the code in
which the blocks end there that the comment stands outside of, and in Python the block that it stands in may need
no `pass` any more.  If these blocks end anyway, that code is the code of the source without the comment. -/
theorem differBy_comment (target : Target) (width : Nat) {before : List Char} (hbefore : Text.Closed before)
    (hcode : (behind target width before).scanner.mode = .code) {lead text : List Char}
    (hlead : Text.isBlank lead = true) (hline : '\n' ∉ lead ++ text) (after : List Char) :
    DifferBy target (Text.trimEnd (target.comment (Emitter.commentText ('#' :: Text.trimEnd text))))
      (((behind target width before).dedented (Scanner.indentation lead).1).written (Text.lines after))
      ((begin target width {}).written (Text.lines (before ++ (lead ++ '#' :: text ++ '\n' :: after)))) ∧
    ((behind target width before).endsAnyway (Scanner.indentation lead).1 (Text.lines after) = true →
      ((behind target width before).dedented (Scanner.indentation lead).1).written (Text.lines after) =
        (begin target width {}).written (Text.lines (before ++ after))) := by
  have hreads : Reads (behind target width before) := (reads_begin target width {}).foldl _
  have htarget : (behind target width before).emitter.target = target := target_foldl _ _
  have hhash : (behind target width before).scanner.style.hash = true := by
    rw [hreads.style]
    rfl
  constructor
  · have hnewline : '\n' ∉ lead ++ '#' :: text := by
      rw [List.mem_append, not_or] at hline
      simp [hline.1, hline.2]
    -- the end of the line may be a carriage return as well, which the comment does not keep
    obtain ⟨text', hchomp, htrim⟩ := Text.exists_chomp lead '#' text (by decide)
    rw [Text.lines_append hbefore, Text.lines_line_append hnewline, hchomp, Progress.written_append,
      Progress.written_cons, ← htrim]
    -- behind the comment both runs scan alike, and their emitters differ by it only
    have hscan := (Scanner.feed_comment hcode hhash hlead text').2.2
    rw [← ((behind target width before).feed_keeps _).1] at hscan
    have hbeside := Emitter.beside_statement
      ((behind target width before).emitter.dedent (Scanner.indentation lead).1 false)
      (Text.trimEnd ((behind target width before).emitter.target.comment
        (Emitter.commentText ('#' :: Text.trimEnd text'))))
    rw [← Progress.emitter_feed_comment hcode hhash hlead text'] at hbeside
    have hdiffer := Progress.differBy_written
      (p := (behind target width before).dedented (Scanner.indentation lead).1) hscan hbeside (Text.lines after)
    have hdedented : ((behind target width before).dedented (Scanner.indentation lead).1).emitter.target = target :=
      (Emitter.target_dedent _ _ _).trans htarget
    rwa [htarget, hdedented] at hdiffer
  · intro hends
    rw [Text.lines_append hbefore, Progress.written_append]
    exact Progress.written_dedented hreads hcode hends

/-- A comment that is the only line of a block. -/
theorem differBy_comment_in_branch :
    Text.Closed "if x:\n".toList ∧ (behind .python 4 "if x:\n".toList).scanner.mode = .code ∧
      Text.isBlank "    ".toList = true ∧ '\n' ∉ "    ".toList ++ " to do".toList ∧
      DifferBy .python "# to do".toList
        ((begin .python 4 {}).written (Text.lines ("if x:\n".toList ++ "else:\n    b = 2\n".toList)))
        ((begin .python 4 {}).written (Text.lines ("if x:\n".toList ++
          ("    ".toList ++ '#' :: " to do".toList ++ '\n' :: "else:\n    b = 2\n".toList)))) := by
  have hlast : "if x:\n".toList.getLast? = some '\n' := by decide +kernel
  have hclosed : Text.Closed "if x:\n".toList := fun c hc => (Option.some.inj (hlast.symm.trans hc)).symm
  have hcode : (behind .python 4 "if x:\n".toList).scanner.mode = .code := by decide +kernel
  have hline : '\n' ∉ "    ".toList ++ " to do".toList := by decide +kernel
  obtain ⟨hdiffer, hsame⟩ := differBy_comment .python 4 hclosed hcode (by decide +kernel) hline
    "else:\n    b = 2\n".toList
  rw [hsame (by decide +kernel)] at hdiffer
  exact ⟨hclosed, hcode, by decide +kernel, hline, hdiffer⟩

/-- A comment line at the end of an indented block takes away the line that carries the block on. -/
theorem else_lost_behind_comment :
    ¬ ∃ added, DifferBy .python added
      ((begin .python 4 {}).written (Text.lines "if x:\n    a = 1\nelse:\n    b = 2\n".toList))
      ((begin .python 4 {}).written (Text.lines "if x:\n    a = 1\n# c\nelse:\n    b = 2\n".toList)) := by
  rintro ⟨added, h⟩
  have helse : "else:".toList ∈
      (begin .python 4 {}).written (Text.lines "if x:\n    a = 1\nelse:\n    b = 2\n".toList) := by
    decide +kernel
  rcases h.mem helse with hmem | ⟨blanks, hpass⟩
  · exact absurd hmem (by decide +kernel)
  · have hlast := congrArg List.getLast? hpass
    simp at hlast

end Generation

end Pseudoscribe
