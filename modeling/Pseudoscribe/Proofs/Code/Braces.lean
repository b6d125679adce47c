import Pseudoscribe.Block.Nesting
import Pseudoscribe.Proofs.Code.ChunkedNesting
import Pseudoscribe.Proofs.Code.Output
import Pseudoscribe.Proofs.Code.Parts
import Pseudoscribe.Proofs.Text.Braces

/-!
# The braces of generated code

JavaScript marks every block with a pair of braces.  In code that is made from a text without braces all braces
are those of blocks, and behind each line as many are open as there are blocks.  They are balanced unless a line
carries on where frames are open of which none is a block of the code.
-/

namespace Pseudoscribe

open Pseudoscribe.Frame Text

theorem Generation.braces_joinLines (lines : List (List Char)) :
    braces (joinLines lines) = lines.flatMap braces := by
  have hstrip (cs : List Char) : braces (joinLines.strip cs) = braces cs := by
    fun_induction joinLines.strip cs with
    | case1 rest ih => rw [ih]; rfl
    | case2 => rfl
  have hreverse (cs : List Char) : braces cs.reverse = (braces cs).reverse := List.filter_reverse ..
  have hlines : (braces (joinLines.strip (unlines lines).reverse)).reverse = lines.flatMap braces := by
    rw [hstrip, hreverse, List.reverse_reverse]
    exact braces_intercalate rfl lines
  unfold joinLines
  split
  · next h => rw [← hlines, h]; rfl
  · next rest h => rw [← hlines, h, hreverse]
  · next cs _ _ => rw [← hlines, hreverse]; rfl

/-! ## Texts -/

namespace Expression

/-- The characters of the words and marks that take the place of some of the source. -/
def alphabet : List Char := "andortTrueFalsefalsenullNone!%&|/=<>".toList

theorem wordText_subset (t : Target) (word : List Char) : wordText t word ⊆ word ++ alphabet := by
  unfold wordText
  split <;> first
    | exact List.subset_append_left word alphabet
    | exact List.subset_append_of_subset_right word (by decide)

theorem markText_subset (t : Target) (condition : Bool) (prev : Option Char) (mark : List Char) :
    markText t condition prev mark ⊆ mark ++ alphabet := by
  have hequal : equalText t ⊆ alphabet := by cases t <;> decide
  have hunequal : unequalText t ⊆ alphabet := by cases t <;> decide
  unfold markText
  split
  · exact List.subset_append_of_subset_right _ hunequal
  · exact List.subset_append_of_subset_right _ hunequal
  · exact List.subset_append_of_subset_right _ hequal
  · exact List.subset_append_of_subset_right _ hunequal
  · exact List.subset_append_of_subset_right _ (by decide)
  · exact List.subset_append_of_subset_right _ (by decide)
  · split
    · exact List.subset_append_of_subset_right _ hequal
    · exact List.subset_append_left _ alphabet
  · exact List.subset_append_left mark alphabet

theorem tokensText_subset (t : Target) (condition : Bool) (prev : Option Char) (ts : List Token) :
    tokensText t condition prev ts ⊆ (ts.map Token.text).flatten ++ alphabet := by
  induction ts generalizing prev with
  | nil => exact List.nil_subset _
  | cons token ts ih =>
    have htoken : tokenText t condition prev token ⊆ token.text ++ alphabet := by
      cases token with
      | literal text => exact List.subset_append_left text alphabet
      | word text => exact wordText_subset t text
      | mark text => exact markText_subset t condition prev text
    rw [tokensText, List.map_cons, List.flatten_cons]
    intro c hc
    have hrest := @ih (token.text.getLast?.or prev) c
    have hfirst := @htoken c
    simp only [List.mem_append] at hc hrest hfirst ⊢
    tauto

/-- A rendered expression is written with the characters of the source and of the alphabet. -/
theorem render_subset (t : Target) (cs : List Char) : render t cs ⊆ cs ++ alphabet := by
  have h := tokensText_subset t false none (tokens cs)
  rwa [flatten_tokens] at h

theorem renderCondition_subset (t : Target) (cs : List Char) : renderCondition t cs ⊆ cs ++ alphabet := by
  have h := tokensText_subset t true none (tokens (withoutBrackets (trim cs)))
  have hpart := List.Subset.trans (Statement.withoutBrackets_subset _) (trim_subset cs)
  rw [flatten_tokens] at h
  exact List.Subset.trans h (List.append_subset.2
    ⟨List.subset_append_of_subset_left _ hpart, List.subset_append_right cs alphabet⟩)

theorem braces_append_alphabet {cs : List Char} (h : braces cs = []) : braces (cs ++ alphabet) = [] := by
  rw [braces_append, h]
  rfl

theorem braces_render (t : Target) {cs : List Char} (h : braces cs = []) : braces (render t cs) = [] :=
  braces_of_subset (braces_append_alphabet h) (render_subset t cs)

theorem braces_renderCondition (t : Target) {cs : List Char} (h : braces cs = []) :
    braces (renderCondition t cs) = [] :=
  braces_of_subset (braces_append_alphabet h) (renderCondition_subset t cs)

end Expression

/-! ## Forms -/

namespace Form

open Expression

/-- A header opens one brace. -/
theorem braces_header {h : Header} {line : List Char} (hline : header .javascript h = some line)
    (htexts : ∀ t ∈ h.texts, braces t = []) : braces line = ['{'] := by
  cases h with
  | function name params =>
    cases hline
    simp only [Header.texts, List.forall_mem_cons, List.forall_mem_map] at htexts
    have hparams : braces ([',', ' '].intercalate (params.map String.toList)) = [] := by
      rw [braces_intercalate rfl, List.flatMap_eq_nil_iff]
      simpa using htexts.2
    unfold function
    simp [htexts.1, hparams]
  | record name base =>
    cases hline
    simp only [Header.texts, List.forall_mem_cons] at htexts
    unfold record
    cases base with
    | none => simp [htexts.1]
    | some base => simp [htexts.1, htexts.2 base (by simp)]
  | condition test =>
    cases hline
    simp [braced, braces_renderCondition .javascript (htexts test (by simp [Header.texts]))]
  | loopWhile test =>
    cases hline
    simp [braced, braces_renderCondition .javascript (htexts test (by simp [Header.texts]))]
  | loopUntil => cases hline; rfl
  | loopForever => cases hline; rfl
  | loopRange var start stop step =>
    cases hline
    simp only [Header.texts, List.forall_mem_cons] at htexts
    obtain ⟨hvar, hstart, hstop, hstep⟩ := htexts
    have hstart := braces_render .javascript hstart
    have hstop := braces_render .javascript hstop
    unfold range
    cases step with
    | none => simp [hvar, hstart, hstop]
    | some s => simp [hvar, hstart, hstop, braces_render .javascript (hstep s (by simp))]
  | loopEach var items =>
    cases hline
    simp only [Header.texts, List.forall_mem_cons] at htexts
    unfold each
    simp [htexts.1, braces_render .javascript htexts.2.1]
  | attempt => cases hline; rfl
  | group => cases hline
  | unknown => cases hline

/-- A continuation closes a brace and opens one. -/
theorem braces_continuation {c : Continuation} {line : List Char}
    (hline : continuation .javascript c = some line) (htexts : ∀ t ∈ c.texts, braces t = []) :
    braces line = ['}', '{'] := by
  cases c with
  | elseIf test =>
    cases hline
    simp [braced, braces_renderCondition .javascript (htexts test (by simp [Continuation.texts]))]
  | otherwise => cases hline; rfl
  | rescue name =>
    cases hline
    have hname := htexts name (by simp [Continuation.texts])
    by_cases hempty : name.isEmpty = true
    · simp [braced, hempty]
    · simp [braced, hempty, hname]
  | always => cases hline; rfl
  | unknown => cases hline

theorem braces_assignment (declares : Bool) {target value : List Char} (htarget : braces target = [])
    (hvalue : braces value = []) : braces (assignment .javascript declares target value) = [] := by
  have hbase : braces (trimEnd (dropEndWhile Phrase.isSign target)) = [] :=
    braces_of_subset htarget (List.Subset.trans (trimEnd_subset _) (dropEndWhile_subset _ _))
  have hsign (n : Nat) : braces (trim (target.drop n)) = [] :=
    braces_of_subset htarget (List.Subset.trans (trim_subset _) (List.drop_sublist _ _).subset)
  have hrender := braces_render .javascript hvalue
  unfold assignment
  dsimp only
  split
  · simp [hbase, hsign, hrender, Target.terminator]
  · split
    · simp [hbase, hrender, Target.terminator]
    · simp [hbase, hrender, Target.terminator]

/-- A statement has no braces. -/
theorem braces_statement {declares : Bool} {s : Statement} {line : List Char}
    (hline : statement .javascript declares s = some line) (htexts : ∀ t ∈ s.texts, braces t = []) :
    braces line = [] := by
  cases s with
  | result value =>
    cases hline
    have hvalue := braces_render .javascript (htexts value (by simp [Statement.texts]))
    by_cases hempty : value.isEmpty = true
    · simp [hempty, Target.terminator]
    · simp [hempty, hvalue, Target.terminator]
  | print arguments =>
    cases hline
    simp [braces_render .javascript (htexts arguments (by simp [Statement.texts]))]
  | assign target value =>
    cases hline
    exact braces_assignment declares (htexts target (by simp [Statement.texts]))
      (htexts value (by simp [Statement.texts]))
  | count target up amount =>
    cases hline
    have htarget := htexts target (by simp [Statement.texts])
    cases amount with
    | none => cases up <;> simp [htarget, Target.terminator]
    | some a =>
      have hamount := braces_render .javascript (htexts a (by simp [Statement.texts]))
      cases up <;> simp [htarget, hamount, Target.terminator]
  | call expression =>
    cases hline
    simp [braces_render .javascript (htexts expression (by simp [Statement.texts])), Target.terminator]
  | input target =>
    cases hline
    have htarget := htexts target (by simp [Statement.texts])
    cases declares <;> simp [htarget]
  | leave => cases hline; rfl
  | next => cases hline; rfl
  | nothing => cases hline
  | throw value =>
    cases hline
    simp [braces_render .javascript (htexts value (by simp [Statement.texts]))]
  | unknown => cases hline

end Form

/-! ## The emitter -/

namespace Emitter

/-- The braces of the lines so far. -/
def outBraces (e : Emitter) : List Char := e.out.toList.flatMap braces

@[simp]
theorem outBraces_emit (e : Emitter) (line : List Char) :
    (e.emit line).outBraces = e.outBraces ++ braces line := by
  simp [outBraces, emit]

@[simp]
theorem outBraces_emitAt (e : Emitter) (depth : Nat) (text : List Char) :
    (e.emitAt depth text).outBraces = e.outBraces ++ braces text := by
  simp [emitAt]

@[simp]
theorem outBraces_statement (e : Emitter) (text : List Char) :
    (e.statement text).outBraces = e.outBraces ++ braces text :=
  outBraces_emitAt { e with stack := markBody e.stack } e.depth text

/-- If as many braces are open as there are blocks, then they still are after this, and on the way one that is not
open is closed unless `ok`. -/
def Writes (ok : Prop) (e e' : Emitter) : Prop :=
  height e.outBraces = e.depth → height e'.outBraces = e'.depth ∧
    (NeverBelow 0 e'.outBraces ↔ NeverBelow 0 e.outBraces ∧ ok)

theorem Writes.trans {ok ok' : Prop} {e e' e'' : Emitter} (h : Writes ok e e') (h' : Writes ok' e' e'') :
    Writes (ok ∧ ok') e e'' := by
  intro hheight
  obtain ⟨hmid, hfirst⟩ := h hheight
  obtain ⟨hend, hsecond⟩ := h' hmid
  exact ⟨hend, by rw [hsecond, hfirst, and_assoc]⟩

/-- What comes first may be anything that closes no brace too many. -/
theorem Writes.behind {ok : Prop} {e e' e'' : Emitter} (h' : Writes ok e' e'') (h : Writes True e e') :
    Writes ok e e'' := by
  have hboth := h.trans h'
  rwa [true_and] at hboth

theorem writes_of_append {ok : Prop} {e e' : Emitter} {w : List Char}
    (hout : e'.outBraces = e.outBraces ++ w) (hdepth : (e'.depth : Int) = e.depth + height w)
    (hok : NeverBelow e.depth w ↔ ok) : Writes ok e e' := by
  intro hheight
  rw [hout, height_append, neverBelow_append, hheight, Int.zero_add, hok]
  exact ⟨hdepth.symm, Iff.rfl⟩

theorem writes_of_eq {e e' : Emitter} (hout : e'.outBraces = e.outBraces) (hdepth : e'.depth = e.depth) :
    Writes True e e' := by
  refine writes_of_append (w := []) (by rw [hout, List.append_nil]) (by rw [hdepth]; rfl) ?_
  exact iff_true_intro (Int.natCast_nonneg e.depth)

/-- Blocks that end close a brace each. -/
theorem writes_closers {e e' : Emitter} {k : Nat} (hdepth : e.depth = k + e'.depth)
    (hout : e'.outBraces = e.outBraces ++ List.replicate k '}') : Writes True e e' := by
  refine writes_of_append hout ?_ (iff_true_intro ?_)
  · rw [height_replicate]
    omega
  · rw [neverBelow_replicate k (Int.natCast_nonneg _)]
    omega

theorem outBraces_closing {e : Emitter} (h : e.target = .javascript) (f : Frame) :
    (e.closing f).outBraces = e.outBraces ++ List.replicate (blocks [f]) '}' := by
  unfold closing
  cases hf : f.isGroup with
  | true => simp [blocks, hf]
  | false =>
    rw [h, if_neg Bool.false_ne_true]
    dsimp only
    rw [outBraces_emitAt]
    split <;> simp [blocks, hf, Form.endlessCloser, Form.closer]

theorem outBraces_pop {e : Emitter} (h : e.target = .javascript) :
    e.pop.outBraces = e.outBraces ++ List.replicate (blocks (e.stack.take 1)) '}' := by
  unfold pop
  split
  · next hs => simp [hs, blocks]
  · next f fs hs =>
    rw [outBraces_closing (e := { e with stack := fs }) h f, hs]
    rfl

theorem outBraces_popMany (count : Nat) {e : Emitter} (h : e.target = .javascript) :
    (popMany count e).outBraces = e.outBraces ++ List.replicate (blocks (e.stack.take count)) '}' := by
  induction count generalizing e with
  | zero => simp [popMany, blocks]
  | succ k ih =>
    have htake : e.stack.take 1 ++ e.stack.tail.take k = e.stack.take (k + 1) := by
      rw [← List.drop_one, ← List.take_add, Nat.add_comm]
    rw [popMany, ih (e.pop_keeps.2.trans h), e.pop_keeps.1, outBraces_pop h, List.append_assoc,
      List.replicate_append_replicate, ← blocks_append, htake]

theorem writes_popMany (count : Nat) {e : Emitter} (h : e.target = .javascript) :
    Writes True e (popMany count e) := by
  refine writes_closers ?_ (outBraces_popMany count h)
  rw [depth_eq_blocks_stack, depth_eq_blocks_stack, stack_popMany, blocks_take_add_drop]

theorem writes_popUntil {e : Emitter} (h : e.target = .javascript) {f : Frame} {fs : List Frame}
    (hs : e.stack = f :: fs) (hf : f.isGroup = false) {test : List Char} (htest : braces test = []) :
    Writes True e (e.popUntil test) := by
  have hrender := Expression.braces_renderCondition .javascript htest
  refine writes_closers (k := 1) ?_ ?_
  · rw [depth_eq_blocks_stack, depth_eq_blocks_stack, (popUntil_keeps e test).1, hs, blocks_cons, hf]
    rfl
  · unfold popUntil
    rw [h]
    dsimp only
    rw [outBraces_emitAt]
    simp [Form.untilCloser, hrender, outBraces]

theorem writes_close {e : Emitter} (h : e.target = .javascript) (kind : Option BlockKind) {code : List Char}
    (hcode : braces code = []) : Writes True e (e.close kind code) := by
  unfold close
  dsimp only
  split
  · next test above htest hloop =>
    obtain ⟨hlt, hkind, -⟩ := List.findIdx?_eq_some_iff_getElem.1 hloop
    have hs : (popMany above e).stack = e.stack[above] :: e.stack.drop (above + 1) := by
      rw [stack_popMany, List.drop_eq_getElem_cons hlt]
    have hgroup : (e.stack[above]).isGroup = false := by
      rw [isGroup, eq_of_beq hkind]
      rfl
    have htest : braces test = [] := by
      unfold untilTest? at htest
      split at htest
      · cases htest
        exact braces_of_subset hcode (List.Subset.trans (trim_subset _) (List.drop_sublist _ _).subset)
      · cases htest
    exact (writes_popUntil ((target_popMany above e).trans h) hs hgroup htest).behind (writes_popMany above h)
  · split
    · exact writes_popMany _ h
    · exact writes_of_eq rfl rfl

/-- A line that carries a block on needs a brace to close. -/
theorem writes_carryOn {e : Emitter} (h : e.target = .javascript) {code : List Char} (hcode : braces code = []) :
    Writes ((!(e.carryOn code).1 || e.depth != 0) = true) e (e.carryOn code).2 := by
  have hdepth : (e.carryOn code).2.depth = e.depth := by
    rw [depth_eq_blocks, depth_eq_blocks, (e.carryOn_keeps code).1]
  unfold carryOn at hdepth ⊢
  rw [h] at hdepth ⊢
  split at hdepth
  · next line f fs hline hs =>
    have hbraces := Form.braces_continuation hline fun t ht =>
      braces_of_subset hcode (Continuation.subset_of_mem_texts ht)
    -- the brace that closes comes first, so a block has to be open
    refine writes_of_append (w := ['}', '{']) ?_ (by rw [hdepth]; rfl) ?_
    · show outBraces { emitAt e (e.depth - 1) line with stack := _ } = _
      rw [← hbraces]
      exact outBraces_emitAt e (e.depth - 1) line
    · have hclose : height ['}'] = -1 := rfl
      have hopen : height ['{'] = 1 := rfl
      simp only [NeverBelow, hclose, hopen, Bool.not_true, Bool.false_or, bne_iff_ne]
      omega
  · rw [Bool.not_false, Bool.true_or, eq_self]
    exact writes_of_eq rfl rfl

theorem writes_plain {e : Emitter} (h : e.target = .javascript) {code : List Char} (hcode : braces code = []) :
    Writes True e (e.plain code).2 := by
  have hstrip : braces (Statement.strip code) = [] := braces_of_subset hcode (Statement.strip_subset code)
  unfold plain
  rw [h]
  dsimp only
  split
  · refine writes_of_eq ?_ (depth_statement _ _)
    simp [Target.comment, Target.commentMark, hstrip]
  · exact writes_of_eq rfl rfl
  · next line hline _ =>
    have hbraces := Form.braces_statement hline fun t ht =>
      braces_of_subset hstrip (Statement.subset_of_mem_texts ht)
    refine writes_of_eq ?_ (depth_statement (e.declare _) line)
    rw [outBraces_statement, hbraces, List.append_nil]
    rfl

theorem writes_opens {e : Emitter} (h : e.target = .javascript) {code : List Char} (hcode : braces code = [])
    (kind : BlockKind) (style : BlockStyle) (indent : Nat) :
    Writes True e (e.opens code kind style indent).2 := by
  have hstrip : braces (Header.strip code) = [] := braces_of_subset hcode (Header.strip_subset code)
  unfold opens
  rw [h]
  dsimp only
  split
  · exact writes_of_eq rfl rfl
  · refine writes_of_eq ?_ (depth_statement e _)
    show (e.statement _).outBraces = _
    simp [Target.comment, Target.commentMark, hstrip]
  · next line hline _ =>
    have hbraces : braces line = ['{'] := by
      refine Form.braces_header hline fun t ht => ?_
      rcases Header.partOf_ofText kind _ t ht with rfl | ht
      · rfl
      · exact braces_of_subset hstrip ht
    have hdepth := depth_header (e.declare (Header.ofText kind (Header.strip code)).declares) line
      (Header.ofText kind (Header.strip code)) kind style indent
    have hopen : height ['{'] = 1 := rfl
    refine writes_of_append (w := ['{']) ?_ ?_ (iff_true_intro ?_)
    · rw [← hbraces]
      exact outBraces_statement (e.declare _) line
    · rw [hdepth, hopen]
      rfl
    · simp only [NeverBelow, hopen]
      omega

/-- A line that carries a block on and says something known finds a block open, if it finds any frame. -/
def carriesBlock (e : Emitter) (line : ScannedLine) (raw : List Char) : Bool :=
  match LineShape.ofLine line.masked with
  | .continues _ =>
    let d := e.dedent line.indent true
    !(d.carryOn (FrameStep.codeOf line raw)).1 || d.depth != 0
  | _ => true

theorem dropCommentEnds_subset (cs : List Char) : dropCommentEnds cs ⊆ cs := by
  fun_induction dropCommentEnds cs with
  | case1 rest ih => exact fun c hc => List.mem_cons_of_mem _ (List.mem_cons_of_mem _ (ih hc))
  | case2 => exact List.Subset.refl _

theorem commentText_subset (cs : List Char) : commentText cs ⊆ cs := by
  unfold commentText
  dsimp only
  split
  · next text h =>
    have htext : text ⊆ cs := by
      simp only [Option.or_eq_some_iff] at h
      rcases h with h | ⟨-, h | ⟨-, h | ⟨-, h⟩⟩⟩ <;> exact dropBeginning?_subset h
    refine List.Subset.trans (trim_subset _) fun c hc => ?_
    have hmem := dropCommentEnds_subset _ (List.mem_reverse.1 hc)
    exact htext (List.mem_reverse.1 hmem)
  · exact List.Subset.refl cs

theorem writes_line {e : Emitter} (h : e.target = .javascript) (line : ScannedLine) {raw : List Char}
    (hraw : braces raw = []) : Writes (e.carriesBlock line raw = true) e (e.line line raw).2 := by
  have hcode : braces (FrameStep.codeOf line raw) = [] :=
    braces_of_subset hraw (List.Subset.trans (List.take_sublist _ _).subset (trim_subset raw))
  -- the frames that the line stands outside of end first
  have htarget (continuation : Bool) : (e.dedent line.indent continuation).target = .javascript :=
    (target_dedent e _ _).trans h
  have hdedent (continuation : Bool) : Writes True e (e.dedent line.indent continuation) := writes_popMany _ h
  unfold carriesBlock
  cases e.lineCase line raw with
  | comment hempty heq =>
    rw [LineShape.ofLine_of_trim_eq_nil hempty, heq, eq_self]
    refine Writes.behind (writes_of_eq ?_ (depth_statement _ _)) (hdedent false)
    have htext : braces (trimEnd (e.target.comment (commentText (trim raw)))) = [] := by
      refine braces_of_subset ?_ (trimEnd_subset _)
      rw [h]
      simp [Target.comment, Target.commentMark,
        braces_of_subset hraw (List.Subset.trans (commentText_subset _) (trim_subset raw))]
    rw [outBraces_statement, htext, List.append_nil]
  | plain hshape _ heq =>
    rw [hshape, heq, eq_self]
    exact (writes_plain (htarget false) hcode).behind (hdedent false)
  | continues style hshape heq =>
    have hwrites := (writes_carryOn (htarget true) hcode).behind (hdedent true)
    rw [hshape, heq]
    exact hwrites
  | opens kind style hshape heq =>
    rw [hshape, heq, eq_self]
    exact (writes_opens (htarget false) hcode kind style line.indent).behind (hdedent false)
  | closes kind style hshape heq =>
    rw [hshape, heq, eq_self]
    exact (writes_close (htarget false) kind hcode).behind (hdedent false)

end Emitter

/-! ## Whole texts -/

namespace Generation

namespace Progress

/-- Every line that carries a block on and says something known finds a block open, if it finds any frame. -/
def carriesBlocks (p : Progress) : List (List Char) → Bool
  | [] => true
  | raw :: raws =>
    ((p.scanner.feed raw).1.startsInLiteral || p.emitter.carriesBlock (p.scanner.feed raw).1 raw) &&
      (p.feed raw).carriesBlocks raws

theorem writes_feed {p : Progress} (h : p.emitter.target = .javascript) {raw : List Char} (hraw : braces raw = []) :
    Emitter.Writes (((p.scanner.feed raw).1.startsInLiteral || p.emitter.carriesBlock (p.scanner.feed raw).1 raw) =
      true) p.emitter (p.feed raw).emitter := by
  rw [emitter_feed]
  split
  · next hlit =>
    rw [hlit, Bool.true_or, eq_self]
    refine Emitter.writes_of_eq ?_ rfl
    simp [braces_of_subset hraw (trimEnd_subset raw)]
  · next hlit =>
    rw [Bool.eq_false_iff.2 hlit, Bool.false_or]
    split
    · next hblank =>
      have hcarries : p.emitter.carriesBlock (p.scanner.feed raw).1 raw = true := by
        have hmasked := Scanner.isBlank_feed_blank (Bool.eq_false_iff.2 hlit) hblank
        rw [ScannedLine.isBlank, Bool.and_eq_true] at hmasked
        rw [Emitter.carriesBlock, LineShape.ofLine_of_trim_eq_nil (trim_eq_nil hmasked.2)]
      rw [hcarries, eq_self]
      refine Emitter.writes_of_eq ?_ rfl
      simp
    · exact Emitter.writes_line h _ hraw

theorem writes_foldl {p : Progress} (h : p.emitter.target = .javascript) {raws : List (List Char)}
    (hraws : ∀ raw ∈ raws, braces raw = []) :
    Emitter.Writes (p.carriesBlocks raws = true) p.emitter (raws.foldl feed p).emitter := by
  -- each line finds as many braces open as there are blocks, and leaves them so
  induction raws generalizing p with
  | nil =>
    rw [carriesBlocks, eq_self]
    exact Emitter.writes_of_eq rfl rfl
  | cons raw raws ih =>
    obtain ⟨hraw, hraws⟩ := List.forall_mem_cons.1 hraws
    have hnext := ih ((p.feed_keeps raw).2.trans h) hraws
    rw [carriesBlocks, Bool.and_eq_true]
    exact (writes_feed h hraw).trans hnext

end Progress

/-- In code that is made from a text without braces as many are opened as closed.  They are balanced exactly if
every line that carries a block on finds a block open, if it finds any frame. -/
theorem balanced_iff_carriesBlocks (width : Nat) {source : List Char} (hopen : '{' ∉ source)
    (hclose : '}' ∉ source) :
    height (ofSource .javascript width {} source).code = 0 ∧
      (Text.Balanced (ofSource .javascript width {} source).code ↔
        (begin .javascript width {}).carriesBlocks (lines source) = true) := by
  have hraws : ∀ raw ∈ lines source, braces raw = [] := fun raw hraw =>
    braces_of_subset (braces_eq_nil_iff.2 ⟨hopen, hclose⟩) (subset_of_mem_lines hraw)
  have hrun := Progress.writes_foldl (p := begin .javascript width {}) rfl hraws
  generalize hp : (lines source).foldl Progress.feed (begin .javascript width {}) = p at hrun
  have htarget : p.emitter.target = .javascript := by
    rw [← hp]
    exact target_foldl (begin .javascript width {}) (lines source)
  -- at the end of the text all blocks end
  have hends : Emitter.Writes True p.emitter (p.emitter.popMany p.emitter.stack.length) :=
    Emitter.writes_popMany _ htarget
  obtain ⟨hheight, hbelow⟩ := hrun.trans hends rfl
  have hcode : (ofSource .javascript width {} source).code =
      joinLines (p.emitter.popMany p.emitter.stack.length).out.toList := by
    rw [code_ofSource, ← hp]
    rfl
  have hbraces : braces (ofSource .javascript width {} source).code =
      (p.emitter.popMany p.emitter.stack.length).outBraces := by
    rw [hcode, braces_joinLines]
    rfl
  have hdepth : (p.emitter.popMany p.emitter.stack.length).depth = 0 := by
    rw [Emitter.depth_eq_blocks_stack, Emitter.stack_popMany, List.drop_length]
    rfl
  have hzero : height (ofSource .javascript width {} source).code = 0 := by
    rw [← height_braces, hbraces, hheight, hdepth]
    rfl
  refine ⟨hzero, ?_⟩
  have hstart : NeverBelow 0 (begin .javascript width {}).emitter.outBraces := Int.le_refl 0
  rw [and_true, iff_true_intro hstart, true_and] at hbelow
  rw [← hbelow, ← hbraces, neverBelow_braces]
  exact ⟨Text.Balanced.neverBelow, fun h => ⟨h, hzero⟩⟩

/-- Branches, a loop that tests at its end, and a line that carries on a block from inside of a group. -/
theorem balanced_of_branches :
    '{' ∉ "IF a THEN\nREPEAT\nx = 1\nUNTIL x > 0\nBEGIN\nELSE\ny = 1\nEND\nEND IF\n".toList ∧
      '}' ∉ "IF a THEN\nREPEAT\nx = 1\nUNTIL x > 0\nBEGIN\nELSE\ny = 1\nEND\nEND IF\n".toList ∧
      Text.Balanced (ofSource .javascript 4 {}
        "IF a THEN\nREPEAT\nx = 1\nUNTIL x > 0\nBEGIN\nELSE\ny = 1\nEND\nEND IF\n".toList).code := by
  refine ⟨by decide +kernel, by decide +kernel, ?_⟩
  exact (balanced_iff_carriesBlocks 4 (by decide +kernel) (by decide +kernel)).2.2 (by decide +kernel)

/-- In a group that stands in no block, a line that carries on closes a brace that is not open. -/
theorem otherwise_closes_unopened :
    "SWITCH x\nOTHERWISE\ny = 1\nEND SWITCH\n".toList.all
        (fun c => isWordChar c || isSpace c || c == '=') = true ∧
      (Outline.ofText "SWITCH x\nOTHERWISE\ny = 1\nEND SWITCH\n".toList).2 = [] ∧
      ¬ Text.Balanced (ofSource .javascript 4 {} "SWITCH x\nOTHERWISE\ny = 1\nEND SWITCH\n".toList).code := by
  decide +kernel

end Generation

end Pseudoscribe
