import Pseudoscribe.Proofs.Code.Comments

/-!
# Emitters that differ by comments

What an emitter makes of a line does not depend on what it has written before.  So two emitters that have written the
same but for blank lines and comments go on to write the same, except that a block that a comment is a statement of
needs no `pass`.
-/

namespace Pseudoscribe

open Pseudoscribe.Frame

/-! ## Lines of code -/

namespace Target

/-- The line is neither blank nor a comment. -/
def isCode (t : Target) (line : List Char) : Bool :=
  !Text.isBlank line && !t.commentMark.isPrefixOf (Text.trimStart line)

/-- The lines that are neither blank nor comments. -/
def codeLines (t : Target) (lines : List (List Char)) : List (List Char) := lines.filter t.isCode

theorem codeLines_append (t : Target) (xs ys : List (List Char)) :
    t.codeLines (xs ++ ys) = t.codeLines xs ++ t.codeLines ys := List.filter_append _ _

theorem codeLines_cons_of_isCode {t : Target} {line : List Char} (h : t.isCode line = true) (lines : List (List Char)) :
    t.codeLines (line :: lines) = line :: t.codeLines lines := List.filter_cons_of_pos h

theorem codeLines_cons_of_not_isCode {t : Target} {line : List Char} (h : t.isCode line = false)
    (lines : List (List Char)) : t.codeLines (line :: lines) = t.codeLines lines :=
  List.filter_cons_of_neg (by rw [h]; exact Bool.false_ne_true)

theorem isCode_replicate_append (t : Target) (blanks : Nat) (text : List Char) :
    t.isCode (List.replicate blanks ' ' ++ text) = t.isCode text := by
  have hblanks : ∀ c ∈ List.replicate blanks ' ', Text.isSpace c = true := by
    intro c hc
    rw [List.eq_of_mem_replicate hc]
    decide
  have hblank : Text.isBlank (List.replicate blanks ' ' ++ text) = Text.isBlank text := by
    unfold Text.isBlank
    rw [List.all_append, List.all_eq_true.2 hblanks, Bool.true_and]
  rw [isCode, hblank, Text.trimStart, List.dropWhile_append_of_pos hblanks]
  rfl

theorem isCode_pass (blanks : Nat) : Target.python.isCode (List.replicate blanks ' ' ++ "pass".toList) = true := by
  rw [isCode_replicate_append]
  decide

end Target

/-- The second lines are the first ones with these put between them, each behind some blanks, but in Python perhaps
without some that say `pass`. -/
inductive DifferByAll (target : Target) (lines : List (List Char)) : List (List Char) → List (List Char) → Prop
  | same : DifferByAll target lines [] lines
  | add {texts lines' lines'' : List (List Char)} {text : List Char} (h : DifferByAll target lines texts lines')
    (differ : DifferBy target text lines' lines'') : DifferByAll target lines (texts ++ [text]) lines''
  | drop (python : target = .python) {texts before after : List (List Char)} {blanks : Nat}
    (h : DifferByAll target lines texts (before ++ (List.replicate blanks ' ' ++ "pass".toList) :: after)) :
    DifferByAll target lines texts (before ++ after)

/-- Without `pass` and with nothing put between them, lines are the same. -/
theorem DifferByAll.eq {lines lines' : List (List Char)} (h : DifferByAll .javascript lines [] lines') :
    lines' = lines := by
  generalize htexts : ([] : List (List Char)) = texts at h
  cases h with
  | same => rfl
  | add => simp at htexts
  | drop python => cases python

namespace DifferBy

variable {target : Target} {text : List Char} {lines lines' : List (List Char)}

/-- A line that is put between others is put between their lines of code, if it is one. -/
theorem codeLines_of_isCode (h : DifferBy target text lines lines') (htext : target.isCode text = true) :
    DifferBy target text (target.codeLines lines) (target.codeLines lines') := by
  have hcode (blanks : Nat) : target.isCode (List.replicate blanks ' ' ++ text) = true := by
    rw [target.isCode_replicate_append, htext]
  cases h with
  | inserted h =>
    obtain ⟨before, blanks, after, rfl, rfl⟩ := h
    rw [target.codeLines_append, target.codeLines_append, Target.codeLines_cons_of_isCode (hcode blanks)]
    exact .inserted ⟨_, blanks, _, rfl, rfl⟩
  | passLess python before between after blanks blanks' eq eq' =>
    subst eq eq' python
    rw [Target.codeLines_append, Target.codeLines_append, Target.codeLines_append,
      Target.codeLines_cons_of_isCode (hcode blanks), Target.codeLines_append,
      Target.codeLines_cons_of_isCode (Target.isCode_pass blanks')]
    exact .passLess rfl _ _ _ blanks blanks' rfl rfl

theorem codeLines_of_not_isCode (h : DifferBy target text lines lines') (htext : target.isCode text = false)
    {all texts : List (List Char)} (hall : DifferByAll target all texts (target.codeLines lines)) :
    DifferByAll target all texts (target.codeLines lines') := by
  have hremark (blanks : Nat) : target.isCode (List.replicate blanks ' ' ++ text) = false := by
    rw [target.isCode_replicate_append, htext]
  cases h with
  | inserted h =>
    obtain ⟨before, blanks, after, rfl, rfl⟩ := h
    rw [target.codeLines_append] at hall
    rwa [target.codeLines_append, Target.codeLines_cons_of_not_isCode (hremark blanks)]
  | passLess python before between after blanks blanks' eq eq' =>
    subst eq eq' python
    rw [Target.codeLines_append, Target.codeLines_append,
      Target.codeLines_cons_of_isCode (Target.isCode_pass blanks')] at hall
    rw [Target.codeLines_append, Target.codeLines_cons_of_not_isCode (hremark blanks), Target.codeLines_append,
      ← List.append_assoc]
    exact .drop rfl hall

end DifferBy

/-! ## What was written before -/

namespace Emitter

/-- The emitter, if these lines had been written in front of its own. -/
def behind (front : Array (List Char)) (e : Emitter) : Emitter := { e with out := front ++ e.out }

variable {front : Array (List Char)} {e : Emitter}

theorem emit_behind (line : List Char) : (e.behind front).emit line = (e.emit line).behind front := by
  simp [emit, behind]

theorem emitAt_behind (depth : Nat) (text : List Char) :
    (e.behind front).emitAt depth text = (e.emitAt depth text).behind front := emit_behind _

theorem statement_behind (text : List Char) : (e.behind front).statement text = (e.statement text).behind front :=
  emitAt_behind (e := { e with stack := markBody e.stack }) e.depth text

@[simp]
theorem target_behind : (e.behind front).target = e.target := rfl

@[simp]
theorem stack_behind : (e.behind front).stack = e.stack := rfl

@[simp]
theorem depth_behind : (e.behind front).depth = e.depth := rfl

theorem closing_behind (f : Frame) : (e.behind front).closing f = (e.closing f).behind front := by
  cases hf : f.isGroup with
  | true => simp only [closing, hf, if_true]
  | false =>
    cases htarget : e.target with
    | python => cases hbody : f.hasBody <;> simp [closing, hf, htarget, hbody, emitAt_behind]
    | javascript => simp [closing, hf, htarget, emitAt_behind]

theorem restack_behind (stack : List Frame) :
    { e.behind front with stack } = ({ e with stack } : Emitter).behind front := rfl

theorem pop_behind : (e.behind front).pop = e.pop.behind front := by
  cases hs : e.stack with
  | nil => simp only [pop, stack_behind, hs]
  | cons f fs => simp only [pop, stack_behind, hs, restack_behind, closing_behind]

theorem popMany_behind (count : Nat) : popMany count (e.behind front) = (popMany count e).behind front := by
  induction count generalizing e with
  | zero => rfl
  | succ k ih => rw [popMany, popMany, pop_behind, ih]

theorem dedent_behind (indent : Nat) (continuation : Bool) :
    (e.behind front).dedent indent continuation = (e.dedent indent continuation).behind front := popMany_behind _

theorem popUntil_behind (test : List Char) : (e.behind front).popUntil test = (e.popUntil test).behind front := by
  obtain ⟨target, width, stack, declared, out⟩ := e
  cases target with
  | python =>
    simp only [popUntil, target_behind, depth_behind, emitAt_behind]
    rfl
  | javascript => exact emitAt_behind (e := ⟨.javascript, width, stack.drop 1, declared, out⟩) _ _

theorem close_behind (kind : Option BlockKind) (code : List Char) :
    (e.behind front).close kind code = (e.close kind code).behind front := by
  unfold close
  simp only [stack_behind]
  split
  · rw [popMany_behind, popUntil_behind]
  · split
    · exact popMany_behind _
    · rfl

theorem carryOn_behind (code : List Char) :
    ((e.behind front).carryOn code).2 = (e.carryOn code).2.behind front := by
  cases hs : e.stack with
  | nil => rw [carryOn_of_nil hs, carryOn_of_nil (e := e.behind front) hs]
  | cons f fs =>
    cases hline : Form.continuation e.target (Continuation.ofCode code) with
    | none => rw [carryOn_of_none hline, carryOn_of_none (e := e.behind front) hline]
    | some line =>
      rw [carryOn_of_cons hline hs, carryOn_of_cons (e := e.behind front) hline hs]
      have hcarried : (e.behind front).carried f fs = (e.carried f fs).behind front := rfl
      rw [hcarried, target_behind, depth_behind]
      split
      · rw [emitAt_behind, emitAt_behind]
      · rw [emitAt_behind]

theorem plain_behind (code : List Char) : ((e.behind front).plain code).2 = (e.plain code).2.behind front := by
  have hdeclared : (e.behind front).declared = e.declared := rfl
  unfold plain
  rw [target_behind, hdeclared]
  dsimp only
  split
  · exact statement_behind _
  · rfl
  · exact statement_behind (e := e.declare _) _

theorem opens_behind (code : List Char) (kind : BlockKind) (style : BlockStyle) (indent : Nat) :
    ((e.behind front).opens code kind style indent).2 = (e.opens code kind style indent).2.behind front := by
  have hpush (d : Emitter) (kind : FrameKind) :
      (d.behind front).push kind style indent = (d.push kind style indent).behind front := rfl
  unfold opens
  rw [target_behind]
  dsimp only
  split
  · exact hpush e _
  · rw [statement_behind, hpush]
  · rw [← hpush, ← statement_behind (e := e.declare _)]
    rfl

theorem line_behind (line : ScannedLine) (raw : List Char) :
    ((e.behind front).line line raw).2 = (e.line line raw).2.behind front := by
  unfold Emitter.line
  dsimp only
  generalize LineShape.ofLine line.masked = shape
  generalize (Text.trim raw).take (Text.trim line.masked).length = code
  rw [dedent_behind, target_behind]
  split
  · exact statement_behind _
  · cases shape with
    | closes kind style => exact close_behind kind code
    | continues style => exact carryOn_behind code
    | opens kind style => exact opens_behind code kind style line.indent
    | plain => exact plain_behind code

/-! ## Emitters that differ by comments -/

/-- The second emitter is the first one, but for comments and blank lines that were written. -/
def SameCode (e e' : Emitter) : Prop :=
  ∃ out, e' = { e with out } ∧ e.target.codeLines out.toList = e.target.codeLines e.out.toList

/-- The second emitter has written the comments of a source that the first one has not, and of the lines inside of
them these lines of code. -/
inductive Alongside (e : Emitter) : List (List Char) → Emitter → Prop
  | refl : Alongside e [] e
  | wrote {texts : List (List Char)} {e' e'' : Emitter} (text : List Char) (h : Alongside e texts e')
    (beside : Beside text e' e'') : Alongside e (texts ++ e.target.codeLines [text]) e''
  | same {texts : List (List Char)} {e' e'' : Emitter} (h : Alongside e texts e') (same : SameCode e' e'') :
    Alongside e texts e''

/-- What an emitter does next, whatever it has written. -/
structure Carries (f : Emitter → Emitter) : Prop where
  target : ∀ e, (f e).target = e.target
  behind : ∀ front e, f (behind front e) = (f e).behind front
  beside : ∀ text e e', Beside text e e' → Beside text (f e) (f e')

theorem Carries.sameCode {f : Emitter → Emitter} (hf : Carries f) {e e' : Emitter} (h : SameCode e e') :
    SameCode (f e) (f e') := by
  obtain ⟨out, rfl, hout⟩ := h
  -- both have what is written next behind what each has written before
  have hbehind (front : Array (List Char)) :
      f { e with out := front } = { f { e with out := #[] } with out := front ++ (f { e with out := #[] }).out } := by
    have hempty : ({ e with out := front } : Emitter) = ({ e with out := #[] } : Emitter).behind front := by
      simp [Emitter.behind]
    rw [hempty, hf.behind]
    rfl
  have htarget : (f { e with out := #[] }).target = e.target := hf.target _
  have hself : f e = { f { e with out := #[] } with out := e.out ++ (f { e with out := #[] }).out } := hbehind e.out
  refine ⟨out ++ (f { e with out := #[] }).out, ?_, ?_⟩
  · rw [hbehind, hself]
  · rw [hself]
    simp only [htarget, Array.toList_append, Target.codeLines_append, hout]

theorem Carries.alongside {f : Emitter → Emitter} (hf : Carries f) {texts : List (List Char)} {e e' : Emitter}
    (h : Alongside e texts e') : Alongside (f e) texts (f e') := by
  induction h with
  | refl => exact .refl
  | wrote text _ beside ih =>
    have hwrote := Alongside.wrote text ih (hf.beside _ _ _ beside)
    rwa [hf.target] at hwrote
  | same _ same ih => exact .same ih (hf.sameCode same)

theorem carries_emit (line : List Char) : Carries (·.emit line) :=
  ⟨fun _ => rfl, fun _ _ => emit_behind line, fun _ _ _ h => h.emit line⟩

theorem carries_popMany (count : Nat) : Carries (popMany count) :=
  ⟨fun e => target_popMany count e, fun _ _ => popMany_behind count, fun _ _ _ h => h.popMany count⟩

theorem carries_dedent (indent : Nat) (continuation : Bool) : Carries (·.dedent indent continuation) :=
  ⟨fun e => target_dedent e indent continuation, fun _ _ => dedent_behind indent continuation,
    fun _ _ _ h => h.dedent indent continuation⟩

theorem carries_line (line : ScannedLine) (raw : List Char) : Carries fun e => (e.line line raw).2 :=
  ⟨fun e => (e.stack_line line raw).2, fun _ _ => line_behind line raw, fun _ _ _ h => h.line line raw⟩

namespace Alongside

variable {texts : List (List Char)} {e e' e'' : Emitter}

theorem target_eq (h : Alongside e texts e') : e'.target = e.target := by
  induction h with
  | refl => rfl
  | wrote _ _ beside ih => rw [beside.target_eq, ih]
  | same _ same ih =>
    obtain ⟨out, rfl, -⟩ := same
    exact ih

theorem map_bare_stack (h : Alongside e texts e') : e'.stack.map bare = e.stack.map bare := by
  induction h with
  | refl => rfl
  | wrote _ _ beside ih =>
    rw [← ih]
    cases beside with
    | same => rfl
    | marked => exact map_bare_markBody _
  | same _ same ih =>
    obtain ⟨out, rfl, -⟩ := same
    exact ih

theorem trans {texts' : List (List Char)} (h : Alongside e texts e') (h' : Alongside e' texts' e'') :
    Alongside e (texts ++ texts') e'' := by
  induction h' with
  | refl => rwa [List.append_nil]
  | wrote text _ beside ih =>
    rw [← List.append_assoc, h.target_eq]
    exact .wrote text ih beside
  | same _ same ih => exact .same ih same

/-- Written as it is, a line is one more. -/
theorem emit (e : Emitter) (line : List Char) : Alongside e (e.target.codeLines [line]) (e.emit line) :=
  .wrote line .refl (.same (e := e) _ (.inserted ⟨e.out.toList, 0, [], by simp, by simp⟩))

/-- A comment makes no difference but to the notes about statements. -/
theorem statement (h : Alongside e texts e') {text : List Char} (htext : e.target.isCode text = false) :
    Alongside e texts (e'.statement text) := by
  have hwrote := h.wrote text (e'.beside_statement text)
  rwa [Target.codeLines_cons_of_not_isCode htext, Target.codeLines, List.filter_nil, List.append_nil] at hwrote

/-- Blank lines make no difference, whichever of the two wrote them. -/
theorem blank (h : Alongside e texts e') : Alongside e texts (e'.emit []) := by
  refine h.same ⟨_, rfl, ?_⟩
  simp [Target.codeLines, Target.isCode, Text.isBlank]

theorem of_blank (e : Emitter) : Alongside (e.emit []) [] e := by
  refine .same .refl ⟨e.out, rfl, ?_⟩
  simp [Emitter.emit, Target.codeLines, Target.isCode, Text.isBlank]

/-- The lines of code are the same and those inside of comments, but perhaps less `pass`. -/
theorem codeLines (h : Alongside e texts e') :
    DifferByAll e.target (e.target.codeLines e.out.toList) texts (e.target.codeLines e'.out.toList) := by
  induction h with
  | refl => exact .same
  | @wrote _ b c text hrest beside ih =>
    have htarget : b.target = e.target := hrest.target_eq
    have hdiffer : DifferBy e.target text b.out.toList c.out.toList := by
      rw [← htarget]
      cases beside with
      | same out lines => exact lines
      | marked out lines => exact .inserted lines
    cases htext : e.target.isCode text with
    | true =>
      rw [Target.codeLines_cons_of_isCode htext]
      exact .add ih (hdiffer.codeLines_of_isCode htext)
    | false =>
      rw [Target.codeLines_cons_of_not_isCode htext]
      exact (List.append_nil _).symm ▸ hdiffer.codeLines_of_not_isCode htext ih
  | @same _ b c hrest same ih =>
    obtain ⟨out, rfl, hout⟩ := same
    rw [hrest.target_eq] at hout
    rwa [hout]

end Alongside

end Emitter

end Pseudoscribe
