import Pseudoscribe.Proofs.Code.Braces
import Pseudoscribe.Proofs.Code.Comments
import Pseudoscribe.Proofs.Code.Rendered

/-!
# String literals in the code

The scanner knows more kinds of literals than the reader of expressions, to whom a mark of three is an empty literal
and another mark, and a backtick is no mark at all.  A literal comes through where both read the line alike; then it
is in the code character by character, but for blanks at the ends of its lines and for what ends the statement that
it is left open in.
-/

namespace Pseudoscribe

open Text Expression

/-! ## Where the readers agree -/

/-- The character that the marks of the literal are made of. -/
def Quote.char : Quote → Char
  | double | tripleDouble => '"'
  | single | tripleSingle => '\x27'
  | backtick => '\x60'

namespace LineLiteral

/-- The reader of expressions leaves the literal as it is: any between single marks; one between marks of three if it
finds no end of its own in the body; one between backticks if nothing in it has another form in the code. -/
def steady (t : Target) (l : LineLiteral) : Bool :=
  let q := l.quote.char
  match l.quote with
  | .double | .single => true
  | .tripleDouble | .tripleSingle =>
    if l.closed then literalTail q (l.body ++ [q, q]) == (l.body ++ [q], [q]) else literalTail q l.body == (l.body, [])
  | .backtick =>
    tokensText t false none (tokens l.text) == l.text && tokensText t true none (tokens l.text) == l.text &&
      (!l.closed || Shut l.text)

/-- The text ends with something that stays at the end of a statement. -/
def endsVisibly (text : List Char) : Bool := text.getLast?.any fun c => !isSpace c && c != ';' && c != ')'

end LineLiteral

namespace Expression

theorem literalTail_of_bodyOf {q : Quote} (hspans : q.spansLines = false) {cs body behind : List Char}
    (h : q.bodyOf cs = (body, some behind)) (v : List Char) :
    literalTail q.char (body ++ q.char :: v) = (body ++ [q.char], v) := by
  have hchar : q.char ≠ '\\' := by cases q <;> decide
  have hmark : q.mark = [q.char] := by cases q <;> first | rfl | cases hspans
  induction cs using Quote.bodyOf.induct q generalizing body with
  | case1 => cases h
  | case2 c cs hspans' ih =>
    rw [hspans] at hspans'
    cases hspans'
  | case3 c cs _ ih =>
    rw [Quote.bodyOf, if_neg (by simp [hspans])] at h
    obtain ⟨rfl, hbehind⟩ := Prod.mk.inj h
    rw [List.cons_append, List.cons_append, literalTail_escape, ih (Prod.ext rfl hbehind)]
    rfl
  | case4 c cs hescape hprefix =>
    rw [Quote.bodyOf, if_pos hprefix] at h
    · obtain ⟨rfl, -⟩ := Prod.mk.inj h
      exact literalTail_mark hchar v
    · exact hescape
  | case5 c cs hescape hprefix ih =>
    rw [Quote.bodyOf, if_neg hprefix] at h
    · obtain ⟨rfl, hbehind⟩ := Prod.mk.inj h
      have hother : c ≠ q.char := by
        rintro rfl
        rw [hmark] at hprefix
        exact hprefix (by simp)
      have hback : c ≠ '\\' := by
        rintro rfl
        cases cs with
        | nil => cases hbehind
        | cons d ds => exact hescape d ds rfl rfl
      rw [List.cons_append, literalTail_other hback hother, ih (Prod.ext rfl hbehind)]
      rfl
    · exact hescape

variable {q : Char} {body : List Char}

theorem quoted_single (hq : isQuote q = true) (h : ∀ v, literalTail q (body ++ q :: v) = (body ++ [q], v)) (closed : Bool) :
    Quoted closed ([q] ++ (body ++ [q])) := by
  have hquoted : Quoted closed (q :: (body ++ [q] ++ [])) := .literal hq (fun v => by simpa using h v) .nil
  rwa [List.append_nil] at hquoted

theorem quoted_triple (hq : isQuote q = true) (h : literalTail q (body ++ [q, q]) = (body ++ [q], [q])) (closed : Bool) :
    Quoted closed ([q, q, q] ++ (body ++ [q, q, q])) := by
  have hback := backslash_ne_of_isQuote hq
  have hempty (v : List Char) : literalTail q ([q] ++ v) = ([q], v) := literalTail_mark hback v
  have hbody (v : List Char) : literalTail q (body ++ [q] ++ v) = (body ++ [q], v) := by
    rcases literalTail_cases hback (body ++ [q, q]) with ⟨-, hall⟩ | ⟨hnil, -⟩
    · rw [h] at hall
      exact hall v
    · rw [h] at hnil
      cases hnil
  have hlast : Quoted closed (q :: ([q] ++ [])) := .literal hq hempty .nil
  have hquoted : Quoted closed (q :: ([q] ++ (q :: (body ++ [q] ++ (q :: ([q] ++ [])))))) :=
    .literal hq hempty (.literal hq hbody hlast)
  simpa using hquoted

theorem quoted_triple_open (hq : isQuote q = true) (h : literalTail q body = (body, [])) :
    Quoted false ([q, q, q] ++ (body ++ [])) := by
  have hquoted : Quoted false (q :: ([q] ++ (q :: body))) :=
    .literal hq (literalTail_mark (backslash_ne_of_isQuote hq)) (.openEnd hq h rfl)
  simpa using hquoted

theorem kept_backtick {t : Target} {rest : List Char}
    (h : ∀ condition, tokensText t condition none (tokens ('\x60' :: rest)) = '\x60' :: rest) : Kept t ('\x60' :: rest) := by
  intro condition prev
  have htokens : tokens ('\x60' :: rest) = .mark ['\x60'] :: tokens rest :=
    tokens_mark (by decide) (by decide +kernel) (by cases rest <;> simp [pairMarks])
  have hnone := h condition
  rw [htokens] at hnone ⊢
  exact hnone

end Expression

namespace LineLiteral

variable {t : Target} {l : LineLiteral}

theorem text_of_closed (h : l.closed = true) : l.text = l.quote.mark ++ (l.body ++ l.quote.mark) := by
  rw [text, if_pos h]

theorem text_of_open (h : l.closed = false) : l.text = l.quote.mark ++ (l.body ++ []) := by
  rw [text, if_neg (by simp [h])]

theorem exists_mark (q : Quote) : ∃ front, q.mark = front ++ [q.char] := by
  cases q
  case double | single | backtick => exact ⟨[], rfl⟩
  case tripleDouble | tripleSingle => exact ⟨[_, _], rfl⟩

theorem head_mark (q : Quote) : ∃ behind, q.mark = q.char :: behind := by
  cases q <;> exact ⟨_, rfl⟩

theorem isMark_char (q : Quote) : isMark q.char = true := by cases q <;> decide

theorem endsMarked (h : l.closed = true) : EndsMarked l.text := by
  obtain ⟨front, hmark⟩ := exists_mark l.quote
  refine ⟨l.quote.mark ++ (l.body ++ front), l.quote.char, ?_, isMark_char l.quote⟩
  rw [text_of_closed h]
  conv => lhs; rw [hmark]
  conv => rhs; rw [hmark]
  simp

/-- Between quotation marks a steady literal is nothing but literals to the reader of expressions. -/
theorem quoted (hsteady : l.steady t = true) (hread : l.quote.bodyOf l.inside = (l.body, l.behind))
    (hends : l.closed = true ∨ l.quote.spansLines = true) (hquote : l.quote ≠ .backtick) : Quoted l.closed l.text := by
  have hisQuote : isQuote l.quote.char = true := by
    cases hq : l.quote with
    | backtick => exact absurd hq hquote
    | double | single | tripleDouble | tripleSingle => decide
  have hsingle (hspans : l.quote.spansLines = false) (hmark : l.quote.mark = [l.quote.char]) : Quoted l.closed l.text := by
    have hclosed := hends.resolve_right (by simp [hspans])
    obtain ⟨behind, hbehind⟩ := Option.isSome_iff_exists.1 hclosed
    rw [text_of_closed hclosed, hmark]
    exact quoted_single hisQuote (literalTail_of_bodyOf hspans (hbehind ▸ hread)) _
  have htriple (hmark : l.quote.mark = [l.quote.char, l.quote.char, l.quote.char])
      (hbody : (if l.closed then literalTail l.quote.char (l.body ++ [l.quote.char, l.quote.char]) ==
          (l.body ++ [l.quote.char], [l.quote.char])
        else literalTail l.quote.char l.body == (l.body, [])) = true) : Quoted l.closed l.text := by
    cases hclosed : l.closed with
    | true =>
      rw [hclosed, if_pos rfl] at hbody
      rw [text_of_closed hclosed, hmark]
      exact quoted_triple hisQuote (eq_of_beq hbody) true
    | false =>
      rw [hclosed, if_neg Bool.false_ne_true] at hbody
      rw [text_of_open hclosed, hmark]
      exact quoted_triple_open hisQuote (eq_of_beq hbody)
  unfold steady at hsteady
  cases hq : l.quote with
  | backtick => exact absurd hq hquote
  | double | single => exact hsingle (by rw [hq]; rfl) (by rw [hq]; rfl)
  | tripleDouble | tripleSingle =>
    rw [hq] at hsteady htriple
    exact htriple rfl hsteady

/-- A steady literal is written as it is, and cut nowhere. -/
theorem solid (hsteady : l.steady t = true) (hread : l.quote.bodyOf l.inside = (l.body, l.behind))
    (hends : l.closed = true ∨ l.quote.spansLines = true) (hlast : l.closed = true ∨ endsVisibly l.text = true) :
    Solid t l.text := by
  obtain ⟨marks, hmark⟩ := head_mark l.quote
  have hhead : ∃ cs, l.text = l.quote.char :: cs := ⟨_, by rw [text, hmark]; rfl⟩
  have hvisible : ∃ cs c, l.text = cs ++ [c] ∧ isSpace c = false ∧ c ≠ ';' ∧ c ≠ ')' := by
    rcases hlast with hclosed | hvisible
    · obtain ⟨cs, c, heq, hc⟩ := endsMarked hclosed
      refine ⟨cs, c, heq, isSpace_of_isMark hc, ?_, ?_⟩
      · rintro rfl
        exact absurd hc (by decide)
      · rintro rfl
        exact absurd hc (by decide)
    · obtain ⟨c, hc, hvisible⟩ := (Option.any_eq_true _ _).1 hvisible
      obtain ⟨cs, heq⟩ := List.getLast?_eq_some_iff.1 hc
      exact ⟨cs, c, heq, by simpa [and_assoc] using hvisible⟩
  obtain ⟨cs, hcs⟩ := hhead
  by_cases hquote : l.quote = .backtick
  · have hbacktick : l.text = '\x60' :: cs := by rw [hcs, hquote]; rfl
    unfold steady at hsteady
    rw [hquote, hbacktick] at hsteady
    simp only [Bool.and_eq_true, beq_iff_eq] at hsteady
    obtain ⟨⟨hplain, hcondition⟩, -⟩ := hsteady
    refine ⟨⟨_, cs, hcs, isMark_char l.quote⟩, hvisible, ?_, .inr ⟨cs, hbacktick⟩⟩
    rw [hbacktick]
    refine kept_backtick fun condition => ?_
    cases condition with
    | false => exact hplain
    | true => exact hcondition
  · have hquoted := quoted hsteady hread hends hquote
    exact ⟨⟨_, cs, hcs, isMark_char l.quote⟩, hvisible, hquoted.kept t, .inl hquoted.uncut⟩

theorem enclosed (hsteady : l.steady t = true) (hread : l.quote.bodyOf l.inside = (l.body, l.behind))
    (hclosed : l.closed = true) : Enclosed l.text := by
  refine ⟨endsMarked hclosed, ?_⟩
  by_cases hquote : l.quote = .backtick
  · unfold steady at hsteady
    rw [hquote, hclosed] at hsteady
    simpa using (Bool.and_eq_true_iff.1 hsteady).2
  · exact (quoted hsteady hread (.inl hclosed) hquote).shut hclosed

end LineLiteral

/-! ## The line that the literal begins in -/

namespace Form

variable {t : Target}

theorem exists_statement {s : Statement} (h : s.texts ≠ []) (declares : Bool) :
    ∃ line, statement t declares s = some line := by
  cases s with
  | leave | next | nothing | unknown => exact absurd rfl h
  | result | print | assign | count | call | input | throw => exact ⟨_, rfl⟩

theorem exists_header {h : Header} (hne : h.expressions ≠ []) : ∃ line, header t h = some line := by
  cases h with
  | function | record | loopUntil | loopForever | attempt | group | unknown => exact absurd rfl hne
  | condition | loopWhile | loopRange | loopEach => exact ⟨_, rfl⟩

end Form

namespace Emitter

variable {e : Emitter} {text code : List Char}

/-- What a plain line says. -/
def saidBy (line : ScannedLine) (raw : List Char) : Statement :=
  Statement.ofCode (Statement.strip (FrameStep.codeOf line raw))

/-- The texts of a line that go into the line of code. -/
def textsOf (e : Emitter) (line : ScannedLine) (raw : List Char) : List (List Char) :=
  let code := FrameStep.codeOf line raw
  match LineShape.ofLine line.masked with
  | .plain => (saidBy line raw).texts
  | .continues _ => (Continuation.ofCode code).texts
  | .opens kind _ => (Header.ofText kind (Header.strip code)).expressions
  | .closes _ _ => if FrameStep.hasLoop (e.dedent line.indent false).stack then (untilTest? code).toList else []

/-- The text is in one of the lines of code. -/
def Holds (text : List Char) (e : Emitter) : Prop := ∃ x ∈ e.out.toList, text <:+: x

theorem Holds.extends {e' : Emitter} (h : Holds text e) (hext : Extends e e') : Holds text e' := by
  obtain ⟨x, hx, htext⟩ := h
  exact ⟨x, hext.out.subset hx, htext⟩

theorem holds_emitAt {line : List Char} (h : text <:+: line) (e : Emitter) (depth : Nat) :
    Holds text (e.emitAt depth line) :=
  ⟨_, by simp [emitAt, emit], h.trans (List.suffix_append (List.replicate (depth * e.width) ' ') line).isInfix⟩

theorem holds_statement {line : List Char} (h : text <:+: line) (e : Emitter) : Holds text (e.statement line) :=
  holds_emitAt h _ _

theorem stands_statement_strip (htext : Solid e.target text) {atEnd : Bool} (h : Stands text atEnd code) :
    Stands text atEnd (Statement.strip code) := by
  obtain ⟨cs, c, hlast, -, hc, -⟩ := htext.last
  exact (h.dropEndWhile ⟨cs, c, hlast, by simpa using hc⟩).trim htext

/-- A plain line with texts is a statement. -/
theorem plain_of_texts (hne : (Statement.ofCode (Statement.strip code)).texts ≠ []) :
    ∃ declares names line, Form.statement e.target declares (Statement.ofCode (Statement.strip code)) = some line ∧
      e.plain code = (true, (e.declare names).statement line) := by
  unfold plain
  dsimp only
  generalize Statement.ofCode (Statement.strip code) = s at hne ⊢
  split
  · exact absurd rfl hne
  · next hnone =>
    obtain ⟨line, hline⟩ := Form.exists_statement (t := e.target) hne _
    rw [hline] at hnone
    cases hnone
  · next line _ hline => exact ⟨_, _, line, hline, rfl⟩

theorem holds_plain (htext : Solid e.target text) (hclosed : Enclosed text) (h : Stands text false code)
    (hfronts : ∀ x ∈ (Statement.ofCode (Statement.strip code)).texts.dropLast, Front x)
    (hne : (Statement.ofCode (Statement.strip code)).texts ≠ []) : Holds text (e.plain code).2 := by
  obtain ⟨declares, names, line, hline, hplain⟩ := plain_of_texts (e := e) hne
  have hlands := Statement.lands_ofCode htext (stands_statement_strip htext h) hfronts hne
  rw [hplain]
  exact holds_statement (Form.infix_statement htext hclosed hlands hline) _

theorem holds_opens (htext : Solid e.target text) (hclosed : Enclosed text) (h : Stands text false code)
    (kind : BlockKind) (style : BlockStyle) (indent : Nat)
    (hfronts : ∀ x ∈ (Header.ofText kind (Header.strip code)).expressions.dropLast, Front x)
    (hne : (Header.ofText kind (Header.strip code)).expressions ≠ []) :
    Holds text (e.opens code kind style indent).2 := by
  have hlands := Header.lands_ofText htext hclosed.ends (Header.stands_strip htext hclosed.ends h) kind hfronts hne
  obtain ⟨line, hline⟩ := Form.exists_header (t := e.target) hne
  have hwritten : Holds text ((e.declare (Header.ofText kind (Header.strip code)).declares).statement line) :=
    holds_statement (Form.infix_header htext hclosed hlands hline) _
  unfold opens
  dsimp only
  rw [hline]
  generalize Header.ofText kind (Header.strip code) = header at hne hwritten ⊢
  split
  · exact absurd rfl hne
  · next hnone => cases hnone
  · next hsome =>
    cases hsome
    exact hwritten.extends (extends_restack _ _)

theorem holds_carryOn (htext : Solid e.target text) (hclosed : Enclosed text) (h : Stands text false code)
    (hknown : (e.carryOn code).1 = true) (hne : (Continuation.ofCode code).texts ≠ []) :
    Holds text (e.carryOn code).2 := by
  have hlands := Continuation.lands_ofCode htext hclosed.ends h hne
  cases hline : Form.continuation e.target (Continuation.ofCode code) with
  | none =>
    unfold carryOn at hknown
    rw [hline] at hknown
    cases hknown
  | some line =>
    cases hs : e.stack with
    | nil =>
      unfold carryOn at hknown
      rw [hline, hs] at hknown
      cases hknown
    | cons f fs =>
      rw [carryOn_of_cons hline hs]
      exact holds_emitAt (Form.infix_continuation htext hclosed hlands hline) _ _

theorem holds_popUntil (htext : Solid e.target text) (hclosed : Enclosed text) {test : List Char}
    (h : Stands text false test) : Holds text (e.popUntil test) := by
  have htest := h.infix_renderCondition htext hclosed
  unfold popUntil
  dsimp only
  split
  · have hif : Holds text (e.emitAt e.depth (Form.coloned "if" (renderCondition e.target test))) :=
      holds_emitAt (Form.infix_coloned htest "if") e _
    exact (hif.extends (extends_emitAt _ _ _)).extends (extends_restack _ _)
  · exact holds_emitAt (htest.trans ⟨'}' :: " while (!(".toList, "));".toList, rfl⟩) _ _

theorem stands_untilTest? {t : Target} (htext : Solid t text) {atEnd : Bool} (h : Stands text atEnd code)
    {test : List Char} (htest : untilTest? code = some test) : Stands text atEnd test := by
  unfold untilTest? at htest
  split at htest
  · next hword =>
    cases htest
    rw [← List.take_append_drop 5 code] at h
    refine (h.of_append htext (unmarked_of_map_toUpper ?_)).trim htext
    rw [eq_of_beq hword]
    decide
  · cases htest

/-- A line that says something known holds the literals of its texts. -/
theorem holds_line {line : ScannedLine} {raw : List Char} (htext : Solid e.target text) (hclosed : Enclosed text)
    (h : Stands text false (FrameStep.codeOf line raw)) (hknown : (e.line line raw).1 = true)
    (hne : e.textsOf line raw ≠ []) (hfronts : ∀ x ∈ (e.textsOf line raw).dropLast, Front x) :
    Holds text (e.line line raw).2 := by
  have htarget (continuation : Bool) : Solid (e.dedent line.indent continuation).target text := by
    rw [target_dedent]
    exact htext
  unfold textsOf at hne hfronts
  dsimp only at hne hfronts
  cases e.lineCase line raw with
  | comment hempty _ =>
    have hnil : FrameStep.codeOf line raw = [] := by
      rw [FrameStep.codeOf, hempty]
      rfl
    exact absurd hnil (h.ne_nil htext)
  | plain hshape _ heq =>
    rw [hshape] at hne hfronts
    rw [heq]
    exact holds_plain (htarget false) hclosed h hfronts hne
  | continues style hshape heq =>
    rw [hshape] at hne
    rw [heq] at hknown ⊢
    exact holds_carryOn (htarget true) hclosed h hknown hne
  | opens kind style hshape heq =>
    rw [hshape] at hne hfronts
    rw [heq]
    exact holds_opens (htarget false) hclosed h kind style line.indent hfronts hne
  | closes kind style hshape heq =>
    rw [hshape] at hne
    dsimp only at hne
    rw [heq]
    split at hne
    · next hloop =>
      cases htest : untilTest? (FrameStep.codeOf line raw) with
      | none =>
        rw [htest] at hne
        exact absurd rfl hne
      | some test =>
        obtain ⟨i, hi⟩ := exists_loop hloop
        rw [close_of_loop kind htest hi]
        refine holds_popUntil (by rw [target_popMany]; exact htarget false) hclosed (stands_untilTest? htext h htest)
    · exact absurd rfl hne

end Emitter

/-! ## The code -/

namespace Text

theorem unlines_cons_cons (x y : List Char) (ys : List (List Char)) :
    unlines (x :: y :: ys) = x ++ '\n' :: unlines (y :: ys) := by
  unfold unlines joinWith
  rw [List.intersperse_cons_cons]
  rfl

theorem unlines_append_cons (x y : List Char) (ys : List (List Char)) : unlines ((x ++ y) :: ys) = x ++ unlines (y :: ys) := by
  cases ys with
  | nil => simp [unlines, joinWith]
  | cons z zs => rw [unlines_cons_cons, unlines_cons_cons, List.append_assoc]

theorem prefix_unlines (x : List Char) (xs after : List (List Char)) :
    unlines (x :: xs) <+: unlines (x :: xs ++ after) := by
  induction xs generalizing x with
  | nil =>
    cases after with
    | nil => exact List.prefix_refl _
    | cons y ys =>
      refine ⟨'\n' :: unlines (y :: ys), ?_⟩
      rw [List.singleton_append, unlines_cons_cons]
      simp [unlines, joinWith]
  | cons y ys ih =>
    rw [List.cons_append, List.cons_append, unlines_cons_cons, unlines_cons_cons]
    exact (List.prefix_append_right_inj x).2 ((List.prefix_cons_inj '\n').2 (ih y))

theorem suffix_unlines (before : List (List Char)) (x : List Char) (xs : List (List Char)) :
    unlines (x :: xs) <:+ unlines (before ++ x :: xs) := by
  induction before with
  | nil => exact List.suffix_refl _
  | cons b bs ih =>
    obtain ⟨y, ys, hne⟩ := List.exists_cons_of_ne_nil (l := bs ++ x :: xs) (by simp)
    rw [List.cons_append]
    rw [hne] at ih ⊢
    rw [unlines_cons_cons]
    exact ih.trans ((List.suffix_cons '\n' _).trans (List.suffix_append b _))

/-- Lines that follow one another follow one another in the text, the first one from anywhere. -/
theorem infix_unlines (before : List (List Char)) (lead x : List Char) (xs after : List (List Char)) :
    unlines (x :: xs) <:+: unlines (before ++ (lead ++ x) :: (xs ++ after)) := by
  have hlead : unlines (x :: (xs ++ after)) <:+ unlines ((lead ++ x) :: (xs ++ after)) := by
    rw [unlines_append_cons]
    exact List.suffix_append lead _
  exact (prefix_unlines x xs after).isInfix.trans (hlead.trans (suffix_unlines before _ _)).isInfix

theorem exists_last_trimEnd {cs : List Char} (h : isBlank cs = false) :
    ∃ ds d, trimEnd cs = ds ++ [d] ∧ d ≠ '\n' := by
  cases hrest : cs.reverse.dropWhile isSpace with
  | nil =>
    rw [List.dropWhile_eq_nil_iff] at hrest
    have hblank : isBlank cs = true := List.all_eq_true.2 fun c hc => hrest c (List.mem_reverse.2 hc)
    rw [h] at hblank
    cases hblank
  | cons d ds =>
    refine ⟨ds.reverse, d, by rw [trimEnd, dropEndWhile, hrest, List.reverse_cons], ?_⟩
    rintro rfl
    have hhead := List.head?_dropWhile_not isSpace cs.reverse
    rw [hrest] at hhead
    exact absurd (show isSpace '\n' = false from hhead) (by decide)

/-- The text ends as its last line does. -/
theorem exists_last_unlines {xs : List (List Char)} (h : ∃ last ∈ xs.getLast?, ∃ ds d, last = ds ++ [d] ∧ d ≠ '\n') :
    ∃ ds d, unlines xs = ds ++ [d] ∧ d ≠ '\n' := by
  obtain ⟨last, hlast, ds, d, rfl, hd⟩ := h
  obtain ⟨front, rfl⟩ := List.getLast?_eq_some_iff.1 hlast
  obtain ⟨lead, hlead⟩ := suffix_unlines front (ds ++ [d]) []
  refine ⟨lead ++ ds, d, ?_, hd⟩
  rw [← hlead, List.append_assoc]
  simp [unlines, joinWith]

end Text

namespace Generation

/-- Where lines are put together, nothing but newlines is dropped. -/
theorem exists_strip (cs : List Char) : ∃ ends, cs = ends ++ joinLines.strip cs ∧ ∀ c ∈ ends, c = '\n' := by
  fun_induction joinLines.strip cs with
  | case1 rest ih =>
    obtain ⟨ends, hends, hall⟩ := ih
    refine ⟨'\n' :: ends, by rw [List.cons_append, ← hends], fun c hc => ?_⟩
    rcases List.mem_cons.1 hc with rfl | hc
    · rfl
    · exact hall c hc
  | case2 cs => exact ⟨[], rfl, fun c hc => absurd hc List.not_mem_nil⟩

/-- Whatever does not end with a newline stays when lines are put together. -/
theorem infix_joinLines {text : List Char} {lines : List (List Char)} (hlast : ∃ cs c, text = cs ++ [c] ∧ c ≠ '\n')
    (h : text <:+: Text.unlines lines) : text <:+: joinLines lines := by
  obtain ⟨ends, hends, hall⟩ := exists_strip (Text.unlines lines).reverse
  have hstripped : text <:+: (joinLines.strip (Text.unlines lines).reverse).reverse := by
    obtain ⟨cs, c, rfl, hc⟩ := hlast
    obtain ⟨before, behind, heq⟩ := h
    have hsplit : (joinLines.strip (Text.unlines lines).reverse).reverse ++ ends.reverse = Text.unlines lines := by
      rw [← List.reverse_append, ← hends, List.reverse_reverse]
    obtain ⟨rest, hrest⟩ := Text.exists_behind_of_append ⟨cs, c, rfl, fun hmem => hc (hall c (List.mem_reverse.1 hmem))⟩
      (hsplit.trans (heq.symm.trans (List.append_assoc _ _ _)))
    exact ⟨before, rest, (List.append_assoc _ _ _).trans hrest.symm⟩
  unfold joinLines
  split
  · next hnil =>
    rw [hnil] at hstripped
    exact hstripped
  · next rest hcons =>
    rw [hcons] at hstripped
    exact hstripped
  · rw [List.reverse_cons]
    exact hstripped.trans (List.prefix_append _ _).isInfix

namespace Progress

/-- All these lines begin inside a literal or a comment. -/
def staysInside (p : Progress) : List (List Char) → Bool
  | [] => true
  | raw :: raws => (p.scanner.feed raw).1.startsInLiteral && (p.feed raw).staysInside raws

/-- These lines begin inside a literal or a comment, and the last one is not blank. -/
def goesOn (p : Progress) (raws : List (List Char)) : Bool :=
  p.staysInside raws && raws.getLast?.any (!isBlank ·)

/-- The lines of a literal are written as they are, but for the blanks at their ends. -/
theorem out_staysInside {p : Progress} {raws : List (List Char)} (h : p.staysInside raws = true) :
    (raws.foldl feed p).emitter.out.toList = p.emitter.out.toList ++ raws.map Text.trimEnd := by
  induction raws generalizing p with
  | nil => exact (List.append_nil _).symm
  | cons raw raws ih =>
    obtain ⟨hinside, hrest⟩ := Bool.and_eq_true_iff.1 h
    have hout : (p.feed raw).emitter.out = p.emitter.out.push (Text.trimEnd raw) := by
      rw [emitter_feed, if_pos hinside]
      rfl
    rw [List.foldl_cons, ih hrest, hout]
    simp

/-- The scanner, in code, finds the literal in the next line, behind what it masks as `masked`; and the line is
recognized. -/
structure Finds (p : Progress) (raw : List Char) (l : LineLiteral) (masked : List Char) : Prop where
  code : p.scanner.mode = .code
  line : Text.dropLineEnds raw = l.line
  reads : Scanner.ReadsLiteral { p.scanner with line := p.scanner.line + 1 } l masked
  /-- between single marks it is closed, or no literal -/
  ends : l.closed = true ∨ l.quote.spansLines = true
  recognized : (p.emitter.line (p.scanner.feed raw).1 raw).1 = true

/-- Whoever reads the next line finds the literal where the scanner does. -/
structure Agrees (p : Progress) (raw : List Char) (l : LineLiteral) (masked : List Char) : Prop where
  /-- no comment was left out in front of it -/
  shown : masked.length = l.before.length
  /-- nothing is open in front of it -/
  shut : Shut l.before
  steady : l.steady p.emitter.target = true
  /-- the line has texts that are written -/
  texts : p.emitter.textsOf (p.scanner.feed raw).1 raw ≠ []
  /-- no cut between the texts goes through a literal -/
  fronts : ∀ x ∈ (p.emitter.textsOf (p.scanner.feed raw).1 raw).dropLast, Front x

variable {p : Progress} {raw : List Char} {l : LineLiteral} {masked : List Char}

theorem Finds.solid (h : p.Finds raw l masked) (hagrees : p.Agrees raw l masked)
    (hlast : l.closed = true ∨ LineLiteral.endsVisibly l.text = true) : Solid p.emitter.target l.text :=
  l.solid hagrees.steady h.reads.body h.ends hlast

/-- The literal stands in the code of its line; at the end, if it is left open there. -/
theorem Finds.stands (h : p.Finds raw l masked) (hagrees : p.Agrees raw l masked)
    (hlast : l.closed = true ∨ LineLiteral.endsVisibly l.text = true) :
    Stands l.text (!l.closed) (FrameStep.codeOf (p.scanner.feed raw).1 raw) := by
  have hsolid := h.solid hagrees hlast
  obtain ⟨c, cs, hhead, hc⟩ := hsolid.head
  obtain ⟨ds, d, hend, hd, -⟩ := hsolid.last
  obtain ⟨behind, hcode, hbehind⟩ := Scanner.codeOf_literal h.code h.line h.reads hagrees.shown h.ends
    ⟨⟨c, cs, hhead, isSpace_of_isMark hc⟩, ⟨ds, d, hend, hd⟩⟩
  refine ⟨trimStart l.before, behind, hcode, hagrees.shut.dropWhile fun _ => isQuote_of_isSpace, fun hopen => hbehind ?_⟩
  simpa [LineLiteral.closed] using hopen

theorem Finds.emitter_feed_eq (h : p.Finds raw l masked) (hsolid : Solid p.emitter.target l.text)
    {atEnd : Bool} (hstands : Stands l.text atEnd (FrameStep.codeOf (p.scanner.feed raw).1 raw)) :
    (p.feed raw).emitter = (p.emitter.line (p.scanner.feed raw).1 raw).2 := by
  have hblank : isBlank raw = false := by
    cases hb : isBlank raw with
    | false => rfl
    | true =>
      have hnil : FrameStep.codeOf (p.scanner.feed raw).1 raw = [] := by
        rw [FrameStep.codeOf, trim_eq_nil hb, List.take_nil]
      exact absurd hnil (hstands.ne_nil hsolid)
  exact emitter_feed_line h.code hblank

theorem holds_feed (h : p.Finds raw l masked) (hagrees : p.Agrees raw l masked) (hclosed : l.closed = true) :
    (p.feed raw).emitter.Holds l.text := by
  have hsolid := h.solid hagrees (.inl hclosed)
  have hstands := h.stands hagrees (.inl hclosed)
  rw [h.emitter_feed_eq hsolid hstands]
  rw [hclosed] at hstands
  exact Emitter.holds_line hsolid (l.enclosed hagrees.steady h.reads.body hclosed) hstands h.recognized hagrees.texts
    hagrees.fronts

/-- A literal that is left open in a statement is written behind what stands in front of it; behind it is what the
statement ends with. -/
theorem exists_out_feed (h : p.Finds raw l masked) (hagrees : p.Agrees raw l masked) (hopen : l.closed = false)
    (hvisible : LineLiteral.endsVisibly l.text = true) (hshape : LineShape.ofLine (p.scanner.feed raw).1.masked = .plain) :
    ∃ front lead, (p.feed raw).emitter.out.toList = front ++
      [lead ++ (l.text ++ Form.tail p.emitter.target (Emitter.saidBy (p.scanner.feed raw).1 raw))] := by
  have hsolid := h.solid hagrees (.inr hvisible)
  have hstands := h.stands hagrees (.inr hvisible)
  obtain ⟨htexts, hfronts⟩ := And.intro hagrees.texts hagrees.fronts
  unfold Emitter.textsOf at htexts hfronts
  rw [hshape] at htexts hfronts
  rw [h.emitter_feed_eq hsolid hstands]
  rw [hopen] at hstands
  cases p.emitter.lineCase (p.scanner.feed raw).1 raw with
  | comment hempty _ =>
    have hnil : FrameStep.codeOf (p.scanner.feed raw).1 raw = [] := by
      rw [FrameStep.codeOf, hempty]
      rfl
    exact absurd hnil (hstands.ne_nil hsolid)
  | continues _ hshape' | opens _ _ hshape' | closes _ _ hshape' =>
    rw [hshape] at hshape'
    cases hshape'
  | plain _ _ heq =>
    have htarget := Emitter.target_dedent p.emitter (p.scanner.feed raw).1.indent false
    obtain ⟨declares, names, line, hline, hplain⟩ := Emitter.plain_of_texts
      (e := p.emitter.dedent (p.scanner.feed raw).1.indent false) htexts
    rw [heq, hplain]
    rw [htarget] at hline
    have hlands := Statement.lands_ofCode hsolid (Emitter.stands_statement_strip hsolid hstands) hfronts htexts
    obtain ⟨lead, hsuffix⟩ := Form.suffix_statement hsolid hlands hline
    rw [← hsuffix]
    generalize (p.emitter.dedent (p.scanner.feed raw).1.indent false).declare names = d
    refine ⟨d.out.toList, List.replicate (d.depth * d.width) ' ' ++ lead, ?_⟩
    rw [List.append_assoc]
    exact Array.toList_push

end Progress

/-- What is written for the first lines stays in front of the code. -/
theorem exists_code (target : Target) (width : Nat) (setting : Setting) {source : List Char}
    {before after : List (List Char)} (hlines : Text.lines source = before ++ after) :
    ∃ behind, (ofSource target width setting source).code =
      joinLines ((before.foldl Progress.feed (begin target width setting)).emitter.out.toList ++ behind) := by
  have hrun := Progress.extends_foldl (before.foldl Progress.feed (begin target width setting)) after
  have hends (e : Emitter) : e.Extends (if setting.leaveOpen then e else e.popMany e.stack.length) := by
    split
    · exact e.extends_refl
    · exact Emitter.extends_popMany _ e
  obtain ⟨behind, hbehind⟩ := (hrun.trans (hends _)).out
  refine ⟨behind, ?_⟩
  rw [hbehind, ← List.foldl_append, ← hlines]
  rfl

/-- The lines that begin inside a literal are in the code, behind what is written for the lines before. -/
theorem infix_code_goesOn {target : Target} {width : Nat} {setting : Setting} {source : List Char}
    {before inner after : List (List Char)} (hlines : Text.lines source = before ++ (inner ++ after))
    (hinner : (before.foldl Progress.feed (begin target width setting)).goesOn inner = true) :
    Text.unlines (inner.map trimEnd) <:+: (ofSource target width setting source).code ∧
      ∀ {front : List (List Char)} {lead first : List Char},
        (before.foldl Progress.feed (begin target width setting)).emitter.out.toList = front ++ [lead ++ first] →
          Text.unlines (first :: inner.map trimEnd) <:+: (ofSource target width setting source).code := by
  obtain ⟨hinside, hvisible⟩ := Bool.and_eq_true_iff.1 hinner
  obtain ⟨last, hlast, hblank⟩ := (Option.any_eq_true _ _).1 hvisible
  have hends : ∃ x ∈ (inner.map trimEnd).getLast?, ∃ ds d, x = ds ++ [d] ∧ d ≠ '\n' :=
    ⟨trimEnd last, by rw [List.getLast?_map, hlast]; rfl, Text.exists_last_trimEnd (by simpa using hblank)⟩
  rw [← List.append_assoc] at hlines
  obtain ⟨behind, hcode⟩ := exists_code target width setting hlines
  rw [List.foldl_append, Progress.out_staysInside hinside] at hcode
  rw [hcode]
  obtain ⟨y, ys, hcons⟩ : ∃ y ys, inner.map trimEnd = y :: ys :=
    List.exists_cons_of_ne_nil fun hnil => by simp [hnil] at hends
  constructor
  · refine infix_joinLines (Text.exists_last_unlines hends) ?_
    have hwithin := Text.infix_unlines (before.foldl Progress.feed (begin target width setting)).emitter.out.toList [] y ys
      behind
    rw [hcons, List.append_assoc]
    exact hwithin
  · intro front lead first hout
    have hends' : ∃ x ∈ (first :: inner.map trimEnd).getLast?, ∃ ds d, x = ds ++ [d] ∧ d ≠ '\n' := by
      rw [hcons, List.getLast?_cons_cons, ← hcons]
      exact hends
    refine infix_joinLines (Text.exists_last_unlines hends') ?_
    have hwithin := Text.infix_unlines front lead first (inner.map trimEnd) behind
    rw [hout]
    simpa using hwithin

/-- The string literals of a source in its code.  Lines that begin inside a literal are in the code one after the other,
without the blanks at their ends.  A literal that is closed in its line is in the code character by character where
whoever reads the line finds it; one that is left open in a statement stands in front of its further lines, together
with what the statement ends with. -/
theorem keeps_literals (target : Target) (width : Nat) (setting : Setting) {source : List Char}
    {before inner after : List (List Char)} {raw : List Char}
    (hlines : Text.lines source = before ++ raw :: (inner ++ after)) {p : Progress}
    (hp : p = before.foldl Progress.feed (begin target width setting)) :
    ((p.feed raw).goesOn inner = true → Text.unlines (inner.map trimEnd) <:+: (ofSource target width setting source).code) ∧
    ∀ {l : LineLiteral} {masked : List Char}, p.Finds raw l masked → p.Agrees raw l masked →
      (l.closed = true → l.text <:+: (ofSource target width setting source).code) ∧
      (l.closed = false → LineLiteral.endsVisibly l.text = true → (p.feed raw).goesOn inner = true →
        LineShape.ofLine (p.scanner.feed raw).1.masked = .plain →
          Text.unlines ((l.text ++ Form.tail target (Emitter.saidBy (p.scanner.feed raw).1 raw)) ::
            inner.map trimEnd) <:+: (ofSource target width setting source).code) := by
  have hfed : (before ++ [raw]).foldl Progress.feed (begin target width setting) = p.feed raw := by
    rw [hp, List.foldl_append]
    rfl
  have htarget : p.emitter.target = target := by
    rw [hp]
    exact (Progress.extends_foldl (begin target width setting) before).target
  have hsplit : Text.lines source = (before ++ [raw]) ++ (inner ++ after) := by simpa using hlines
  refine ⟨fun hinner => (infix_code_goesOn hsplit (hfed.symm ▸ hinner)).1, fun {l masked} hfinds hagrees => ⟨?_, ?_⟩⟩
  · intro hclosed
    obtain ⟨x, hx, hwithin⟩ := Progress.holds_feed hfinds hagrees hclosed
    obtain ⟨behind, hcode⟩ := exists_code target width setting hsplit
    obtain ⟨front, rest, hout⟩ := List.append_of_mem hx
    rw [hfed, hout, List.append_assoc, List.cons_append] at hcode
    obtain ⟨cs, c, hlast, hmark⟩ := LineLiteral.endsMarked hclosed
    have hnewline : c ≠ '\n' := by
      rintro rfl
      exact absurd hmark (by decide)
    have hwhole := Text.infix_unlines front [] x [] (rest ++ behind)
    rw [hcode]
    refine infix_joinLines ⟨cs, c, hlast, hnewline⟩ (hwithin.trans ?_)
    simpa [Text.unlines, Text.joinWith] using hwhole
  · intro hopen hvisible hinner hshape
    obtain ⟨front, lead, hout⟩ := Progress.exists_out_feed hfinds hagrees hopen hvisible hshape
    rw [htarget, ← hfed] at hout
    exact (infix_code_goesOn hsplit (hfed.symm ▸ hinner)).2 hout

/-- A literal that is closed in its line, and one that goes on in the next line. -/
theorem keeps_literals_of_three_lines :
    Text.lines "PRINT \"a, \" + x\ns = \"\"\"b\n  c\"\"\"\n".toList =
        [] ++ "PRINT \"a, \" + x".toList :: ([] ++ ["s = \"\"\"b".toList, "  c\"\"\"".toList]) ∧
      Text.lines "PRINT \"a, \" + x\ns = \"\"\"b\n  c\"\"\"\n".toList =
        ["PRINT \"a, \" + x".toList] ++ "s = \"\"\"b".toList :: (["  c\"\"\"".toList] ++ []) ∧
      "\"a, \"".toList <:+: (ofSource .python 4 {} "PRINT \"a, \" + x\ns = \"\"\"b\n  c\"\"\"\n".toList).code ∧
      Text.unlines ["\"\"\"b".toList, "  c\"\"\"".toList] <:+:
        (ofSource .python 4 {} "PRINT \"a, \" + x\ns = \"\"\"b\n  c\"\"\"\n".toList).code := by
  have hlines : Text.lines "PRINT \"a, \" + x\ns = \"\"\"b\n  c\"\"\"\n".toList =
      [] ++ "PRINT \"a, \" + x".toList :: ([] ++ ["s = \"\"\"b".toList, "  c\"\"\"".toList]) := by
    decide +kernel
  have hprinted : (begin .python 4 {}).Finds "PRINT \"a, \" + x".toList
      ⟨"PRINT ".toList, .double, "a, ".toList, some " + x".toList⟩ "PRINT ".toList :=
    ⟨rfl, by decide +kernel,
      ⟨⟨_, rfl, rfl, fun c cs h => by cases h; exact ⟨_, rfl⟩⟩, by decide +kernel⟩, by decide, by decide +kernel⟩
  have hagrees : (begin .python 4 {}).Agrees "PRINT \"a, \" + x".toList
      ⟨"PRINT ".toList, .double, "a, ".toList, some " + x".toList⟩ "PRINT ".toList :=
    ⟨rfl, by decide +kernel, by decide +kernel, by decide +kernel, by decide +kernel⟩
  have hassigned : ((begin .python 4 {}).feed "PRINT \"a, \" + x".toList).Finds "s = \"\"\"b".toList
      ⟨"s = ".toList, .tripleDouble, "b".toList, none⟩ "s = ".toList :=
    ⟨by decide +kernel, by decide +kernel,
      ⟨⟨_, rfl, by decide +kernel, fun c cs h => by cases h; exact ⟨_, rfl⟩⟩, by decide +kernel⟩, by decide,
      by decide +kernel⟩
  have hagrees' : ((begin .python 4 {}).feed "PRINT \"a, \" + x".toList).Agrees "s = \"\"\"b".toList
      ⟨"s = ".toList, .tripleDouble, "b".toList, none⟩ "s = ".toList :=
    ⟨rfl, by decide +kernel, by decide +kernel, by decide +kernel, by decide +kernel⟩
  have hlines' : Text.lines "PRINT \"a, \" + x\ns = \"\"\"b\n  c\"\"\"\n".toList =
      ["PRINT \"a, \" + x".toList] ++ "s = \"\"\"b".toList :: (["  c\"\"\"".toList] ++ []) := hlines
  refine ⟨hlines, hlines', ((keeps_literals .python 4 {} hlines rfl).2 hprinted hagrees).1 rfl, ?_⟩
  exact ((keeps_literals .python 4 {} hlines' rfl).2 hassigned hagrees').2 rfl (by decide +kernel) (by decide +kernel)
    (by decide +kernel)

/-- Blanks at the ends of the lines of a literal are part of it, and lost. -/
theorem blanks_lost_in_literal :
    (ofSource .python 4 {} "s = \"\"\"a\nb  \nc\"\"\"\n".toList).unrecognized = [] ∧
      Text.lines "s = \"\"\"a\nb  \nc\"\"\"\n".toList =
        [] ++ "s = \"\"\"a".toList :: (["b  ".toList, "c\"\"\"".toList] ++ []) ∧
      (begin .python 4 {}).Finds "s = \"\"\"a".toList ⟨"s = ".toList, .tripleDouble, "a".toList, none⟩ "s = ".toList ∧
      ((begin .python 4 {}).feed "s = \"\"\"a".toList).goesOn ["b  ".toList, "c\"\"\"".toList] = true ∧
      ¬ Text.unlines ["\"\"\"a".toList, "b  ".toList, "c\"\"\"".toList] <:+:
        (ofSource .python 4 {} "s = \"\"\"a\nb  \nc\"\"\"\n".toList).code := by
  have hfinds : (begin .python 4 {}).Finds "s = \"\"\"a".toList ⟨"s = ".toList, .tripleDouble, "a".toList, none⟩
      "s = ".toList :=
    ⟨rfl, by decide +kernel,
      ⟨⟨_, rfl, rfl, fun c cs h => by cases h; exact ⟨_, rfl⟩⟩, by decide +kernel⟩, by decide, by decide +kernel⟩
  exact ⟨by decide +kernel, by decide +kernel, hfinds, by decide +kernel, by decide +kernel⟩

end Generation

end Pseudoscribe
