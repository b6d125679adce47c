import Pseudoscribe.Proofs.Code.Bodies
import Pseudoscribe.Proofs.Code.Stands

/-!
# Literals in lines of code

A text that stands in an expression, and is closed, is a part of the expression as it is written; so it is a part of
the line of each statement, header and continuation that is written with the expression.  In Python the lines of
some statements end with an expression, and then they end with a literal that is left open there.
-/

namespace Pseudoscribe

open Text Expression

variable {t : Target} {text cs : List Char} {atEnd : Bool}

namespace Expression

theorem not_mem_pairMarks {c d : Char} (h : isMark c = true ∨ isMark d = true) : [c, d] ∉ pairMarks := by
  intro hmem
  simp only [pairMarks, List.mem_cons, List.cons.injEq, and_true, List.not_mem_nil, or_false] at hmem
  rcases hmem with ⟨rfl, rfl⟩ | ⟨rfl, rfl⟩ | ⟨rfl, rfl⟩ <;> exact absurd h (by decide)

theorem Solid.apart (h : Solid t text) (before behind : List Char) : Apart before (text ++ behind) := by
  obtain ⟨c, rest, rfl, hmark⟩ := h.head
  intro b _ d hd
  cases hd
  exact ⟨.inr (isWordChar_of_isMark hmark), not_mem_pairMarks (.inr hmark)⟩

theorem EndsMarked.apart (h : EndsMarked text) (behind : List Char) : Apart text behind := by
  obtain ⟨ds, d, rfl, hmark⟩ := h
  intro c hc _ _
  rw [List.getLast?_concat] at hc
  cases hc
  exact ⟨.inl (isWordChar_of_isMark hmark), not_mem_pairMarks (.inl hmark)⟩

/-- The text ends with a mark, with nothing open behind it. -/
structure Enclosed (text : List Char) : Prop where
  ends : EndsMarked text
  shut : Shut text

theorem Stands.infix_tokensText (htext : Solid t text) (hclosed : Enclosed text) (h : Stands text atEnd cs)
    (condition : Bool) (prev : Option Char) : text <:+: tokensText t condition prev (tokens cs) := by
  obtain ⟨before, behind, rfl, hshut, -⟩ := h
  exact Expression.infix_tokensText htext.kept hshut hclosed.shut (htext.apart before behind) (hclosed.ends.apart behind)
    condition prev

theorem Stands.infix_render (htext : Solid t text) (hclosed : Enclosed text) (h : Stands text atEnd cs) :
    text <:+: render t cs :=
  h.infix_tokensText htext hclosed false none

theorem Stands.infix_renderCondition (htext : Solid t text) (hclosed : Enclosed text) (h : Stands text false cs) :
    text <:+: renderCondition t cs :=
  ((h.trim htext).withoutBrackets htext).infix_tokensText htext hclosed true none

theorem Stands.suffix_render (htext : Solid t text) (h : Stands text true cs) : text <:+ render t cs := by
  obtain ⟨before, behind, rfl, hshut, hend⟩ := h
  have hapart := htext.apart before behind
  rw [hend rfl, List.append_nil] at hapart ⊢
  exact suffix_tokensText htext.kept hshut hapart false none

theorem Stands.part (h : Stands text atEnd cs) : text <:+: cs := by
  obtain ⟨before, behind, rfl, -, -⟩ := h
  exact ⟨before, behind, List.append_assoc _ _ _⟩

theorem Stands.ne_nil (htext : Solid t text) (h : Stands text atEnd cs) : cs ≠ [] := by
  obtain ⟨before, behind, rfl, -, -⟩ := h
  obtain ⟨c, rest, rfl, -⟩ := htext.head
  simp

end Expression

/-! ## Forms -/

namespace Form

theorem infix_braced {test : List Char} (h : text <:+: test) (word : String) : text <:+: braced word test :=
  h.trans ⟨word.toList ++ [' ', '('], [')', ' ', '{'], rfl⟩

theorem infix_coloned {test : List Char} (h : text <:+: test) (word : String) : text <:+: coloned word test :=
  h.trans ⟨word.toList ++ [' '], [':'], rfl⟩

theorem stands_base (hclosed : Enclosed text) (h : Stands text false cs) :
    Stands text false (trimEnd (dropEndWhile Phrase.isSign cs)) := by
  refine (h.dropEndMarks hclosed.ends fun c hc => ?_).dropEndMarks hclosed.ends fun _ => isMark_of_isSpace
  simp only [Phrase.isSign, List.contains_iff_mem, List.mem_cons, List.not_mem_nil, or_false] at hc
  rcases hc with rfl | rfl | rfl | rfl <;> decide

theorem infix_assignment (htext : Solid t text) (hclosed : Enclosed text) {target value : List Char}
    (h : Lands text false [target, value]) (declares : Bool) : text <:+: assignment t declares target value := by
  obtain ⟨cs, hmem, hcs, -⟩ := h
  unfold assignment
  dsimp only
  simp only [List.mem_cons, List.not_mem_nil, or_false] at hmem
  rcases hmem with rfl | rfl
  · have hbase := (stands_base hclosed hcs).part
    split
    · exact hbase.trans ⟨[], _, by simp only [List.nil_append, List.append_assoc]; rfl⟩
    · split
      · exact hbase.trans ⟨"let ".toList, _, by simp only [List.append_assoc]; rfl⟩
      · exact hbase.trans ⟨[], _, by simp only [List.nil_append, List.append_assoc]; rfl⟩
  · have hvalue := hcs.infix_render htext hclosed
    split
    · exact hvalue.trans ⟨_, t.terminator, rfl⟩
    · split <;> exact hvalue.trans ⟨_, t.terminator, rfl⟩

/-- A literal that is closed is in the line of the statement as it is. -/
theorem infix_statement (htext : Solid t text) (hclosed : Enclosed text) {s : Statement} (h : Lands text false s.texts)
    {declares : Bool} {line : List Char} (hline : statement t declares s = some line) : text <:+: line := by
  obtain ⟨cs, hmem, hcs, -⟩ := id h
  have hrender := hcs.infix_render htext hclosed
  cases s with
  | leave | next | nothing | unknown => cases hmem
  | result value =>
    cases hline
    obtain rfl := List.mem_singleton.1 hmem
    have hvalue : cs.isEmpty = false := by simpa using hcs.ne_nil htext
    rw [hvalue]
    exact hrender.trans ⟨"return".toList ++ [' '], t.terminator, by simp⟩
  | print arguments =>
    cases hline
    obtain rfl := List.mem_singleton.1 hmem
    cases t with
    | python => exact hrender.trans ⟨_, [')'], rfl⟩
    | javascript => exact hrender.trans ⟨_, [')', ';'], rfl⟩
  | assign target value =>
    cases hline
    exact infix_assignment htext hclosed h declares
  | count target up amount =>
    cases hline
    rcases List.mem_cons.1 hmem with rfl | hamount
    · exact hcs.part.trans ⟨[], _, by simp only [List.nil_append, List.append_assoc]; rfl⟩
    · obtain rfl := Option.mem_toList.1 hamount
      exact hrender.trans ⟨_, t.terminator, rfl⟩
  | call expression =>
    cases hline
    obtain rfl := List.mem_singleton.1 hmem
    exact hrender.trans ⟨[], t.terminator, rfl⟩
  | input target =>
    cases hline
    obtain rfl := List.mem_singleton.1 hmem
    cases t with
    | python => exact hcs.part.trans ⟨[], _, rfl⟩
    | javascript => exact hcs.part.trans ⟨_, _, rfl⟩
  | throw value =>
    cases hline
    obtain rfl := List.mem_singleton.1 hmem
    cases t with
    | python => exact hrender.trans ⟨_, [')'], rfl⟩
    | javascript => exact hrender.trans ⟨_, [')', ';'], rfl⟩

/-- What is written behind the last text of a statement. -/
def tail (t : Target) : Statement → List Char
  | .result _ | .assign .. | .call _ | .count _ _ (some _) => t.terminator
  | .print _ | .throw _ => ')' :: t.terminator
  | .count _ up none => [' ', if up then '+' else '-', '=', ' ', '1'] ++ t.terminator
  | .input _ => match t with
    | .python => " = input()".toList
    | .javascript => " = prompt();".toList
  | .leave | .next | .nothing | .unknown => []

/-- Behind a literal that is left open, its statement goes on with what is written behind its last text. -/
theorem suffix_statement (htext : Solid t text) {s : Statement} (h : Lands text true s.texts) {declares : Bool}
    {line : List Char} (hline : statement t declares s = some line) : text ++ tail t s <:+ line := by
  have hbehind {xs : List Char} (hsuffix : text <:+ xs) {ys : List Char} : text ++ ys <:+ xs ++ ys := by
    obtain ⟨front, rfl⟩ := hsuffix
    exact ⟨front, by rw [List.append_assoc]⟩
  obtain ⟨cs, -, hcs, hlast⟩ := h
  have hlast := hlast rfl
  have hrender := hcs.suffix_render htext
  have hsuffix : text <:+ cs := by
    obtain ⟨before, behind, rfl, -, hend⟩ := hcs
    rw [hend rfl, List.append_nil]
    exact List.suffix_append before text
  cases s with
  | leave | next | nothing | unknown => cases hlast
  | result value =>
    cases hline
    cases hlast
    have hvalue : value.isEmpty = false := by simpa using hcs.ne_nil htext
    rw [hvalue]
    exact hbehind (hrender.trans ⟨"return".toList ++ [' '], by simp⟩)
  | print arguments | throw value =>
    cases hline
    cases hlast
    cases t <;> exact hbehind (hrender.trans ⟨_, rfl⟩)
  | assign target value =>
    cases hline
    cases hlast
    unfold assignment
    dsimp only
    split
    · exact hbehind (hrender.trans ⟨_, rfl⟩)
    · split <;> exact hbehind (hrender.trans ⟨_, rfl⟩)
  | count target up amount =>
    cases amount with
    | none =>
      have htarget : target = cs := by
        simp only [Statement.texts, Option.toList_none, List.getLast?_singleton, Option.some.injEq] at hlast
        exact hlast
      simp only [statement, Option.map_none, Option.getD_none, Option.some.injEq] at hline
      rw [← hline, htarget, List.append_assoc, List.append_assoc]
      exact hbehind hsuffix
    | some amount =>
      cases hline
      cases hlast
      exact hbehind (hrender.trans ⟨_, rfl⟩)
  | call expression =>
    cases hline
    cases hlast
    exact hbehind hrender
  | input target =>
    cases hline
    cases hlast
    cases t with
    | python => exact hbehind hsuffix
    | javascript => exact hbehind (hsuffix.trans ⟨_, rfl⟩)

/-- Each bound of a counting loop is in its line. -/
theorem infix_range (t : Target) (var : List Char) {start stop part : List Char} {step : Option (List Char)}
    (h : part = start ∨ part = stop ∨ step = some part) : part <:+: range t var start stop step := by
  have hleft {xs ys : List Char} (h : part <:+: xs) : part <:+: xs ++ ys := h.trans (List.prefix_append xs ys).isInfix
  have hright {xs ys : List Char} (h : part <:+: ys) : part <:+: xs ++ ys := h.trans (List.suffix_append xs ys).isInfix
  unfold range
  cases t with
  | python =>
    rcases h with rfl | rfl | rfl
    · iterate 5 refine hleft ?_
      exact hright (List.infix_refl part)
    · iterate 3 refine hleft ?_
      exact hright (List.infix_refl part)
    · exact hleft (hright (hright (List.infix_refl part)))
  | javascript =>
    rcases h with rfl | rfl | rfl
    · iterate 8 refine hleft ?_
      exact hright (List.infix_refl part)
    · iterate 4 refine hleft ?_
      exact hright (List.infix_refl part)
    · exact hleft (hright (hright (List.infix_refl part)))

/-- A literal in one of the expressions of a header is in its line as it is. -/
theorem infix_header (htext : Solid t text) (hclosed : Enclosed text) {h : Header} (hlands : Lands text false h.expressions)
    {line : List Char} (hline : header t h = some line) : text <:+: line := by
  obtain ⟨cs, hmem, hcs, -⟩ := hlands
  have hrender := hcs.infix_render htext hclosed
  cases h with
  | function | record | loopUntil | loopForever | attempt | group | unknown => cases hmem
  | condition test | loopWhile test =>
    cases hline
    obtain rfl := List.mem_singleton.1 hmem
    have htest := hcs.infix_renderCondition htext hclosed
    cases t with
    | python => exact infix_coloned htest _
    | javascript => exact infix_braced htest _
  | loopRange var start stop step =>
    cases hline
    simp only [Header.expressions, List.mem_cons, Option.mem_toList] at hmem
    have hpart : render t cs = render t start ∨ render t cs = render t stop ∨ step.map (render t) = some (render t cs) := by
      rcases hmem with rfl | rfl | rfl
      · exact .inl rfl
      · exact .inr (.inl rfl)
      · exact .inr (.inr rfl)
    exact hrender.trans (infix_range t var hpart)
  | loopEach var items =>
    cases hline
    obtain rfl := List.mem_singleton.1 hmem
    cases t with
    | python => exact hrender.trans ⟨_, [':'], rfl⟩
    | javascript => exact hrender.trans ⟨_, [')', ' ', '{'], rfl⟩

theorem infix_continuation (htext : Solid t text) (hclosed : Enclosed text) {c : Continuation}
    (hlands : Lands text false c.texts) {line : List Char} (hline : continuation t c = some line) : text <:+: line := by
  obtain ⟨cs, hmem, hcs, -⟩ := hlands
  cases c with
  | otherwise | always | unknown => cases hmem
  | elseIf test =>
    cases hline
    obtain rfl := List.mem_singleton.1 hmem
    have htest := hcs.infix_renderCondition htext hclosed
    cases t with
    | python => exact infix_coloned htest _
    | javascript => exact (infix_braced htest "else if").trans ⟨['}', ' '], [], List.append_nil _⟩
  | rescue name =>
    cases hline
    obtain rfl := List.mem_singleton.1 hmem
    have hname : cs.isEmpty = false := by simpa using hcs.ne_nil htext
    cases t with
    | python =>
      rw [hname]
      exact infix_coloned hcs.part _
    | javascript =>
      rw [hname]
      exact (infix_braced hcs.part "catch").trans ⟨['}', ' '], [], List.append_nil _⟩

end Form

end Pseudoscribe
