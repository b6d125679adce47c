import Pseudoscribe.Proofs.Scan.Alike
import Pseudoscribe.Proofs.Scan.Literals
import Pseudoscribe.Proofs.Text.Blur

/-!
# Blanks at the end of a line

Blanks begin no literal and no comment and end none, and no mark looks beyond them.  So what the scanner is inside of
behind a line depends on the line without the blanks at its end.
-/

namespace Pseudoscribe

namespace Text

theorem isPrefixOf_append_blank {mark blanks : List Char} (hmark : mark.any isSpace = false)
    (hblanks : isBlank blanks = true) (cs : List Char) : mark.isPrefixOf (cs ++ blanks) = mark.isPrefixOf cs := by
  induction mark generalizing cs with
  | nil => simp
  | cons m mark ih =>
    rw [List.any_cons, Bool.or_eq_false_iff] at hmark
    cases cs with
    | nil =>
      cases blanks with
      | nil => rfl
      | cons b bs =>
        have hb : isSpace b = true := List.all_eq_true.1 hblanks b List.mem_cons_self
        have hne : m ≠ b := by
          rintro rfl
          rw [hmark.1] at hb
          cases hb
        exact Scanner.isPrefixOf_cons_eq_false hne
    | cons c cs =>
      show (m == c && mark.isPrefixOf (cs ++ blanks)) = (m == c && mark.isPrefixOf cs)
      rw [ih hmark.2]

theorem trimEnd_append_blank {blanks : List Char} (h : isBlank blanks = true) (cs : List Char) :
    trimEnd (cs ++ blanks) = trimEnd cs := by
  unfold trimEnd dropEndWhile
  rw [List.reverse_append, List.dropWhile_append_of_pos]
  intro c hc
  exact List.all_eq_true.1 h c (List.mem_reverse.1 hc)

/-- The end that a line loses is blank. -/
theorem exists_chomp_append (piece : List Char) : ∃ ends, piece = chomp piece ++ ends ∧ isBlank ends = true := by
  obtain ⟨rev, rfl⟩ : ∃ rev, piece = rev.reverse := ⟨piece.reverse, piece.reverse_reverse.symm⟩
  unfold chomp
  rw [List.reverse_reverse]
  split
  · exact ⟨['\r', '\n'], by simp, by decide⟩
  · exact ⟨['\n'], by simp, by decide⟩
  · exact ⟨[], (List.append_nil _).symm, rfl⟩

theorem exists_dropLineEnds_chomp (piece : List Char) :
    ∃ ends, piece = dropLineEnds (chomp piece) ++ ends ∧ isBlank ends = true := by
  obtain ⟨ends, hpiece, hblank⟩ := exists_chomp_append piece
  obtain ⟨lineEnds, hchomp, hlineEnds⟩ := exists_dropEndWhile (fun c => c == '\n' || c == '\r') (chomp piece)
  refine ⟨lineEnds ++ ends, ?_, ?_⟩
  · rw [← List.append_assoc, dropLineEnds, ← hchomp]
    exact hpiece
  · unfold isBlank at hblank ⊢
    rw [List.all_append, hblank, Bool.and_true, List.all_eq_true]
    intro c hc
    have hend := hlineEnds c hc
    rw [Bool.or_eq_true, beq_iff_eq, beq_iff_eq] at hend
    rcases hend with rfl | rfl <;> decide

end Text

namespace Scanner

variable {blanks : List Char} (hblanks : Text.isBlank blanks = true)
include hblanks

theorem startsComment_append_blank (style : CommentStyle) (prev : Option Char) (c : Char) (rest : List Char) :
    startsComment style prev c (rest ++ blanks) = startsComment style prev c rest := by
  have hslash : ['/', '/'].isPrefixOf (c :: (rest ++ blanks)) = ['/', '/'].isPrefixOf (c :: rest) :=
    Text.isPrefixOf_append_blank (by decide) hblanks (c :: rest)
  have hdash : ['-', '-'].isPrefixOf (c :: (rest ++ blanks)) = ['-', '-'].isPrefixOf (c :: rest) :=
    Text.isPrefixOf_append_blank (by decide) hblanks (c :: rest)
  have hspace (bs : List Char) (hbs : bs ⊆ blanks) : bs.head?.all Text.isSpace = true := by
    cases bs with
    | nil => rfl
    | cons b bs => exact List.all_eq_true.1 hblanks b (hbs List.mem_cons_self)
  have hlook : ((rest ++ blanks).drop 1).head?.all Text.isSpace = (rest.drop 1).head?.all Text.isSpace := by
    cases rest with
    | nil => exact hspace _ (List.drop_subset 1 blanks)
    | cons d ds =>
      cases ds with
      | nil => exact hspace blanks (List.Subset.refl blanks)
      | cons e es => rfl
  unfold startsComment
  rw [hslash, hdash, hlook]

theorem quoteAt_append_blank (prev : Option Char) (c : Char) (rest : List Char) :
    quoteAt prev c (rest ++ blanks) = quoteAt prev c rest := by
  have htriple (q : Quote) : q.mark.isPrefixOf (c :: (rest ++ blanks)) = q.mark.isPrefixOf (c :: rest) :=
    Text.isPrefixOf_append_blank (by cases q <;> decide) hblanks (c :: rest)
  have halnum : (rest ++ blanks).head?.any Text.isAlnum = rest.head?.any Text.isAlnum := by
    cases rest with
    | cons d ds => rfl
    | nil =>
      cases blanks with
      | nil => rfl
      | cons b bs => exact Text.isAlnum_of_isSpace (List.all_eq_true.1 hblanks b List.mem_cons_self)
  unfold quoteAt
  rw [htriple, htriple, halnum]

theorem step_append_blank (s : Scanner) (prev : Option Char) (column : Nat) (c : Char) (rest : List Char) :
    s.step prev column c (rest ++ blanks) = s.step prev column c rest := by
  have hmark (mark : List Char) (hmark : mark.any Text.isSpace = false) :
      mark.isPrefixOf (c :: (rest ++ blanks)) = mark.isPrefixOf (c :: rest) :=
    Text.isPrefixOf_append_blank hmark hblanks (c :: rest)
  unfold step
  rw [startsComment_append_blank hblanks, quoteAt_append_blank hblanks, hmark ['/', '*'] (by decide),
    hmark ['*', '/'] (by decide)]
  cases s.mode with
  | code => rfl
  | comment opened => rfl
  | literal quote opened =>
    dsimp only
    rw [hmark quote.mark (by cases quote <;> decide)]

theorem mode_consume_blanks (s : Scanner) (skip : Nat) (prev : Option Char) (column : Nat) :
    (s.consume skip prev column blanks).2.mode = s.mode := by
  induction blanks generalizing skip prev column with
  | nil => rfl
  | cons b bs ih =>
    cases skip with
    | succ k => exact ih (Bool.and_eq_true_iff.1 hblanks).2 k (some b) (column + 1)
    | zero => exact consume_blank s prev column hblanks

theorem mode_consume_append_blank (s : Scanner) (skip : Nat) (prev : Option Char) (column : Nat) (cs : List Char) :
    (s.consume skip prev column (cs ++ blanks)).2.mode = (s.consume skip prev column cs).2.mode := by
  induction cs generalizing s skip prev column with
  | nil => exact mode_consume_blanks hblanks s skip prev column
  | cons c rest ih =>
    cases skip with
    | succ k => exact ih s k (some c) (column + 1)
    | zero =>
      rw [List.cons_append, consume, consume, step_append_blank hblanks]
      cases s.step prev column c rest with
      | stop => rfl
      | pass extra mask next => exact ih next extra (some c) (column + 1)

omit hblanks

/-- A blank line leaves a scanner in code where it is. -/
theorem mode_feed_blank_of_code {s : Scanner} (hs : s.mode = .code) {raw : List Char}
    (hraw : Text.isBlank raw = true) : (s.feed raw).2.mode = .code := by
  have hsettled : s.Settled := by
    intro quote opened hmode
    rw [hs] at hmode
    cases hmode
  rw [mode_feed_blank hsettled hraw, hs]

theorem mode_endLine_congr {s t : Scanner} (h : s.mode = t.mode) : s.endLine.mode = t.endLine.mode := by
  unfold endLine
  rw [h]
  cases t.mode with
  | code => exact h
  | comment opened => exact h
  | literal quote opened =>
    dsimp only
    split
    · exact h
    · rfl

/-- What the scanner is inside of behind a line depends on the line without the blanks at its end. -/
theorem mode_feed_chomp (s : Scanner) (piece : List Char) : (s.feed (Text.chomp piece)).2.mode =
    (({ s with line := s.line + 1 } : Scanner).consume 0 none 1 (Text.trimEnd piece)).2.endLine.mode := by
  obtain ⟨ends, hpiece, hends⟩ := Text.exists_dropLineEnds_chomp piece
  obtain ⟨blanks, hline, hblanks⟩ := Text.exists_dropEndWhile Text.isSpace (Text.dropLineEnds (Text.chomp piece))
  have htrim : Text.trimEnd piece = Text.trimEnd (Text.dropLineEnds (Text.chomp piece)) :=
    (congrArg Text.trimEnd hpiece).trans (Text.trimEnd_append_blank hends _)
  have hconsume := mode_consume_append_blank (List.all_eq_true.2 hblanks) { s with line := s.line + 1 } 0 none 1
    (Text.dropEndWhile Text.isSpace (Text.dropLineEnds (Text.chomp piece)))
  rw [← hline] at hconsume
  rw [htrim]
  exact mode_endLine_congr hconsume

end Scanner

end Pseudoscribe
