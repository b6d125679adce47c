import Pseudoscribe.Scan.Scanner

/-!
# Scanners in the same mode

A scan gives one scanned line for each line of the text, numbered from 1 without a gap, whatever literals
and comments run over the ends of the lines.

What a scanner makes of a line depends on its comment marks and on what it is inside of, and on nothing
else: not on the brackets that are open, the number of the line or the place where a literal was opened.
So a scan can be taken up in the middle of a text by a new scanner, wherever the old one stands in code.
-/

namespace Pseudoscribe

/-! ## Scanned lines are numbered -/

namespace Scanner

/-- The scanner stands on the same line as another and knows the same comment marks. -/
structure Follows (next s : Scanner) : Prop where
  line : next.line = s.line
  style : next.style = s.style

theorem Follows.trans {s t u : Scanner} (h : Follows s t) (h' : Follows t u) : Follows s u :=
  ⟨h.line.trans h'.line, h.style.trans h'.style⟩

theorem follows_note (s : Scanner) (issue : Option Issue) : Follows (s.note issue) s := by
  cases issue <;> exact ⟨rfl, rfl⟩

theorem follows_step {s next : Scanner} {prev : Option Char} {column : Nat} {c : Char}
    {rest : List Char} {extra : Nat} {mask : List Char}
    (h : s.step prev column c rest = .pass extra mask next) : Follows next s := by
  unfold step at h
  split at h
  · split at h
    · cases h
      exact ⟨rfl, rfl⟩
    · split at h <;> cases h <;> exact ⟨rfl, rfl⟩
  · split at h <;> cases h <;> exact ⟨rfl, rfl⟩
  · split at h
    · cases h
    · split at h
      · cases h
        exact ⟨rfl, rfl⟩
      · split at h
        · cases h
          exact ⟨rfl, rfl⟩
        · cases h
          have hnote := follows_note { s with brackets := (matchBracket s.brackets ⟨s.line, column⟩ c).1 }
            (matchBracket s.brackets ⟨s.line, column⟩ c).2
          exact ⟨hnote.line, hnote.style⟩

theorem follows_consume (s : Scanner) (skip : Nat) (prev : Option Char) (column : Nat)
    (cs : List Char) : Follows (s.consume skip prev column cs).2 s := by
  induction cs generalizing s skip prev column with
  | nil => exact ⟨rfl, rfl⟩
  | cons c rest ih =>
    cases skip with
    | succ k => exact ih s k (some c) (column + 1)
    | zero =>
      rw [consume]
      split
      · exact ⟨rfl, rfl⟩
      · next extra mask next h => exact (ih next extra (some c) (column + 1)).trans (follows_step h)

theorem follows_endLine (s : Scanner) : Follows s.endLine s := by
  unfold endLine
  split
  · split
    · exact ⟨rfl, rfl⟩
    · have hnote := fun issue => follows_note { s with mode := .code } issue
      exact ⟨(hnote _).line, (hnote _).style⟩
  · exact ⟨rfl, rfl⟩

theorem follows_feed (s : Scanner) (raw : List Char) :
    Follows (s.feed raw).2 { s with line := s.line + 1 } :=
  (follows_endLine _).trans (follows_consume _ 0 none 1 (Text.dropLineEnds raw))

theorem feed_line (s : Scanner) (raw : List Char) : (s.feed raw).2.line = s.line + 1 :=
  (s.follows_feed raw).line

theorem feed_style (s : Scanner) (raw : List Char) : (s.feed raw).2.style = s.style :=
  (s.follows_feed raw).style

theorem feed_number (s : Scanner) (raw : List Char) : (s.feed raw).1.number = s.line + 1 :=
  s.feed_line raw

theorem numbers_feedAll (s : Scanner) (raws : List (List Char)) :
    (s.feedAll raws).1.map ScannedLine.number = List.range' (s.line + 1) raws.length := by
  induction raws generalizing s with
  | nil => rfl
  | cons raw raws ih =>
    rw [feedAll, List.map_cons, ih, feed_number, feed_line, List.length_cons, List.range'_succ]

theorem length_feedAll (s : Scanner) (raws : List (List Char)) : (s.feedAll raws).1.length = raws.length := by
  rw [← List.length_map (f := ScannedLine.number), numbers_feedAll, List.length_range']

theorem follows_feedAll (s : Scanner) (raws : List (List Char)) :
    Follows (s.feedAll raws).2 { s with line := s.line + raws.length } := by
  induction raws generalizing s with
  | nil => exact ⟨rfl, rfl⟩
  | cons raw raws ih =>
    have hrest := ih (s.feed raw).2
    refine ⟨?_, hrest.style.trans (s.feed_style raw)⟩
    rw [List.length_cons, feedAll, hrest.line, feed_line, Nat.add_assoc, Nat.add_comm 1]

theorem numbers_zip_feedAll (s : Scanner) (raws : List (List Char)) :
    ((s.feedAll raws).1.zip raws).map (fun l => l.1.number) =
      List.range' (s.line + 1) ((s.feedAll raws).1.zip raws).length := by
  have hfst := List.map_fst_zip (Nat.le_of_eq (s.length_feedAll raws))
  rw [List.length_zip, length_feedAll, Nat.min_self, ← numbers_feedAll]
  exact (List.map_map (f := Prod.fst) (g := ScannedLine.number)).symm.trans (congrArg _ hfst)

end Scanner

theorem length_scan (style : CommentStyle) (text : List Char) :
    (scan style text).1.length = (Text.lines text).length :=
  Scanner.length_feedAll { style } _

/-! ## Scanners that are alike -/

/-- The scanners are inside of the same, wherever that began. -/
inductive ScanMode.Alike : ScanMode → ScanMode → Prop
  | code : Alike .code .code
  | literal (quote : Quote) (opened opened' : Place) :
    Alike (.literal quote opened) (.literal quote opened')
  | comment (opened opened' : Place) : Alike (.comment opened) (.comment opened')

namespace Scanner

/-- The scanners know the same comment marks and are inside of the same. -/
structure Alike (s t : Scanner) : Prop where
  style : s.style = t.style
  mode : s.mode.Alike t.mode

theorem Alike.isCode {s t : Scanner} (h : Alike s t) : s.mode.isCode = t.mode.isCode := by
  obtain ⟨style, m, brackets, line, issues⟩ := s
  obtain ⟨style', m', brackets', line', issues'⟩ := t
  cases h.mode <;> rfl

theorem alike_note {s t : Scanner} (h : Alike s t) (i j : Option Issue) :
    Alike (s.note i) (t.note j) := by
  cases i <;> cases j <;> exact ⟨h.style, h.mode⟩

/-- Two steps do the same to the text and lead to scanners that are alike. -/
def StepAlike : ScanStep → ScanStep → Prop
  | .stop, .stop => True
  | .pass extra mask next, .pass extra' mask' next' => extra = extra' ∧ mask = mask' ∧ Alike next next'
  | _, _ => False

theorem Alike.step {s t : Scanner} (h : Alike s t) (prev : Option Char) (column : Nat) (c : Char)
    (rest : List Char) : StepAlike (s.step prev column c rest) (t.step prev column c rest) := by
  obtain ⟨style, m, brackets, line, issues⟩ := s
  obtain ⟨style', m', brackets', line', issues'⟩ := t
  obtain ⟨hstyle, hmode⟩ := h
  obtain rfl : style = style' := hstyle
  unfold Scanner.step
  cases hmode with
  | code =>
    dsimp only
    split
    · trivial
    · split
      · exact ⟨rfl, rfl, rfl, .comment _ _⟩
      · split
        · exact ⟨rfl, rfl, rfl, .literal _ _ _⟩
        · refine ⟨rfl, rfl, alike_note ?_ _ _⟩
          exact ⟨rfl, .code⟩
  | literal quote opened opened' =>
    dsimp only
    split
    · exact ⟨rfl, rfl, rfl, .literal quote opened opened'⟩
    · split
      · exact ⟨rfl, rfl, rfl, .code⟩
      · exact ⟨rfl, rfl, rfl, .literal quote opened opened'⟩
  | comment opened opened' =>
    dsimp only
    split
    · exact ⟨rfl, rfl, rfl, .code⟩
    · exact ⟨rfl, rfl, rfl, .comment opened opened'⟩

theorem Alike.consume {s t : Scanner} (h : Alike s t) (skip : Nat) (prev : Option Char) (column : Nat)
    (cs : List Char) :
    (s.consume skip prev column cs).1 = (t.consume skip prev column cs).1 ∧
      Alike (s.consume skip prev column cs).2 (t.consume skip prev column cs).2 := by
  induction cs generalizing s t skip prev column with
  | nil => exact ⟨rfl, h⟩
  | cons c rest ih =>
    cases skip with
    | succ k => exact ih h k (some c) (column + 1)
    | zero =>
      have hstep := h.step prev column c rest
      rw [Scanner.consume, Scanner.consume]
      cases hs : s.step prev column c rest with
      | stop =>
        cases ht : t.step prev column c rest with
        | stop => exact ⟨rfl, h⟩
        | pass => simp [hs, ht, StepAlike] at hstep
      | pass extra mask next =>
        cases ht : t.step prev column c rest with
        | stop => simp [hs, ht, StepAlike] at hstep
        | pass extra' mask' next' =>
          rw [hs, ht] at hstep
          obtain ⟨rfl, rfl, hnext⟩ := hstep
          obtain ⟨hmask, hlast⟩ := ih hnext extra (some c) (column + 1)
          exact ⟨congrArg (mask ++ ·) hmask, hlast⟩

theorem Alike.endLine {s t : Scanner} (h : Alike s t) : Alike s.endLine t.endLine := by
  obtain ⟨style, m, brackets, line, issues⟩ := s
  obtain ⟨style', m', brackets', line', issues'⟩ := t
  obtain ⟨hstyle, hmode⟩ := h
  obtain rfl : style = style' := hstyle
  unfold Scanner.endLine
  cases hmode with
  | code => exact ⟨rfl, .code⟩
  | literal quote opened opened' =>
    dsimp only
    split
    · exact ⟨rfl, .literal quote opened opened'⟩
    · refine alike_note ?_ _ _
      exact ⟨rfl, .code⟩
  | comment opened opened' => exact ⟨rfl, .comment opened opened'⟩

/-- The same line, but for its number and its brackets. -/
structure SameCode (k l : ScannedLine) : Prop where
  masked : k.masked = l.masked
  indent : k.indent = l.indent
  startsInLiteral : k.startsInLiteral = l.startsInLiteral

/-- Scanners that are alike make the same of a line and are alike behind it. -/
theorem Alike.feed {s t : Scanner} (h : Alike s t) (raw : List Char) :
    SameCode (s.feed raw).1 (t.feed raw).1 ∧ Alike (s.feed raw).2 (t.feed raw).2 := by
  have hstart : Alike { s with line := s.line + 1 } { t with line := t.line + 1 } := ⟨h.style, h.mode⟩
  obtain ⟨hmask, hlast⟩ := hstart.consume 0 none 1 (Text.dropLineEnds raw)
  refine ⟨⟨hmask, rfl, ?_⟩, hlast.endLine⟩
  show (!s.mode.isCode) = !t.mode.isCode
  rw [h.isCode]

/-! ## Blank lines -/

theorem isPrefixOf_cons_eq_false {a c : Char} {mark rest : List Char} (h : a ≠ c) :
    (a :: mark).isPrefixOf (c :: rest) = false := by
  simp [List.isPrefixOf, h]

theorem step_space (s : Scanner) (prev : Option Char) (column : Nat) {c : Char} (rest : List Char)
    (h : Text.isSpace c = true) : ∃ mask next, s.step prev column c rest = .pass 0 mask next ∧
      next.mode = s.mode ∧ (s.mode = .code → mask = [c]) := by
  have hne (a : Char) (ha : Text.isSpace a = false) : a ≠ c := by
    rintro rfl
    rw [ha] at h
    cases h
  have hcode : startsComment s.style prev c rest = false := by
    simp [startsComment, isPrefixOf_cons_eq_false (hne '/' (by decide)),
      isPrefixOf_cons_eq_false (hne '-' (by decide)), (hne '#' (by decide)).symm]
  have hquote (q : Quote) : q.mark.isPrefixOf (c :: rest) = false := by
    cases q
    all_goals exact isPrefixOf_cons_eq_false (hne _ (by decide))
  have hslash : ['/', '*'].isPrefixOf (c :: rest) = false :=
    isPrefixOf_cons_eq_false (hne '/' (by decide))
  have hstar : ['*', '/'].isPrefixOf (c :: rest) = false :=
    isPrefixOf_cons_eq_false (hne '*' (by decide))
  have heq (a : Char) (ha : Text.isSpace a = false) : (c == a) = false := by
    simpa using (hne a ha).symm
  unfold step
  cases hs : s.mode with
  | code =>
    have hnone : quoteAt prev c rest = none := by
      simp only [quoteAt, hquote, heq '"' (by decide), heq '\x60' (by decide),
        heq '\x27' (by decide), Bool.false_eq_true, if_false]
    simp only [hcode, hslash, hnone, Bool.and_false, Bool.false_eq_true, if_false]
    refine ⟨_, _, rfl, ?_, fun _ => rfl⟩
    cases (matchBracket s.brackets ⟨s.line, column⟩ c).2 <;> rfl
  | literal quote opened =>
    simp only [hquote, heq '\\' (by decide), Bool.false_and, Bool.false_eq_true, if_false]
    exact ⟨_, _, rfl, hs, fun h => by cases h⟩
  | comment opened =>
    simp only [hstar, Bool.false_eq_true, if_false]
    exact ⟨_, _, rfl, hs, fun h => by cases h⟩

theorem consume_blank (s : Scanner) (prev : Option Char) (column : Nat) {cs : List Char}
    (h : Text.isBlank cs = true) : (s.consume 0 prev column cs).2.mode = s.mode := by
  induction cs generalizing s prev column with
  | nil => rfl
  | cons c rest ih =>
    obtain ⟨hc, hrest⟩ := Bool.and_eq_true_iff.1 h
    obtain ⟨mask, next, hstep, hmode, -⟩ := s.step_space prev column rest hc
    rw [consume, hstep]
    exact (ih next (some c) (column + 1) hrest).trans hmode

/-- Blanks in code stay as they are. -/
theorem masked_consume_blank (s : Scanner) (prev : Option Char) (column : Nat) {cs : List Char}
    (hs : s.mode = .code) (h : Text.isBlank cs = true) : (s.consume 0 prev column cs).1 = cs := by
  induction cs generalizing s prev column with
  | nil => rfl
  | cons c rest ih =>
    obtain ⟨hc, hrest⟩ := Bool.and_eq_true_iff.1 h
    obtain ⟨mask, next, hstep, hmode, hmask⟩ := s.step_space prev column rest hc
    rw [consume, hstep]
    dsimp only
    rw [ih next (some c) (column + 1) (hmode.trans hs) hrest, hmask hs, List.singleton_append]

/-- A literal that the scanner is inside of at the end of a line may run over it. -/
def Settled (s : Scanner) : Prop := ∀ quote opened, s.mode = .literal quote opened → quote.spansLines = true

theorem settled_endLine (s : Scanner) : s.endLine.Settled := by
  intro quote opened h
  unfold endLine at h
  split at h
  · next quote' opened' hs =>
    split at h
    · next hspans =>
      rw [hs] at h
      cases h
      exact hspans
    · cases h
  · next hs => exact absurd h (hs quote opened)

theorem settled_feed (s : Scanner) (raw : List Char) : (s.feed raw).2.Settled := settled_endLine _

theorem isBlank_dropLineEnds {raw : List Char} (h : Text.isBlank raw = true) :
    Text.isBlank (Text.dropLineEnds raw) = true := by
  rw [Text.isBlank, List.all_eq_true] at h ⊢
  intro c hc
  refine h c ?_
  rw [Text.dropLineEnds, Text.dropEndWhile, List.mem_reverse] at hc
  exact List.mem_reverse.1 (List.dropWhile_subset _ hc)

theorem Settled.endLine {s : Scanner} (h : s.Settled) : s.endLine = s := by
  unfold Scanner.endLine
  split
  · next quote opened hs => rw [if_pos (h quote opened hs)]
  · rfl

/-- No code is left of a blank line. -/
theorem isBlank_feed_blank {s : Scanner} {raw : List Char} (hcode : (s.feed raw).1.startsInLiteral = false)
    (h : Text.isBlank raw = true) : (s.feed raw).1.isBlank = true := by
  have hmode : s.mode = .code := by
    cases hs : s.mode with
    | code => rfl
    | literal | comment =>
      have hstarts : (s.feed raw).1.startsInLiteral = !s.mode.isCode := rfl
      rw [hs] at hstarts
      exact absurd (hcode.symm.trans hstarts) Bool.false_ne_true
  have hmasked : (s.feed raw).1.masked = Text.dropLineEnds raw :=
    masked_consume_blank { s with line := s.line + 1 } none 1 hmode (isBlank_dropLineEnds h)
  rw [ScannedLine.isBlank, hcode, hmasked, isBlank_dropLineEnds h]
  rfl

/-- A blank line leaves a scanner inside of what it was inside of. -/
theorem mode_feed_blank {s : Scanner} (hs : s.Settled) {raw : List Char}
    (h : Text.isBlank raw = true) : (s.feed raw).2.mode = s.mode := by
  have hmode := consume_blank { s with line := s.line + 1 } none 1 (isBlank_dropLineEnds h)
  have hsettled : (({ s with line := s.line + 1 } : Scanner).consume 0 none 1
      (Text.dropLineEnds raw)).2.Settled := by
    intro quote opened hl
    exact hs quote opened (hmode.symm.trans hl)
  show (Scanner.endLine _).mode = s.mode
  rw [hsettled.endLine]
  exact hmode

end Scanner

end Pseudoscribe
