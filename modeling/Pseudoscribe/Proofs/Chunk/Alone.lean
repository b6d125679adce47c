import Pseudoscribe.Proofs.Chunk.Tiling
import Pseudoscribe.Proofs.Scan.Alike
import Pseudoscribe.Proofs.Scan.Steps
import Pseudoscribe.Proofs.Text.Pieces

/-!
# Scanning a chunk alone

A scanner that is some lines further down does at every character what it would have done above, and whatever it says
of a place it says of the place further down.  A scanner that stands in code with no bracket open is nothing but a new
one further down.  So behind a line after which a text may be cut the rest of the text is scanned as a text of its own.

A chunk that begins there is therefore read alone as it is read in the whole text, and when it ends after such a line
too, then what is found wrong in the chunk is what is found wrong there in the whole text.
-/

namespace Pseudoscribe

open Text

/-! ## Places further down -/

/-- The place some lines further down. -/
def Place.down (k : Nat) (p : Place) : Place := { p with line := k + p.line }

/-- The fault in a text that stands some lines further down; its message names the lines there. -/
def Fault.down (k : Nat) : Fault → Fault
  | mismatchedCloser closer opener opened => mismatchedCloser closer opener (opened.down k)
  | expectedIndentedBlock header => expectedIndentedBlock (k + header)
  | notClosedBefore kind opened closer => notClosedBefore kind (k + opened) (k + closer)
  | neverClosed kind opened => neverClosed kind (k + opened)
  | f => f

def Issue.down (k : Nat) (i : Issue) : Issue := ⟨i.place.down k, i.fault.down k⟩

def OpenBracket.down (k : Nat) (o : OpenBracket) : OpenBracket := { o with place := o.place.down k }

def ScannedLine.down (k : Nat) (l : ScannedLine) : ScannedLine := { l with number := k + l.number }

def ScanMode.down (k : Nat) : ScanMode → ScanMode
  | code => code
  | literal quote opened => literal quote (opened.down k)
  | comment opened => comment (opened.down k)

theorem ScanMode.isCode_down (k : Nat) (m : ScanMode) : (m.down k).isCode = m.isCode := by cases m <;> rfl

theorem ScanMode.eq_code {m : ScanMode} (h : m.isCode = true) : m = code := by
  cases m with
  | code => rfl
  | literal | comment => cases h

/-- What is done at a character, with another scanner behind it. -/
def ScanStep.map (f : Scanner → Scanner) : ScanStep → ScanStep
  | stop => stop
  | pass extra mask next => pass extra mask (f next)

namespace Scanner

/-- The scanner, when it has read `k` more lines before and found these issues in them. -/
def behind (found : Array Issue) (k : Nat) (s : Scanner) : Scanner :=
  { style := s.style
    mode := s.mode.down k
    brackets := s.brackets.map (·.down k)
    line := k + s.line
    issues := found ++ s.issues.map (·.down k) }

variable (found : Array Issue) (k : Nat)

theorem behind_note (s : Scanner) (issue : Option Issue) :
    (s.note issue).behind found k = (s.behind found k).note (issue.map (·.down k)) := by
  cases issue with
  | none => rfl
  | some i => simp [note, behind]

theorem matchBracket_down (brackets : List OpenBracket) (place : Place) (c : Char) :
    matchBracket (brackets.map (·.down k)) (place.down k) c =
      ((matchBracket brackets place c).1.map (·.down k), (matchBracket brackets place c).2.map (·.down k)) := by
  unfold matchBracket
  cases Bracket.ofOpener? c with
  | some b => rfl
  | none =>
    cases Bracket.ofCloser? c with
    | none => rfl
    | some b =>
      cases brackets with
      | nil => rfl
      | cons o rest =>
        by_cases hfits : o.bracket = b
        · simp [OpenBracket.down, hfits]
        · simp [OpenBracket.down, hfits, Issue.down, Fault.down]

theorem step_behind (s : Scanner) (prev : Option Char) (column : Nat) (c : Char) (rest : List Char) :
    (s.behind found k).step prev column c rest = (s.step prev column c rest).map (behind found k) := by
  obtain ⟨style, m, brackets, line, issues⟩ := s
  -- lines occur in the place of the character only
  have hplace : (⟨k + line, column⟩ : Place) = (⟨line, column⟩ : Place).down k := rfl
  dsimp only [behind]
  cases m with
  | code =>
    simp only [step, ScanMode.down]
    split
    · rfl
    · split
      · rfl
      · cases quoteAt prev c rest with
        | some quote => rfl
        | none =>
          simp only [hplace, matchBracket_down, ScanStep.map]
          rw [behind_note]
          rfl
  | literal quote opened =>
    simp only [step, ScanMode.down]
    split
    · rfl
    · split <;> rfl
  | comment opened =>
    simp only [step, ScanMode.down]
    split <;> rfl

theorem consume_behind (s : Scanner) (skip : Nat) (prev : Option Char) (column : Nat) (cs : List Char) :
    (s.behind found k).consume skip prev column cs =
      ((s.consume skip prev column cs).1, (s.consume skip prev column cs).2.behind found k) := by
  induction cs generalizing s skip prev column with
  | nil => rfl
  | cons c rest ih =>
    cases skip with
    | succ skip => exact ih s skip (some c) (column + 1)
    | zero =>
      rw [consume, consume, step_behind]
      cases s.step prev column c rest with
      | stop => rfl
      | pass extra mask next =>
        simp only [ScanStep.map]
        rw [ih next extra (some c) (column + 1)]

theorem endLine_behind (s : Scanner) : (s.behind found k).endLine = s.endLine.behind found k := by
  obtain ⟨style, m, brackets, line, issues⟩ := s
  cases m with
  | code | comment => rfl
  | literal quote opened =>
    have hnote := behind_note found k (⟨style, .code, brackets, line, issues⟩ : Scanner)
      (some ⟨opened, .unterminatedString⟩)
    cases quote with
    | double | single => exact hnote.symm
    | tripleDouble | tripleSingle | backtick => rfl

theorem feed_behind (s : Scanner) (raw : List Char) :
    (s.behind found k).feed raw = ((s.feed raw).1.down k, (s.feed raw).2.behind found k) := by
  have hbegun : { s.behind found k with line := (s.behind found k).line + 1 } =
      ({ s with line := s.line + 1 } : Scanner).behind found k := rfl
  unfold feed
  simp only [hbegun, consume_behind, endLine_behind]
  simp only [behind, ScannedLine.down, ScanMode.isCode_down, List.length_map]

theorem feedAll_behind (s : Scanner) (raws : List (List Char)) :
    (s.behind found k).feedAll raws = ((s.feedAll raws).1.map (·.down k), (s.feedAll raws).2.behind found k) := by
  induction raws generalizing s with
  | nil => rfl
  | cons raw raws ih =>
    simp only [feedAll, feed_behind, ih]
    rfl

theorem finish_behind (s : Scanner) : (s.behind found k).finish = found.toList ++ s.finish.map (·.down k) := by
  obtain ⟨style, m, brackets, line, issues⟩ := s
  cases m <;> simp [finish, endIssues, behind, ScanMode.down, OpenBracket.down, Issue.down, Fault.down]

/-- A scanner that stands in code with no bracket open is a new one, further down. -/
theorem eq_behind {style : CommentStyle} {k : Nat} {s : Scanner} (h : Follows s { style, line := k })
    (hmode : s.mode = .code) (hbrackets : s.brackets = []) : s = ({ style } : Scanner).behind s.issues k := by
  obtain ⟨style', m, brackets, line, issues⟩ := s
  obtain rfl : line = k := h.line
  obtain rfl : style' = style := h.style
  obtain rfl : m = .code := hmode
  obtain rfl : brackets = [] := hbrackets
  simp [behind, ScanMode.down]

/-- Behind a line after which the text may be cut a scanner is a new one, further down. -/
theorem feedAll_eq_behind {style : CommentStyle} {raws : List (List Char)}
    (h : ∀ l ∈ (({ style } : Scanner).feedAll raws).1.getLast?, l.safeAfter = true) :
    (({ style } : Scanner).feedAll raws).2 =
      ({ style } : Scanner).behind (({ style } : Scanner).feedAll raws).2.issues raws.length := by
  have hfollows : Follows (({ style } : Scanner).feedAll raws).2 { style, line := raws.length } := by
    have hline := ({ style } : Scanner).follows_feedAll raws
    rwa [Nat.zero_add] at hline
  have hnew : (({ style } : Scanner).feedAll raws).2.mode = .code ∧
      (({ style } : Scanner).feedAll raws).2.brackets = [] := by
    -- without a last line nothing was read, otherwise the last line says what the scanner stands in
    cases hlast : (({ style } : Scanner).feedAll raws).1.getLast? with
    | none =>
      have hlength := ({ style } : Scanner).length_feedAll raws
      rw [List.getLast?_eq_none_iff.1 hlast] at hlength
      rw [List.eq_nil_of_length_eq_zero hlength.symm]
      exact ⟨rfl, rfl⟩
    | some l =>
      obtain ⟨t, raw, hl, hend⟩ := exists_feed_of_getLast hlast
      have hsafe := h l hlast
      rw [hl, ScannedLine.safeAfter, Bool.and_eq_true] at hsafe
      have hcode : (!!(t.feed raw).2.mode.isCode) = true := hsafe.1
      rw [Bool.not_not] at hcode
      rw [hend]
      exact ⟨ScanMode.eq_code hcode, List.eq_nil_of_length_eq_zero (beq_iff_eq.1 hsafe.2)⟩
  exact eq_behind hfollows hnew.1 hnew.2

end Scanner

/-! ## Texts behind a safe line -/

/-- There are no lines, or the text may be cut after the last of them. -/
def EndsSafely (lines : List ScannedLine) : Prop := ∀ l ∈ lines.getLast?, l.safeAfter = true

/-- Scan lines as a text of their own. -/
def scanLines (style : CommentStyle) (raws : List (List Char)) : List ScannedLine × List Issue :=
  ((({ style } : Scanner).feedAll raws).1, (({ style } : Scanner).feedAll raws).2.finish)

/-- The lines of a text from the number `k + 1` to the number `last` are scanned, as the text `part`, just as they are
in the whole text. -/
structure ScannedAlone (style : CommentStyle) (text part : List Char) (k last : Nat) : Prop where
  lines : ((scan style text).1.take last).drop k = (scan style part).1.map (·.down k)
  issues : EndsSafely (scan style part).1 → (scan style part).2.map (·.down k) <:+: (scan style text).2

variable {style : CommentStyle}

theorem scanLines_append {xs : List (List Char)} (h : EndsSafely (scanLines style xs).1) (ys : List (List Char)) :
    scanLines style (xs ++ ys) =
      ((scanLines style xs).1 ++ (scanLines style ys).1.map (·.down xs.length),
        (scanLines style xs).2 ++ (scanLines style ys).2.map (·.down xs.length)) := by
  have hbehind := Scanner.feedAll_eq_behind h
  -- nothing is open behind the first lines, so that nothing is added at their end
  have hissues : (scanLines style xs).2 = (({ style } : Scanner).feedAll xs).2.issues.toList := by
    have hnone : (({ style } : Scanner).feedAll xs).2.endIssues = [] := by
      rw [hbehind]
      rfl
    rw [scanLines, Scanner.finish, hnone, List.append_nil]
  have hrest := Scanner.feedAll_behind (({ style } : Scanner).feedAll xs).2.issues xs.length { style } ys
  rw [← hbehind] at hrest
  rw [hissues, scanLines, Scanner.feedAll_append, hrest, Scanner.finish_behind]
  rfl

theorem scanLines_take (raws : List (List Char)) (n : Nat) :
    (scanLines style (raws.take n)).1 = (scanLines style raws).1.take n := Scanner.feedAll_take { style } raws n

theorem length_scanLines (style : CommentStyle) (raws : List (List Char)) :
    (scanLines style raws).1.length = raws.length :=
  Scanner.length_feedAll { style } raws

/-- A text of some lines behind a line after which the text may be cut is scanned alone as in the whole text. -/
theorem scannedAlone_of_lines {text part : List Char} {xs ys : List (List Char)} {n : Nat}
    (hsafe : EndsSafely (scanLines style xs).1) (htext : lines text = xs ++ ys) (hpart : lines part = ys.take n) :
    ScannedAlone style text part xs.length (xs.length + n) := by
  have hscan : scan style text = scanLines style (xs ++ ys) := by rw [← htext]; rfl
  have halone : scan style part = scanLines style (ys.take n) := by rw [← hpart]; rfl
  rw [scanLines_append hsafe] at hscan
  constructor
  · rw [hscan, halone, scanLines_take, ← length_scanLines style xs]
    dsimp only
    rw [List.take_length_add_append, List.drop_left, List.map_take]
  · intro hend
    rw [halone] at hend ⊢
    have hsplit := scanLines_append hend (ys.drop n)
    rw [List.take_append_drop] at hsplit
    rw [hscan, hsplit]
    dsimp only
    rw [List.map_append, ← List.append_assoc]
    exact List.infix_append ..

/-- Behind a line after which a text may be cut the rest is scanned as a text of its own, some lines further down; and
so is each chunk that begins there. -/
theorem scan_append_of_endsSafely (style : CommentStyle) {a : List Char} (hclosed : Closed a)
    (hsafe : EndsSafely (scan style a).1) (b : List Char) :
    (scan style (a ++ b)).1 = (scan style a).1 ++ (scan style b).1.map (·.down (lines a).length) ∧
      (scan style (a ++ b)).2 = (scan style a).2 ++ (scan style b).2.map (·.down (lines a).length) ∧
      ∀ limits, ∀ c ∈ (ChunkPlan.ofText limits (a ++ b)).chunks, c.startLine = (lines a).length + 1 →
        ScannedAlone style (a ++ b) c.text.toList (lines a).length c.endLine := by
  have happend : scanLines style (lines a ++ lines b) = _ := scanLines_append hsafe (lines b)
  rw [← lines_append hclosed] at happend
  refine ⟨congrArg Prod.fst happend, congrArg Prod.snd happend, fun limits c hc hstart => ?_⟩
  have htiles := ChunkPlan.tiles_ofText limits (a ++ b)
  have hle := htiles.ordered c hc
  have hcount : (lines a).length = (pieces a).length := List.length_map _
  obtain ⟨n, hn⟩ : ∃ n, c.endLine = (lines a).length + n := ⟨c.endLine - (lines a).length, by omega⟩
  have hpieces : pieces c.text.toList = (pieces b).take n := by
    rw [htiles.lines c hc, hn, hstart, Nat.add_sub_cancel, hcount, pieces_append hclosed, List.take_length_add_append,
      List.drop_left, pieces_flatten_take]
  have hlines : lines c.text.toList = (lines b).take n := by
    rw [lines, hpieces, List.map_take]
    rfl
  rw [hn]
  exact scannedAlone_of_lines hsafe (lines_append hclosed b) hlines

/-- The second of two chunks begins behind a call over two lines; the bracket that does not fit there is found in the
first line of the chunk and in the third one of the text, and so is the bracket it should fit. -/
theorem scannedAlone_of_second_chunk :
    Closed "f(a,\n  b)\n".toList ∧ EndsSafely (scan .pseudocode "f(a,\n  b)\n".toList).1 ∧
      (scan .pseudocode "g(c]\nh()\n".toList).2 = [⟨⟨1, 4⟩, .mismatchedCloser .square .round ⟨1, 2⟩⟩] ∧
      (scan .pseudocode "f(a,\n  b)\ng(c]\nh()\n".toList).2 = [⟨⟨3, 4⟩, .mismatchedCloser .square .round ⟨3, 2⟩⟩] ∧
      ∃ c ∈ (ChunkPlan.ofText ⟨10, 0⟩ "f(a,\n  b)\ng(c]\nh()\n".toList).chunks, c.text = "g(c]\nh()\n" ∧
        ScannedAlone .pseudocode "f(a,\n  b)\ng(c]\nh()\n".toList c.text.toList 2 c.endLine := by
  have hclosed : Closed "f(a,\n  b)\n".toList := by
    intro c hc
    cases hc
    rfl
  have hsafe : EndsSafely (scan .pseudocode "f(a,\n  b)\n".toList).1 := by
    have hlast : (scan .pseudocode "f(a,\n  b)\n".toList).1.getLast? =
        some ⟨2, "  b)".toList, 2, false, false, 0, false⟩ := by
      decide +kernel
    intro l hl
    rw [hlast] at hl
    cases hl
    rfl
  have hscan := scan_append_of_endsSafely .pseudocode hclosed hsafe "g(c]\nh()\n".toList
  have halone : (scan .pseudocode "g(c]\nh()\n".toList).2 = [⟨⟨1, 4⟩, .mismatchedCloser .square .round ⟨1, 2⟩⟩] := by
    decide +kernel
  have hchunk : ∃ c ∈ (ChunkPlan.ofText ⟨10, 0⟩ "f(a,\n  b)\ng(c]\nh()\n".toList).chunks,
      c.text = "g(c]\nh()\n" ∧ c.startLine = 3 := by
    decide +kernel
  obtain ⟨c, hc, htext, hstart⟩ := hchunk
  refine ⟨hclosed, hsafe, halone, ?_, c, hc, htext, hscan.2.2 ⟨10, 0⟩ c hc hstart⟩
  have hissues := hscan.2.1
  rw [halone] at hissues
  exact hissues

end Pseudoscribe
