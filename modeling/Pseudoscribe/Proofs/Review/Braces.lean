import Pseudoscribe.Proofs.Scan.Steps
import Pseudoscribe.Proofs.Text.Braces
import Pseudoscribe.Review

/-!
# The braces of reviewed code

A review matches the braces of the masked lines that begin in code, and complains of braces exactly if these are not
balanced.  Lines that begin inside of a literal or a comment are passed over as a whole, also the code behind its
end.  So the complaints are exact for the braces of all the code if no such line has a brace there.
-/

namespace Pseudoscribe

namespace Fault

/-- A complaint about braces. -/
def isBrace (f : Fault) : Bool := f ∈ [unmatchedBrace, unclosedBrace]

theorem isBrace_of_isLexical {f : Fault} (h : f.isLexical = true) : f.isBrace = false := by
  rw [isBrace, decide_eq_false_iff_not]
  intro hf
  simp only [List.mem_cons, List.not_mem_nil, or_false] at hf
  rcases hf with rfl | rfl <;> exact absurd h (by decide)

end Fault

namespace Review

open Text

/-- How many braces were closed that were not open. -/
def misfits (r : Review) : Nat := r.issues.toList.countP (·.fault.isBrace)

/-- Between two states of a review this text was looked at: as long as no brace is closed that is not open, as many are
open as the text leaves open and none is complained of, and otherwise one is. -/
structure Matches (r : Review) (text : List Char) (r' : Review) : Prop where
  fits : NeverBelow r.braces.length text →
    (r'.braces.length : Int) = r.braces.length + height text ∧ r'.misfits = r.misfits
  misfits : ¬ NeverBelow r.braces.length text → r.misfits < r'.misfits

variable {r r' r'' : Review}

theorem Matches.misfits_le {text : List Char} (h : Matches r text r') : r.misfits ≤ r'.misfits := by
  by_cases hbelow : NeverBelow r.braces.length text
  · exact Nat.le_of_eq (h.fits hbelow).2.symm
  · exact Nat.le_of_lt (h.misfits hbelow)

theorem Matches.trans {text text' : List Char} (h : Matches r text r') (h' : Matches r' text' r'') :
    Matches r (text ++ text') r'' := by
  have happend := neverBelow_append r.braces.length text text'
  constructor
  · intro hbelow
    obtain ⟨hfirst, hsecond⟩ := happend.1 hbelow
    obtain ⟨hopen, hsame⟩ := h.fits hfirst
    obtain ⟨hopen', hsame'⟩ := h'.fits (hopen ▸ hsecond)
    refine ⟨?_, hsame'.trans hsame⟩
    rw [hopen', hopen, height_append, Int.add_assoc]
  · intro hbelow
    by_cases hfirst : NeverBelow r.braces.length text
    · obtain ⟨hopen, hsame⟩ := h.fits hfirst
      rw [← hsame]
      exact h'.misfits fun hsecond => hbelow (happend.2 ⟨hfirst, hopen ▸ hsecond⟩)
    · exact Nat.lt_of_lt_of_le (h.misfits hfirst) h'.misfits_le

/-- A text without braces changes nothing. -/
theorem matches_of_braces_eq_nil {text : List Char} (htext : Text.braces text = []) (hbraces : r'.braces = r.braces)
    (hmisfits : r'.misfits = r.misfits) : Matches r text r' := by
  have hbelow : NeverBelow r.braces.length text := by
    rw [← neverBelow_braces, htext]
    exact Int.natCast_nonneg _
  have hheight : height text = 0 := by
    rw [← height_braces, htext]
    rfl
  refine ⟨fun _ => ⟨?_, hmisfits⟩, fun h => absurd hbelow h⟩
  rw [hbraces, hheight, Int.add_zero]

theorem misfits_note (r : Review) (issue : Issue) :
    (r.note issue).misfits = r.misfits + if issue.fault.isBrace then 1 else 0 := by
  show (r.issues.push issue).toList.countP _ = _
  rw [Array.toList_push, List.countP_append, List.countP_singleton]
  rfl

theorem matches_checkBrace (line : Nat) (r : Review) (column : Nat) (c : Char) :
    Matches r [c] (checkBrace line r column c) := by
  unfold checkBrace
  by_cases hopens : c = '{'
  · subst hopens
    have hbelow : NeverBelow r.braces.length ['{'] := ⟨Int.natCast_nonneg _, by simp [NeverBelow, height]; omega⟩
    exact ⟨fun _ => ⟨Int.natCast_succ _, rfl⟩, fun h => absurd hbelow h⟩
  · by_cases hcloses : c = '}'
    · subst hcloses
      have hbelow := neverBelow_replicate (n := r.braces.length) 1 (Int.natCast_nonneg _)
      rw [List.replicate_one] at hbelow
      rw [if_neg (by decide), if_pos (by decide : ('}' == '}') = true)]
      cases hbraces : r.braces with
      | nil =>
        rw [hbraces] at hbelow
        refine ⟨fun h => absurd (hbelow.1 (hbraces ▸ h)) (by decide), fun _ => ?_⟩
        rw [misfits_note]
        exact Nat.lt_succ_self _
      | cons p rest =>
        rw [hbraces, List.length_cons] at hbelow
        have hone : NeverBelow r.braces.length ['}'] := by
          rw [hbraces]
          exact hbelow.2 (by omega)
        refine ⟨fun _ => ⟨?_, rfl⟩, fun h => absurd hone h⟩
        have hheight : height ['}'] = -1 := rfl
        dsimp only
        rw [hbraces, hheight, List.length_cons]
        omega
    · have hother : Text.braces [c] = [] := by simp [hopens, hcloses]
      rw [if_neg (by simpa using hopens), if_neg (by simpa using hcloses)]
      exact matches_of_braces_eq_nil hother rfl rfl

theorem matches_checkBraces (line : Nat) (r : Review) (column : Nat) (text : List Char) :
    Matches r text (checkBraces line r column text) := by
  induction text generalizing r column with
  | nil => exact matches_of_braces_eq_nil rfl rfl rfl
  | cons c cs ih => exact (matches_checkBrace line r column c).trans (ih (checkBrace line r column c) (column + 1))

/-- A complaint about something else leaves the braces as they are. -/
theorem Matches.note {text : List Char} (h : Matches r text r') {issue : Issue}
    (hissue : issue.fault.isBrace = false) : Matches r text (r'.note issue) := by
  have hmisfits : (r'.note issue).misfits = r'.misfits := by
    rw [misfits_note, hissue, if_neg Bool.false_ne_true, Nat.add_zero]
  have hnote : Matches r' [] (r'.note issue) := matches_of_braces_eq_nil rfl rfl hmisfits
  have hboth := h.trans hnote
  rwa [List.append_nil] at hboth

/-! ## Lines -/

/-- What is looked at of lines does not change the language, and the scanner only reads on. -/
structure Keeps (r r' : Review) : Prop where
  indented : r'.indented = r.indented
  scanner : r'.scanner = r.scanner

theorem Keeps.trans (h : Keeps r r') (h' : Keeps r' r'') : Keeps r r'' :=
  ⟨h'.indented.trans h.indented, h'.scanner.trans h.scanner⟩

theorem keeps_checkBraces (line : Nat) (r : Review) (column : Nat) (text : List Char) :
    Keeps r (checkBraces line r column text) := by
  induction text generalizing r column with
  | nil => exact ⟨rfl, rfl⟩
  | cons c cs ih =>
    have hbrace : Keeps r (checkBrace line r column c) := by
      unfold checkBrace
      split
      · exact ⟨rfl, rfl⟩
      · split
        · split <;> exact ⟨rfl, rfl⟩
        · exact ⟨rfl, rfl⟩
    exact hbrace.trans (ih (checkBrace line r column c) (column + 1))

theorem keeps_checkIndent (r : Review) (line : ScannedLine) : Keeps r (r.checkIndent line) := by
  unfold checkIndent
  dsimp only
  split
  · split <;> exact ⟨rfl, rfl⟩
  · exact ⟨rfl, rfl⟩

theorem keeps_mixed (r : Review) (line : ScannedLine) :
    Keeps r (if line.mixedIndent then r.note ⟨⟨line.number, 1⟩, .mixedIndentation⟩ else r) := by
  split <;> exact ⟨rfl, rfl⟩

theorem keeps_check (r : Review) (line : ScannedLine) : Keeps r (r.check line) := by
  have hmixed := keeps_mixed r line
  unfold check
  generalize (if line.mixedIndent then r.note ⟨⟨line.number, 1⟩, .mixedIndentation⟩ else r) = noted at hmixed ⊢
  have hlooked : Keeps r (if noted.indented then noted.checkIndent line
      else checkBraces line.number noted 1 line.masked) := by
    split
    · exact hmixed.trans (keeps_checkIndent noted line)
    · exact hmixed.trans (keeps_checkBraces line.number noted 1 line.masked)
  dsimp only
  split
  · exact ⟨hlooked.indented, hlooked.scanner⟩
  · exact hlooked

/-- What a review looks at of a line. -/
def looksAt (line : ScannedLine) : List Char := if line.startsInLiteral then [] else line.masked

theorem matches_check (hindented : r.indented = false) (line : ScannedLine) : Matches r line.masked (r.check line) := by
  have hmixed : Matches r [] (if line.mixedIndent then r.note ⟨⟨line.number, 1⟩, .mixedIndentation⟩ else r) := by
    have hsame : Matches r [] r := matches_of_braces_eq_nil rfl rfl rfl
    split
    · exact hsame.note rfl
    · exact hsame
  have hsame := (keeps_mixed r line).indented.trans hindented
  unfold check
  generalize (if line.mixedIndent then r.note ⟨⟨line.number, 1⟩, .mixedIndentation⟩ else r) = noted at hmixed hsame ⊢
  have hchecked := hmixed.trans (matches_checkBraces line.number noted 1 line.masked)
  rw [List.nil_append] at hchecked
  dsimp only
  rw [hsame, if_neg Bool.false_ne_true]
  split
  · exact hchecked.note rfl
  · exact hchecked

theorem braces_eq_nil_of_isBlank {line : ScannedLine} (h : line.isBlank = true) : Text.braces line.masked = [] := by
  obtain ⟨-, hblank⟩ := Bool.and_eq_true_iff.1 h
  refine Text.braces_eq_nil_iff.2 ⟨fun hc => ?_, fun hc => ?_⟩
  all_goals
    have hspace := List.all_eq_true.1 hblank _ hc
    revert hspace
    decide

theorem matches_feed (hindented : r.indented = false) (raw : List Char) :
    Matches r (looksAt (r.scanner.feed raw).1) (r.feed raw) := by
  have hscanned : Matches r [] { r with scanner := (r.scanner.feed raw).2 } := matches_of_braces_eq_nil rfl rfl rfl
  have hcheck : ({ r with scanner := (r.scanner.feed raw).2 } : Review).indented = false → _ :=
    fun h => hscanned.trans (matches_check h (r.scanner.feed raw).1)
  unfold feed looksAt
  dsimp only
  cases hinside : (r.scanner.feed raw).1.startsInLiteral with
  | true => exact hscanned
  | false =>
    rw [Bool.false_or, if_neg Bool.false_ne_true]
    split
    · next hblank => exact matches_of_braces_eq_nil (braces_eq_nil_of_isBlank hblank) rfl rfl
    · exact hcheck hindented

theorem keeps_feed (r : Review) (raw : List Char) :
    Keeps { r with scanner := (r.scanner.feed raw).2 } (r.feed raw) := by
  unfold feed
  dsimp only
  split
  · exact ⟨rfl, rfl⟩
  · exact keeps_check _ _

/-! ## Texts -/

theorem matches_read (hindented : r.indented = false) (raws : List (List Char)) :
    Matches r ((r.scanner.feedAll raws).1.flatMap looksAt) (raws.foldl feed r) ∧
      (raws.foldl feed r).scanner = (r.scanner.feedAll raws).2 := by
  induction raws generalizing r with
  | nil => exact ⟨matches_of_braces_eq_nil rfl rfl rfl, rfl⟩
  | cons raw raws ih =>
    have hkeeps := keeps_feed r raw
    obtain ⟨hrest, hscanner⟩ := ih (hkeeps.indented.trans hindented)
    rw [hkeeps.scanner] at hrest hscanner
    exact ⟨(matches_feed hindented raw).trans hrest, hscanner⟩

/-- A review that ends here complains of no brace exactly if all closing ones were open and none is left open. -/
theorem finish_isBrace_iff (hscanner : ∀ i ∈ r.scanner.finish, i.fault.isBrace = false) :
    (∀ i ∈ r.finish, i.fault.isBrace = false) ↔ r.misfits = 0 ∧ r.braces = [] := by
  have hissues : (∀ i ∈ r.issues.toList, i.fault.isBrace = false) ↔ r.misfits = 0 := by
    rw [misfits, List.countP_eq_zero]
    simp only [Bool.not_eq_true]
  have hpending : ∀ i ∈ (r.pending.map missingBody).toList, i.fault.isBrace = false := by
    intro i hi
    obtain ⟨header, -, rfl⟩ := Option.map_eq_some_iff.1 (Option.mem_toList.1 hi)
    rfl
  have hopen : (∀ i ∈ r.braces.reverse.map (⟨·, .unclosedBrace⟩ : Place → Issue), i.fault.isBrace = false) ↔
      r.braces = [] := by
    cases r.braces with
    | nil => simp
    | cons p rest => simp [Fault.isBrace]
  simp only [finish, Issue.sorted, List.mem_mergeSort]
  rw [List.forall_mem_append, List.forall_mem_append, List.forall_mem_append, hissues, hopen]
  exact ⟨fun h => ⟨h.1.1.1, h.1.2⟩, fun h => ⟨⟨⟨h.1, hpending⟩, h.2⟩, hscanner⟩⟩

/-- A review in front of the first line. -/
def begin (language : Language) : Review :=
  { indented := language.isIndented, scanner := { style := .ofMark language.commentMark } }

/-- The lines of code as they are scanned in a language. -/
def linesIn (language : Language) (code : List Char) : List ScannedLine :=
  (scan (.ofMark language.commentMark) code).1

/-- A brace of the code is complained of. -/
def ReportsBraces (language : Language) (code : List Char) : Prop :=
  ∃ i ∈ ofCode language code, i.fault.isBrace = true

theorem balanced_iff_matches {text : List Char} (h : Matches r text r') (hmisfits : r.misfits = 0)
    (hbraces : r.braces = []) : Balanced text ↔ r'.misfits = 0 ∧ r'.braces = [] := by
  have hzero : (r.braces.length : Int) = 0 := by rw [hbraces]; rfl
  have hfits := h.fits
  have hmisfit := h.misfits
  rw [hzero, Int.zero_add] at hfits
  rw [hzero] at hmisfit
  constructor
  · intro hbalanced
    obtain ⟨hopen, hsame⟩ := hfits hbalanced.neverBelow
    rw [hbalanced.ends] at hopen
    exact ⟨hsame.trans hmisfits, List.eq_nil_of_length_eq_zero (Int.natCast_eq_zero.1 hopen)⟩
  · rintro ⟨hnone, hclosed⟩
    have hbelow : NeverBelow 0 text := Decidable.not_not.1 fun hnot => by
      have hlt := hmisfit hnot
      omega
    refine ⟨hbelow, ?_⟩
    rw [← (hfits hbelow).1, hclosed]
    rfl

theorem balanced_congr {text text' : List Char} (h : Text.braces text = Text.braces text') :
    Balanced text ↔ Balanced text' := by
  have hbraces (cs : List Char) : Balanced cs ↔ NeverBelow 0 (Text.braces cs) ∧ height (Text.braces cs) = 0 := by
    rw [neverBelow_braces, height_braces]
    exact ⟨fun h => ⟨h.neverBelow, h.ends⟩, fun h => ⟨h.1, h.2⟩⟩
  rw [hbraces, hbraces, h]

/-- What the complaints about braces say of code. -/
structure BracesReviewed (language : Language) (code : List Char) : Prop where
  /-- the braces that are looked at are those of lines that begin in code -/
  looked : ReportsBraces language code ↔ ¬ Balanced ((linesIn language code).flatMap looksAt)
  /-- so nothing is missed if the others have none -/
  exact : (∀ l ∈ linesIn language code, l.startsInLiteral = true → Text.braces l.masked = []) →
    (ReportsBraces language code ↔ ¬ Balanced ((linesIn language code).flatMap ScannedLine.masked))

/-- In a language with braces a review of code complains of them exactly if those are not balanced that stand on lines
that begin in code. -/
theorem bracesReviewed_ofCode {language : Language} {code : List Char} (hlanguage : language.isIndented = false)
    (hcode : isBlank code = false) : BracesReviewed language code := by
  have hlooked : ReportsBraces language code ↔ ¬ Balanced ((linesIn language code).flatMap looksAt) := by
    obtain ⟨hmatches, hscanner⟩ := matches_read (r := begin language) hlanguage (Text.lines code)
    have hbalanced : Balanced ((linesIn language code).flatMap looksAt) ↔ _ := balanced_iff_matches hmatches rfl rfl
    have hnone := finish_isBrace_iff (r := (Text.lines code).foldl feed (begin language)) fun i hi => by
      rw [hscanner] at hi
      exact Fault.isBrace_of_isLexical (Scanner.isLexical_of_mem_finish hi)
    have hreview : ofCode language code = ((Text.lines code).foldl feed (begin language)).finish := by
      rw [ofCode, hcode, if_neg Bool.false_ne_true]
      rfl
    rw [hbalanced, ← hnone, ReportsBraces, hreview]
    simp
  refine ⟨hlooked, fun hinside => ?_⟩
  have hsame : Text.braces ((linesIn language code).flatMap looksAt) =
      Text.braces ((linesIn language code).flatMap ScannedLine.masked) := by
    rw [Text.braces, Text.braces, List.filter_flatMap, List.filter_flatMap]
    refine congrArg List.flatten (List.map_congr_left fun l hl => ?_)
    unfold looksAt
    split
    · next hl' => exact (hinside l hl hl').symm
    · rfl
  rw [hlooked, balanced_congr hsame]

/-- A block that stays open behind a literal of two lines. -/
theorem bracesReviewed_of_open_block :
    Language.javascript.isIndented = false ∧ isBlank "s = `\n`;\nif (s) \x7b\nf();\n".toList = false ∧
      BracesReviewed .javascript "s = `\n`;\nif (s) \x7b\nf();\n".toList :=
  ⟨by decide, by decide, bracesReviewed_ofCode (by decide) (by decide)⟩

/-- The condition opens its block behind the end of a literal, and its closing brace is complained of. -/
theorem complains_of_balanced :
    isBlank "let s = `a\nb`; if (s) \x7b\nf(s);\n\x7d\n".toList = false ∧ Language.javascript.isIndented = false ∧
      ofCode .javascript "let s = `a\nb`; if (s) \x7b\nf(s);\n\x7d\n".toList = [⟨⟨4, 1⟩, .unmatchedBrace⟩] ∧
      Balanced ((linesIn .javascript "let s = `a\nb`; if (s) \x7b\nf(s);\n\x7d\n".toList).flatMap
        ScannedLine.masked) := by
  decide +kernel

end Review

end Pseudoscribe
