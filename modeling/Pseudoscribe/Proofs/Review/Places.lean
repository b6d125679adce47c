import Pseudoscribe.Proofs.Block.Forest
import Pseudoscribe.Proofs.Review.Braces
import Pseudoscribe.Proofs.Scan.Kept

/-!
# Where issues point to

Every issue names a line of the text.  A complaint about brackets, literals or comments points at the character that
it is about.  The column of a brace is counted in the line without its comments, and the column of a header is the
width of its indentation, so that these point where they should only if nothing was left out in front of the brace,
or if the indentation is as wide as it is long.
-/

namespace Pseudoscribe

namespace Place

/-- The line of the place. -/
def lineOf? (p : Place) (lines : List ReadLine) : Option ReadLine := if p.line = 0 then none else lines[p.line - 1]?

/-- What stands in this column of a line. -/
def charOf? (p : Place) (cs : List Char) : Option Char := if p.column = 0 then none else cs[p.column - 1]?

theorem charOf?_succ (line column : Nat) (cs : List Char) : (⟨line, column + 1⟩ : Place).charOf? cs = cs[column]? := rfl

/-- This character stands there. -/
def Shows (lines : List ReadLine) (p : Place) (c : Char) : Prop :=
  ∃ l, p.lineOf? lines = some l ∧ p.charOf? l.raw = some c

/-- The column is the first one behind the indentation of a line that is not blank, as wide as the scanner takes it. -/
def Indented (lines : List ReadLine) (p : Place) : Prop :=
  ∃ l, p.lineOf? lines = some l ∧ p.column = l.scanned.indent + 1 ∧ Text.isBlank l.raw = false

end Place

namespace Fault

/-- The bracket or brace that the message names. -/
def mark? : Fault → Option Char
  | mismatchedCloser closer _ _ | unmatchedCloser closer => some closer.closer
  | unclosedBracket opener => some opener.opener
  | unmatchedBrace => some '}'
  | unclosedBrace => some '{'
  | _ => none

/-- A complaint about the header of a block. -/
def isHeader : Fault → Bool
  | expectedIndentedBlock _ | notClosedBefore _ _ _ | neverClosed _ _ => true
  | _ => false

/-- What the column of a complaint is counted in: the line, the line without its comments, or its indentation. -/
inductive ColumnIn where
  | line
  | kept
  | indentation
deriving DecidableEq

def columnIn : Fault → ColumnIn
  | unmatchedBrace | unclosedBrace => .kept
  | expectedIndentedBlock _ | notClosedBefore _ _ _ | neverClosed _ _ | leftoverPseudocode _ => .indentation
  | _ => .line

end Fault

namespace ReadLine

/-- How many blanks the line begins with. -/
def blanks (l : ReadLine) : Nat := (l.raw.takeWhile Text.isSpace).length

theorem blanks_lt_length {l : ReadLine} (h : Text.isBlank l.raw = false) : l.blanks < l.raw.length := by
  refine Nat.lt_of_le_of_ne (List.takeWhile_prefix _).length_le fun heq => ?_
  have hall : l.raw.takeWhile Text.isSpace = l.raw := (List.takeWhile_prefix _).eq_of_length heq
  rw [← hall, Text.isBlank, List.all_takeWhile] at h
  cases h

end ReadLine

namespace Issue

/-- The issue points into the line: at the bracket or brace that it names, or at the first visible character of the
header that it is about. -/
def pointsInto (i : Issue) (line : List Char) : Bool :=
  match i.fault.mark? with
  | some mark => i.place.charOf? line == some mark
  | none => (i.place.charOf? line).isSome &&
      (!i.fault.isHeader || i.place.column == (line.takeWhile Text.isSpace).length + 1)

/-- How far the issue points into its line. -/
def Fits (i : Issue) (l : ReadLine) : Prop :=
  match i.fault.columnIn with
  | .line => i.pointsInto l.raw = true
  | .kept => i.pointsInto l.kept = true ∧ (l.kept.take i.place.column <+: l.raw → i.pointsInto l.raw = true)
  | .indentation => i.place.column = l.scanned.indent + 1 ∧
      (i.pointsInto l.raw = true ↔
        if i.fault.isHeader then l.scanned.indent = l.blanks else l.scanned.indent < l.raw.length)

/-- The issue names a line of the text, and points into it as far as it can. -/
def Placed (lines : List ReadLine) (i : Issue) : Prop := ∃ l, i.place.lineOf? lines = some l ∧ i.Fits l

variable {lines : List ReadLine}

theorem placed_of_shows {i : Issue} {c : Char} (h : i.place.Shows lines c) (hline : i.fault.columnIn = .line)
    (hmark : ∀ mark ∈ i.fault.mark?, mark = c) : i.Placed lines := by
  obtain ⟨l, hl, hc⟩ := h
  have hheader : i.fault.isHeader = false := by
    cases hfault : i.fault <;> first | rfl | (rw [hfault] at hline; cases hline)
  refine ⟨l, hl, ?_⟩
  unfold Fits
  rw [hline]
  show i.pointsInto l.raw = true
  unfold pointsInto
  cases hm : i.fault.mark? with
  | none => simp [hc, hheader]
  | some mark =>
    rw [hmark mark hm]
    simp [hc]

theorem placed_of_indented {i : Issue} (h : i.place.Indented lines) (hcolumn : i.fault.columnIn = .indentation) :
    i.Placed lines := by
  obtain ⟨l, hl, hindent, hblank⟩ := h
  have hlt := ReadLine.blanks_lt_length hblank
  have hmark : i.fault.mark? = none := by
    cases hfault : i.fault <;> first | rfl | (rw [hfault] at hcolumn; cases hcolumn)
  have hchar : (i.place.charOf? l.raw).isSome = decide (l.scanned.indent < l.raw.length) := by
    unfold Place.charOf?
    rw [hindent, if_neg (Nat.succ_ne_zero _), Nat.add_sub_cancel, Bool.eq_iff_iff, decide_eq_true_iff]
    exact ⟨fun h => (List.getElem?_eq_some_iff.1 (Option.some_get h).symm).1,
      fun h => by rw [List.getElem?_eq_getElem h]; rfl⟩
  refine ⟨l, hl, ?_⟩
  unfold Fits
  rw [hcolumn]
  refine ⟨hindent, ?_⟩
  unfold pointsInto
  rw [hmark]
  dsimp only
  rw [hchar, hindent]
  cases i.fault.isHeader with
  | false => simp
  | true =>
    simp only [Bool.not_true, Bool.false_or, Bool.and_eq_true, decide_eq_true_eq, beq_iff_eq, if_true]
    unfold ReadLine.blanks at hlt ⊢
    omega

/-- A brace that stands in the line without its comments. -/
theorem placed_of_kept {i : Issue} {l : ReadLine} {c : Char} (hl : i.place.lineOf? lines = some l)
    (hcolumn : i.fault.columnIn = .kept) (hmark : i.fault.mark? = some c) (hc : i.place.charOf? l.kept = some c) :
    i.Placed lines := by
  have hpoints (cs : List Char) (h : i.place.charOf? cs = some c) : i.pointsInto cs = true := by
    unfold pointsInto
    rw [hmark]
    simp [h]
  refine ⟨l, hl, ?_⟩
  unfold Fits
  rw [hcolumn]
  refine ⟨hpoints _ hc, fun hprefix => hpoints _ ?_⟩
  obtain ⟨behind, heq⟩ := hprefix
  unfold Place.charOf? at hc ⊢
  split at hc
  · cases hc
  · next hzero =>
    have hlt : i.place.column - 1 < (l.kept.take i.place.column).length := by
      obtain ⟨hlt, -⟩ := List.getElem?_eq_some_iff.1 hc
      rw [List.length_take]
      omega
    rw [if_neg hzero, ← heq, List.getElem?_append_left hlt, List.getElem?_take, if_pos (by omega)]
    exact hc

end Issue

/-! ## Scans -/

/-- Where the literal or comment was opened that the scanner is inside of. -/
def ScanMode.opened? : ScanMode → Option Place
  | .code => none
  | .literal _ opened | .comment opened => some opened

namespace Scanner

variable {lines : List ReadLine}

/-- What the scanner knows of places is so. -/
structure Sound (lines : List ReadLine) (s : Scanner) : Prop where
  issues : ∀ i ∈ s.issues.toList, i.Placed lines
  brackets : ∀ o ∈ s.brackets, o.place.Shows lines o.bracket.opener
  mode : ∀ p ∈ s.mode.opened?, ∃ c, p.Shows lines c

theorem Sound.note {s : Scanner} (h : s.Sound lines) {issue : Option Issue} (hissue : ∀ i ∈ issue, i.Placed lines) :
    (s.note issue).Sound lines := by
  cases issue with
  | none => exact h
  | some i =>
    refine ⟨fun j hj => ?_, h.brackets, h.mode⟩
    have hpush : j ∈ s.issues.toList ++ [i] := by rwa [← Array.toList_push]
    rcases List.mem_append.1 hpush with hj | hj
    · exact h.issues j hj
    · rw [List.mem_singleton.1 hj]
      exact hissue i rfl

theorem Sound.remode {s : Scanner} (h : s.Sound lines) {mode : ScanMode}
    (hmode : ∀ p ∈ mode.opened?, ∃ c, p.Shows lines c) :
    ({ s with mode } : Scanner).Sound lines := ⟨h.issues, h.brackets, hmode⟩

/-- A bracket that is matched is itself what is noted or complained of. -/
theorem Sound.match {s : Scanner} (h : s.Sound lines) {place : Place} {c : Char} (hplace : place.Shows lines c) :
    ({ s with brackets := (matchBracket s.brackets place c).1 }.note (matchBracket s.brackets place c).2).Sound
      lines := by
  have hcloser {b : Bracket} (hb : Bracket.ofCloser? c = some b) : b.closer = c := by
    unfold Bracket.ofCloser? at hb
    split at hb <;> cases hb <;> rfl
  have hopener {b : Bracket} (hb : Bracket.ofOpener? c = some b) : b.opener = c := by
    unfold Bracket.ofOpener? at hb
    split at hb <;> cases hb <;> rfl
  have hkept {brackets : List OpenBracket} (hbrackets : ∀ o ∈ brackets, o.place.Shows lines o.bracket.opener) :
      ({ s with brackets } : Scanner).Sound lines := ⟨h.issues, hbrackets, h.mode⟩
  have hissue {fault : Fault} (hline : fault.columnIn = .line) (hmark : ∀ mark ∈ fault.mark?, mark = c) :
      ∀ i ∈ some (⟨place, fault⟩ : Issue), i.Placed lines := by
    intro i hi
    cases hi
    exact Issue.placed_of_shows hplace hline hmark
  unfold matchBracket
  split
  · next b hb =>
    refine (hkept fun o ho => ?_).note fun i hi => nomatch hi
    rcases List.mem_cons.1 ho with rfl | ho
    · exact (hopener hb).symm ▸ hplace
    · exact h.brackets o ho
  · split
    · exact (hkept h.brackets).note fun i hi => nomatch hi
    · next b hb =>
      split
      · exact (hkept fun o ho => absurd ho List.not_mem_nil).note
          (hissue rfl fun mark hmark => by cases hmark; exact hcloser hb)
      · next o rest hs =>
        have hrest : ∀ o ∈ rest, o.place.Shows lines o.bracket.opener :=
          fun o ho => h.brackets o (hs ▸ List.mem_cons_of_mem _ ho)
        split
        · exact (hkept hrest).note fun i hi => nomatch hi
        · exact (hkept hrest).note (hissue rfl fun mark hmark => by cases hmark; exact hcloser hb)

theorem Sound.step {s next : Scanner} (h : s.Sound lines) {prev : Option Char} {column extra : Nat} {c : Char}
    {rest mask : List Char} (hplace : Place.Shows lines ⟨s.line, column⟩ c)
    (hstep : s.step prev column c rest = .pass extra mask next) : next.Sound lines := by
  have hnone : ∀ p ∈ ScanMode.code.opened?, ∃ c, p.Shows lines c := fun p hp => nomatch hp
  have hhere : ∀ p ∈ some (⟨s.line, column⟩ : Place), ∃ c, p.Shows lines c := fun p hp => by cases hp; exact ⟨c, hplace⟩
  unfold Scanner.step at hstep
  dsimp only at hstep
  split at hstep
  · split at hstep
    · cases hstep
      exact h
    · split at hstep
      · cases hstep
        exact h.remode hnone
      · cases hstep
        exact h
  · split at hstep
    · cases hstep
      exact h.remode hnone
    · cases hstep
      exact h
  · split at hstep
    · cases hstep
    · split at hstep
      · cases hstep
        exact h.remode hhere
      · split at hstep
        · cases hstep
          exact h.remode hhere
        · cases hstep
          exact h.match hplace

theorem Sound.consume {s : Scanner} (h : s.Sound lines) (skip : Nat) (prev : Option Char) (column : Nat)
    {cs : List Char}
    (hcs : ∀ j c, cs[j]? = some c → Place.Shows lines ⟨s.line, column + j⟩ c) :
    (s.consume skip prev column cs).2.Sound lines := by
  induction cs generalizing s skip prev column with
  | nil => exact h
  | cons c rest ih =>
    have hrest : ∀ j d, rest[j]? = some d → Place.Shows lines ⟨s.line, column + 1 + j⟩ d := by
      intro j d hd
      rw [Nat.add_assoc, Nat.add_comm 1]
      exact hcs (j + 1) d hd
    cases skip with
    | succ k => exact ih h k (some c) (column + 1) hrest
    | zero =>
      rw [Scanner.consume]
      cases hstep : s.step prev column c rest with
      | stop => exact h
      | pass extra mask next =>
        refine ih (h.step (hcs 0 c rfl) hstep) extra (some c) (column + 1) ?_
        rw [(follows_step hstep).line]
        exact hrest

theorem Sound.endLine {s : Scanner} (h : s.Sound lines) : s.endLine.Sound lines := by
  unfold Scanner.endLine
  split
  · next quote opened hmode =>
    split
    · exact h
    · have hcode : ({ s with mode := .code } : Scanner).Sound lines := h.remode fun p hp => nomatch hp
      refine hcode.note fun i hi => ?_
      cases hi
      obtain ⟨c, hc⟩ := h.mode opened (by rw [hmode]; rfl)
      exact Issue.placed_of_shows hc rfl fun mark hmark => by cases hmark
  · exact h

/-- A line that is read is looked at where it stands in the text. -/
theorem Sound.feed {s : Scanner} (h : s.Sound lines) {raw : List Char} (hline : lines[s.line]? = some (s.read raw)) :
    (s.feed raw).2.Sound lines := by
  have hbegun : ({ s with line := s.line + 1 } : Scanner).Sound lines := ⟨h.issues, h.brackets, h.mode⟩
  obtain ⟨ends, hends, -⟩ := Text.exists_dropEndWhile (fun c => c == '\n' || c == '\r') raw
  have hraw : raw = Text.dropLineEnds raw ++ ends := hends
  refine (hbegun.consume 0 none 1 fun j c hc => ⟨s.read raw, hline, ?_⟩).endLine
  show (⟨s.line + 1, 1 + j⟩ : Place).charOf? raw = some c
  obtain ⟨hlt, -⟩ := List.getElem?_eq_some_iff.1 hc
  rw [Nat.add_comm 1, Place.charOf?_succ, hraw, List.getElem?_append_left hlt]
  exact hc

theorem Sound.finish {s : Scanner} (h : s.Sound lines) : ∀ i ∈ s.finish, i.Placed lines := by
  intro i hi
  rcases List.mem_append.1 hi with hi | hi
  · exact h.issues i hi
  · rcases List.mem_append.1 hi with hi | hi
    · cases hmode : s.mode with
      | code =>
        rw [hmode] at hi
        cases hi
      | literal quote opened | comment opened =>
        rw [hmode] at hi
        obtain ⟨c, hc⟩ := h.mode opened (by rw [hmode]; rfl)
        rw [List.mem_singleton.1 hi]
        exact Issue.placed_of_shows hc rfl fun mark hmark => by cases hmark
    · obtain ⟨o, ho, rfl⟩ := List.mem_map.1 hi
      refine Issue.placed_of_shows (h.brackets o (List.mem_reverse.1 ho)) rfl fun mark hmark => ?_
      cases hmark
      rfl

end Scanner

/-! ## Blocks -/

theorem Text.isBlank_of_masked {s : Scanner} {raw : List Char} (hcode : (s.feed raw).1.startsInLiteral = false)
    (h : (s.feed raw).1.isBlank = false) : isBlank raw = false := by
  by_contra hblank
  rw [Scanner.isBlank_feed_blank hcode (Bool.not_eq_false _ ▸ hblank)] at h
  cases h

namespace Nesting

variable {lines : List ReadLine}

/-- What is known of the places of open blocks is so. -/
structure Sound (lines : List ReadLine) (n : Nesting) : Prop where
  heads : ∀ o ∈ n.heads, o.place.Indented lines
  issues : ∀ i ∈ n.issues.toList, i.Placed lines

/-- A complaint about an open block is about its header. -/
structure AboutHeader (complain : OpenBlock → Option Issue) : Prop where
  head : ∀ o, complain o.head = complain o
  about : ∀ o, ∀ i ∈ complain o, i.place = o.place ∧ i.fault.columnIn = .indentation

theorem aboutHeader_emptyBody (lastCode : Nat) : AboutHeader (emptyBody lastCode) := by
  refine ⟨fun o => rfl, fun o i hi => ?_⟩
  unfold emptyBody at hi
  split at hi
  · cases hi
    exact ⟨rfl, rfl⟩
  · cases hi

theorem aboutHeader_cutOff (line : Nat) : AboutHeader (cutOff line) := by
  refine ⟨fun o => rfl, fun o i hi => ?_⟩
  unfold cutOff at hi
  split at hi
  · cases hi
  · cases hi
    exact ⟨rfl, rfl⟩

theorem aboutHeader_leftOpen (lastCode : Nat) : AboutHeader (leftOpen lastCode) := by
  refine ⟨fun o => rfl, fun o i hi => ?_⟩
  unfold leftOpen at hi
  split at hi
  · exact (aboutHeader_emptyBody lastCode).about o i hi
  · cases hi
    exact ⟨rfl, rfl⟩

theorem Sound.popMany {n : Nesting} (h : n.Sound lines) {complain : OpenBlock → Option Issue}
    (hcomplain : AboutHeader complain) (count : Nat) : (popMany complain count n).Sound lines := by
  constructor
  · intro o ho
    rw [heads_popMany] at ho
    exact h.heads o (List.mem_of_mem_drop ho)
  · intro i hi
    rw [issues_popMany hcomplain.head] at hi
    rcases List.mem_append.1 hi with hi | hi
    · exact h.issues i hi
    · obtain ⟨o, ho, hi⟩ := List.mem_filterMap.1 hi
      obtain ⟨hplace, hcolumn⟩ := hcomplain.about o i hi
      exact Issue.placed_of_indented (hplace ▸ h.heads o (List.mem_of_mem_take ho)) hcolumn

theorem Sound.pop {n : Nesting} (h : n.Sound lines) (endLine : Nat) (closed : Bool) :
    (n.pop endLine closed).Sound lines := by
  constructor
  · intro o ho
    rw [heads_pop] at ho
    exact h.heads o (List.mem_of_mem_tail ho)
  · rw [issues_pop]
    exact h.issues

theorem Sound.close {n : Nesting} (h : n.Sound lines) {line : Nat} {c : Char} (hline : Place.Shows lines ⟨line, 1⟩ c)
    (kind : Option BlockKind) (style : BlockStyle) : (n.close line kind style).Sound lines := by
  unfold Nesting.close
  split
  · refine ⟨h.heads, fun i hi => ?_⟩
    have hpush : i ∈ n.issues.toList ++ [⟨⟨line, 1⟩, .strayCloser kind⟩] := by rwa [← Array.toList_push]
    rcases List.mem_append.1 hpush with hi | hi
    · exact h.issues i hi
    · rw [List.mem_singleton.1 hi]
      exact Issue.placed_of_shows hline rfl fun mark hmark => by cases hmark
  · exact (h.popMany (aboutHeader_cutOff line) _).pop _ _

theorem lineOf?_feed {s : Scanner} {raw : List Char} (hline : lines[s.line]? = some (s.read raw)) (column : Nat) :
    (⟨(s.feed raw).1.number, column⟩ : Place).lineOf? lines = some (s.read raw) := by
  rw [s.feed_number raw]
  exact hline

theorem shows_first {s : Scanner} {raw : List Char} (hline : lines[s.line]? = some (s.read raw))
    (hblank : Text.isBlank raw = false) : ∃ c, Place.Shows lines ⟨(s.feed raw).1.number, 1⟩ c := by
  obtain ⟨c, cs, hraw⟩ : ∃ c cs, raw = c :: cs := List.exists_cons_of_ne_nil fun hnil => by
    rw [hnil] at hblank
    cases hblank
  refine ⟨c, s.read raw, lineOf?_feed hline 1, ?_⟩
  show raw[0]? = some c
  rw [hraw]
  rfl

theorem Sound.enter {n : Nesting} (h : n.Sound lines) {s : Scanner} {raw : List Char}
    (hline : lines[s.line]? = some (s.read raw)) (hblank : Text.isBlank raw = false) (shape : LineShape) :
    (n.enter (s.feed raw).1 raw shape).Sound lines := by
  cases shape with
  | plain | continues => exact h
  | opens kind style =>
    refine ⟨fun o ho => ?_, h.issues⟩
    rcases List.mem_cons.1 ho with rfl | ho
    · exact ⟨s.read raw, lineOf?_feed hline _, rfl, hblank⟩
    · exact h.heads o ho
  | closes kind style =>
    obtain ⟨c, hfirst⟩ := shows_first hline hblank
    exact h.close hfirst kind style

theorem Sound.feed {n : Nesting} (h : n.Sound lines) {s : Scanner} {raw : List Char}
    (hline : lines[s.line]? = some (s.read raw)) : (n.feed (s.feed raw).1 raw).Sound lines := by
  unfold Nesting.feed
  split
  · exact ⟨h.heads, h.issues⟩
  · next hcode =>
    split
    · exact h
    · next hmasked =>
      have hblank := Text.isBlank_of_masked (Bool.not_eq_true _ ▸ hcode) (Bool.not_eq_true _ ▸ hmasked)
      have hdedent := h.popMany (aboutHeader_emptyBody n.lastCode)
        (n.stack.takeWhile
          (·.endsAt (s.feed raw).1.indent (LineShape.ofLine (s.feed raw).1.masked).isContinuation)).length
      have hentered := hdedent.enter hline hblank (LineShape.ofLine (s.feed raw).1.masked)
      exact ⟨hentered.heads, hentered.issues⟩

end Nesting

/-! ## Reviews -/

namespace Review

variable {lines : List ReadLine}

/-- What a review knows of places is so. -/
structure Sound (lines : List ReadLine) (r : Review) : Prop where
  scanner : r.scanner.Sound lines
  braces : ∀ p ∈ r.braces, (⟨p, .unclosedBrace⟩ : Issue).Placed lines
  pending : ∀ header ∈ r.pending, Place.Indented lines ⟨header.1, header.2 + 1⟩
  issues : ∀ i ∈ r.issues.toList, i.Placed lines

theorem Sound.note {r : Review} (h : r.Sound lines) {issue : Issue} (hissue : issue.Placed lines) :
    (r.note issue).Sound lines := by
  refine ⟨h.scanner, h.braces, h.pending, fun i hi => ?_⟩
  have hpush : i ∈ r.issues.toList ++ [issue] := by rwa [← Array.toList_push]
  rcases List.mem_append.1 hpush with hi | hi
  · exact h.issues i hi
  · rw [List.mem_singleton.1 hi]
    exact hissue

theorem Sound.checkIndent {r : Review} (h : r.Sound lines) {line : ScannedLine}
    (hline : Place.Indented lines ⟨line.number, line.indent + 1⟩) : (r.checkIndent line).Sound lines := by
  obtain ⟨noted, hnoted, heq⟩ : ∃ noted : Review, noted.Sound lines ∧
      r.checkIndent line = { noted with pending := (r.checkIndent line).pending } := by
    cases hpending : r.pending with
    | none => exact ⟨r, h, by simp [Review.checkIndent, hpending]⟩
    | some header =>
      by_cases hleft : line.indent ≤ header.2
      · exact ⟨r.note (missingBody header), h.note (Issue.placed_of_indented (h.pending header hpending) rfl),
          by simp [Review.checkIndent, hpending, hleft]⟩
      · exact ⟨r, h, by simp [Review.checkIndent, hpending, hleft]⟩
  rw [heq]
  refine ⟨hnoted.scanner, hnoted.braces, fun header hheader => ?_, hnoted.issues⟩
  dsimp only [Review.checkIndent] at hheader
  split at hheader
  · cases hheader
    exact hline
  · cases hheader

theorem Sound.checkBrace {r : Review} (h : r.Sound lines) {line column : Nat} {c : Char}
    (hplace : ∀ fault : Fault, fault.columnIn = .kept → fault.mark? = some c →
      (⟨⟨line, column⟩, fault⟩ : Issue).Placed lines) :
    (checkBrace line r column c).Sound lines := by
  unfold Review.checkBrace
  split
  · next hopens =>
    refine ⟨h.scanner, fun p hp => ?_, h.pending, h.issues⟩
    rcases List.mem_cons.1 hp with rfl | hp
    · exact hplace .unclosedBrace rfl (congrArg some (eq_of_beq hopens).symm)
    · exact h.braces p hp
  · split
    · next hcloses =>
      split
      · exact h.note (hplace .unmatchedBrace rfl (congrArg some (eq_of_beq hcloses).symm))
      · next p rest hbraces =>
        exact ⟨h.scanner, fun q hq => h.braces q (hbraces ▸ List.mem_cons_of_mem _ hq), h.pending, h.issues⟩
    · exact h

theorem Sound.checkBraces {r : Review} (h : r.Sound lines) {line column : Nat} {cs : List Char}
    (hcs : ∀ j c, cs[j]? = some c → ∀ fault : Fault, fault.columnIn = .kept → fault.mark? = some c →
      (⟨⟨line, column + j⟩, fault⟩ : Issue).Placed lines) : (checkBraces line r column cs).Sound lines := by
  induction cs generalizing r column with
  | nil => exact h
  | cons c cs ih =>
    refine ih (h.checkBrace (hcs 0 c rfl)) fun j d hd => ?_
    rw [Nat.add_assoc, Nat.add_comm 1]
    exact hcs (j + 1) d hd

/-- A brace of the masked line stands at the same place in the line without its comments. -/
theorem placed_brace {s : Scanner} {raw : List Char} (hline : lines[s.line]? = some (s.read raw)) {j : Nat} {c : Char}
    (hc : (s.feed raw).1.masked[j]? = some c) {fault : Fault} (hcolumn : fault.columnIn = .kept)
    (hmark : fault.mark? = some c) : (⟨⟨(s.feed raw).1.number, 1 + j⟩, fault⟩ : Issue).Placed lines := by
  obtain ⟨last, hreading⟩ := s.reading_feed raw
  have hshown : c ≠ '_' := by
    rintro rfl
    cases fault <;> first | exact absurd hmark (by decide) | cases hcolumn
  refine Issue.placed_of_kept (Nesting.lineOf?_feed hline (1 + j)) hcolumn hmark ?_
  rw [Nat.add_comm]
  exact hreading.getElem?_kept hc hshown

theorem Sound.check {r : Review} (h : r.Sound lines) {s : Scanner} {raw : List Char}
    (hline : lines[s.line]? = some (s.read raw)) (hblank : Text.isBlank raw = false) :
    (r.check (s.feed raw).1).Sound lines := by
  have hindented : Place.Indented lines ⟨(s.feed raw).1.number, (s.feed raw).1.indent + 1⟩ :=
    ⟨s.read raw, Nesting.lineOf?_feed hline _, rfl, hblank⟩
  have hmixed : (if (s.feed raw).1.mixedIndent then r.note ⟨⟨(s.feed raw).1.number, 1⟩, .mixedIndentation⟩
      else r).Sound lines := by
    split
    · obtain ⟨c, hfirst⟩ := Nesting.shows_first hline hblank
      exact h.note (Issue.placed_of_shows hfirst rfl fun mark hmark => by cases hmark)
    · exact h
  unfold Review.check
  generalize (if (s.feed raw).1.mixedIndent then r.note ⟨⟨(s.feed raw).1.number, 1⟩, .mixedIndentation⟩ else r) = noted
    at hmixed ⊢
  have hlooked : (if noted.indented then noted.checkIndent (s.feed raw).1
      else Review.checkBraces (s.feed raw).1.number noted 1 (s.feed raw).1.masked).Sound lines := by
    split
    · exact hmixed.checkIndent hindented
    · exact hmixed.checkBraces fun j c hc fault => placed_brace hline hc
  dsimp only
  split
  · refine hlooked.note ?_
    exact Issue.placed_of_indented hindented rfl
  · exact hlooked

theorem Sound.feed {r : Review} (h : r.Sound lines) {raw : List Char}
    (hline : lines[r.scanner.line]? = some (r.scanner.read raw)) : (r.feed raw).Sound lines := by
  have hscanned : ({ r with scanner := (r.scanner.feed raw).2 } : Review).Sound lines :=
    ⟨h.scanner.feed hline, h.braces, h.pending, h.issues⟩
  unfold Review.feed
  dsimp only
  split
  · exact hscanned
  · next hlook =>
    rw [Bool.or_eq_true, not_or, Bool.not_eq_true, Bool.not_eq_true] at hlook
    exact hscanned.check hline (Text.isBlank_of_masked hlook.1 hlook.2)

theorem Sound.finish {r : Review} (h : r.Sound lines) : ∀ i ∈ r.finish, i.Placed lines := by
  intro i hi
  rw [Review.finish, Issue.sorted, List.mem_mergeSort] at hi
  simp only [List.mem_append] at hi
  rcases hi with ((hi | hi) | hi) | hi
  · exact h.issues i hi
  · obtain ⟨header, hpending, rfl⟩ := Option.map_eq_some_iff.1 (Option.mem_toList.1 hi)
    exact Issue.placed_of_indented (h.pending header hpending) rfl
  · obtain ⟨p, hp, rfl⟩ := List.mem_map.1 hi
    exact h.braces p (List.mem_reverse.1 hp)
  · exact h.scanner.finish i hi

end Review

/-! ## Texts -/

/-- The lines that a scanner has in front of it are lines of the text. -/
structure Scanner.Reads (lines : List ReadLine) (s : Scanner) (raws : List (List Char)) : Prop where
  exists_done : ∃ done, lines = done ++ s.readAll raws ∧ done.length = s.line

namespace Scanner.Reads

variable {lines : List ReadLine} {s : Scanner} {raw : List Char} {raws : List (List Char)}

theorem line (h : s.Reads lines (raw :: raws)) : lines[s.line]? = some (s.read raw) := by
  obtain ⟨done, rfl, hdone⟩ := h.exists_done
  rw [← hdone, List.getElem?_append_right (Nat.le_refl _), Nat.sub_self]
  rfl

theorem next (h : s.Reads lines (raw :: raws)) : (s.feed raw).2.Reads lines raws := by
  obtain ⟨done, rfl, hdone⟩ := h.exists_done
  refine ⟨done ++ [s.read raw], by simp [readAll], ?_⟩
  rw [s.feed_line raw, List.length_append, hdone]
  rfl

end Scanner.Reads

theorem reads_readText (style : CommentStyle) (text : List Char) :
    ({ style } : Scanner).Reads (readText style text) (Text.lines text) := ⟨[], rfl, rfl⟩

theorem sound_begin (style : CommentStyle) (lines : List ReadLine) : ({ style } : Scanner).Sound lines := by
  refine ⟨fun i hi => ?_, fun o ho => ?_, fun p hp => nomatch hp⟩
  · cases hi
  · cases ho

theorem Scanner.Sound.feedAll {lines : List ReadLine} {s : Scanner} (h : s.Sound lines) {raws : List (List Char)}
    (hreads : s.Reads lines raws) : (s.feedAll raws).2.Sound lines := by
  induction raws generalizing s with
  | nil => exact h
  | cons raw raws ih => exact ih (h.feed hreads.line) hreads.next

theorem Nesting.Sound.feedAll {lines : List ReadLine} {n : Nesting} (h : n.Sound lines) {s : Scanner}
    {raws : List (List Char)} (hreads : s.Reads lines raws) :
    (n.feedAll ((s.feedAll raws).1.zip raws)).Sound lines := by
  induction raws generalizing s n with
  | nil => exact h
  | cons raw raws ih => exact ih (h.feed hreads.line) hreads.next

theorem Review.Sound.foldl {lines : List ReadLine} {r : Review} (h : r.Sound lines) {raws : List (List Char)}
    (hreads : r.scanner.Reads lines raws) : (raws.foldl Review.feed r).Sound lines := by
  induction raws generalizing r with
  | nil => exact h
  | cons raw raws ih =>
    refine ih (h.feed hreads.line) ?_
    rw [(r.keeps_feed raw).scanner]
    exact hreads.next

namespace Issue

theorem placed_ofText (text : List Char) : ∀ i ∈ (Outline.ofText text).2, i.Placed (readText .pseudocode text) := by
  intro i hi
  have hreads := reads_readText .pseudocode text
  have hempty : ({} : Nesting).Sound (readText .pseudocode text) :=
    ⟨fun o ho => absurd ho List.not_mem_nil, fun i hi => by cases hi⟩
  unfold Outline.ofText at hi
  split at hi
  · cases hi
  · dsimp only at hi
    rw [sorted, List.mem_mergeSort, List.mem_append] at hi
    rcases hi with hi | hi
    · exact ((sound_begin .pseudocode _).feedAll hreads).finish i hi
    · exact ((hempty.feedAll hreads).popMany (Nesting.aboutHeader_leftOpen _) _).issues i hi

theorem placed_ofCode (language : Language) {code : List Char} (hcode : Text.isBlank code = false) :
    ∀ i ∈ Review.ofCode language code, i.Placed (readText (.ofMark language.commentMark) code) := by
  intro i hi
  have hreads := reads_readText (.ofMark language.commentMark) code
  have hempty : (Review.begin language).Sound (readText (.ofMark language.commentMark) code) :=
    ⟨sound_begin _ _, fun p hp => absurd hp List.not_mem_nil, fun header hheader => (by cases hheader),
      fun i hi => by cases hi⟩
  rw [Review.ofCode, hcode, if_neg Bool.false_ne_true] at hi
  exact (hempty.foldl hreads).finish i hi

/-- All issues of a text, and of code in any language, name a line of it and point into that as far as they can. -/
theorem placed_in_lines (text : List Char) (language : Language) {code : List Char}
    (hcode : Text.isBlank code = false) :
    (∀ i ∈ (Outline.ofText text).2, i.Placed (readText .pseudocode text)) ∧
      ∀ i ∈ Review.ofCode language code, i.Placed (readText (.ofMark language.commentMark) code) :=
  ⟨placed_ofText text, placed_ofCode language hcode⟩

/-- A bracket behind a comment, and a brace that is left open. -/
theorem placed_in_two_lines : Text.isBlank "f(); // (\nif (a) \x7b\n".toList = false ∧
    (∀ i ∈ (Outline.ofText "a = (b /* c */ ]\n".toList).2,
      i.Placed (readText .pseudocode "a = (b /* c */ ]\n".toList)) ∧
      ∀ i ∈ Review.ofCode .javascript "f(); // (\nif (a) \x7b\n".toList,
        i.Placed (readText (.ofMark Language.javascript.commentMark) "f(); // (\nif (a) \x7b\n".toList) :=
  ⟨by decide, placed_in_lines _ .javascript (by decide)⟩

/-- The header behind a tab is complained of in a column of its block, and the brace behind a comment in a column of the
comment. -/
theorem points_beside_tab_and_comment :
    (∃ i ∈ Review.ofCode .python "\tif x:\n".toList, i.place = ⟨1, 5⟩ ∧ i.fault = .expectedIndentedBlock 1 ∧
      i.pointsInto "\tif x:".toList = false) ∧
    (∃ i ∈ Review.ofCode .javascript "/* c */ \x7d\n".toList, i.place = ⟨1, 2⟩ ∧ i.fault = .unmatchedBrace ∧
      i.pointsInto "/* c */ \x7d".toList = false) ∧
    ∃ i ∈ (Outline.ofText "\tIF a THEN\n".toList).2, i.place = ⟨1, 5⟩ ∧ i.fault = .neverClosed .conditional 1 ∧
      i.pointsInto "\tIF a THEN".toList = false := by
  decide +kernel

end Issue

end Pseudoscribe
