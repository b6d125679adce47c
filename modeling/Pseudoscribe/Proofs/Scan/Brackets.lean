import Pseudoscribe.Proofs.Scan.Steps

/-!
# The brackets of a text

The brackets that a scan leaves in the masked lines are well nested exactly if it complains of none of them.  What
ties the scan to the text in front of it: as long as every closing bracket has fitted, the open brackets are those that
the text leaves open and no bracket was complained of; once one has not fitted there is a complaint for good, whatever
is taken away from the open brackets afterwards.
-/

namespace Pseudoscribe

namespace Bracket

/-! ## Well nested texts -/

/-- Well nested words of brackets: each opening bracket has its closing bracket behind a well nested word. -/
inductive Nested : List Char → Prop
  | nil : Nested []
  | pair (b : Bracket) {inside behind : List Char} :
    Nested inside → Nested behind → Nested (b.opener :: (inside ++ b.closer :: behind))

theorem Nested.append {xs ys : List Char} (hx : Nested xs) (hy : Nested ys) : Nested (xs ++ ys) := by
  induction hx with
  | nil => exact hy
  | pair b hinside _ _ ih =>
    rw [List.cons_append, List.append_assoc, List.cons_append]
    exact .pair b hinside ih

/-- The brackets that are open behind a character, innermost first; none if it closes another one than the
innermost. -/
def openBehind? (opened : List Bracket) (c : Char) : Option (List Bracket) :=
  match ofOpener? c with
  | some b => some (b :: opened)
  | none =>
    match ofCloser? c with
    | none => some opened
    | some b =>
      match opened with
      | [] => none
      | o :: outer => if o = b then some outer else none

/-- The brackets that are open behind a text, if every closing bracket in it fits. -/
def openAfter (opened : List Bracket) (cs : List Char) : Option (List Bracket) := cs.foldlM openBehind? opened

theorem openAfter_append (opened : List Bracket) (cs ds : List Char) :
    openAfter opened (cs ++ ds) = (openAfter opened cs).bind (openAfter · ds) := List.foldlM_append

theorem openAfter_cons (opened : List Bracket) (c : Char) (cs : List Char) :
    openAfter opened (c :: cs) = (openBehind? opened c).bind (openAfter · cs) := List.foldlM_cons

theorem ofOpener?_closer (b : Bracket) : ofOpener? b.closer = none := by cases b <;> rfl

theorem eq_opener {c : Char} {b : Bracket} (h : ofOpener? c = some b) : c = b.opener := by
  unfold ofOpener? at h
  split at h <;> cases h <;> rfl

theorem eq_closer {c : Char} {b : Bracket} (h : ofCloser? c = some b) : c = b.closer := by
  unfold ofCloser? at h
  split at h <;> cases h <;> rfl

theorem isMark_of_opener {c : Char} {b : Bracket} (h : ofOpener? c = some b) : isMark c = true := by
  rw [isMark, h, Option.isSome_some, Bool.true_or]

theorem isMark_of_closer {c : Char} {b : Bracket} (h : ofCloser? c = some b) : isMark c = true := by
  rw [isMark, h, Option.isSome_some, Bool.or_true]

theorem isMark_eq_false_iff {c : Char} : isMark c = false ↔ ofOpener? c = none ∧ ofCloser? c = none := by
  rw [isMark, Bool.or_eq_false_iff, Option.isSome_eq_false_iff, Option.isSome_eq_false_iff, Option.isNone_iff_eq_none,
    Option.isNone_iff_eq_none]

theorem ofText_cons_of_isMark {c : Char} {cs : List Char} (h : isMark c = true) : ofText (c :: cs) = c :: ofText cs :=
  List.filter_cons_of_pos h

theorem ofText_cons_of_not_isMark {c : Char} {cs : List Char} (h : isMark c = false) : ofText (c :: cs) = ofText cs :=
  List.filter_cons_of_neg (Bool.eq_false_iff.1 h)

/-- A well nested word leaves open what was open. -/
theorem Nested.openAfter_eq {xs : List Char} (h : Nested xs) (opened : List Bracket) :
    openAfter opened xs = some opened := by
  induction h generalizing opened with
  | nil => rfl
  | pair b _ _ ihinside ihbehind =>
    have hopens : openBehind? opened b.opener = some (b :: opened) := by rw [openBehind?, ofOpener?_opener]
    have hcloses : openBehind? (b :: opened) b.closer = some opened := by
      rw [openBehind?, ofOpener?_closer, ofCloser?_closer]
      exact if_pos rfl
    rw [openAfter_cons, hopens, Option.bind_some, openAfter_append, ihinside, Option.bind_some, openAfter_cons,
      hcloses, Option.bind_some, ihbehind]

/-- A word that closes all these brackets, innermost first, with well nested words in between. -/
inductive Unwinds : List Bracket → List Char → Prop
  | done {xs : List Char} : Nested xs → Unwinds [] xs
  | close {b : Bracket} {outer : List Bracket} {xs ys : List Char} :
    Nested xs → Unwinds outer ys → Unwinds (b :: outer) (xs ++ b.closer :: ys)

theorem Unwinds.append {opened : List Bracket} {xs ys : List Char} (hx : Nested xs) (hy : Unwinds opened ys) :
    Unwinds opened (xs ++ ys) := by
  cases hy with
  | done hy => exact .done (hx.append hy)
  | close hinside hrest =>
    rw [← List.append_assoc]
    exact .close (hx.append hinside) hrest

/-- A text behind which nothing is open closes all that was open. -/
theorem unwinds_of_openAfter {opened : List Bracket} {cs : List Char} (h : openAfter opened cs = some []) :
    Unwinds opened (ofText cs) := by
  induction cs generalizing opened with
  | nil =>
    cases h
    exact .done .nil
  | cons c cs ih =>
    rw [openAfter_cons] at h
    obtain ⟨next, hnext, hrest⟩ := Option.bind_eq_some_iff.1 h
    have hword := ih hrest
    unfold openBehind? at hnext
    cases hopens : ofOpener? c with
    | some b =>
      rw [hopens] at hnext
      cases hnext
      rw [ofText_cons_of_isMark (isMark_of_opener hopens), eq_opener hopens]
      generalize ofText cs = word at hword ⊢
      -- the word closes the new bracket first, and what is in front of its closer is nested
      cases hword with
      | @close _ _ xs ys hinside hrest =>
        have hpair := Unwinds.append (.pair b hinside .nil) hrest
        rwa [List.cons_append, List.append_assoc] at hpair
    | none =>
      rw [hopens] at hnext
      cases hcloses : ofCloser? c with
      | none =>
        rw [hcloses] at hnext
        cases hnext
        rwa [ofText_cons_of_not_isMark (isMark_eq_false_iff.2 ⟨hopens, hcloses⟩)]
      | some b =>
        rw [hcloses] at hnext
        rw [ofText_cons_of_isMark (isMark_of_closer hcloses), eq_closer hcloses]
        cases opened with
        | nil => cases hnext
        | cons o outer =>
          dsimp only at hnext
          split at hnext
          · next hfits =>
            cases hnext
            rw [hfits]
            exact .close .nil hword
          · cases hnext

theorem openAfter_ofText (opened : List Bracket) (cs : List Char) :
    openAfter opened (ofText cs) = openAfter opened cs := by
  induction cs generalizing opened with
  | nil => rfl
  | cons c cs ih =>
    cases hmark : isMark c with
    | true =>
      rw [ofText_cons_of_isMark hmark, openAfter_cons, openAfter_cons]
      cases openBehind? opened c with
      | none => rfl
      | some next => exact ih next
    | false =>
      obtain ⟨hopens, hcloses⟩ := isMark_eq_false_iff.1 hmark
      have hneither : openBehind? opened c = some opened := by rw [openBehind?, hopens, hcloses]
      rw [ofText_cons_of_not_isMark hmark, openAfter_cons, hneither]
      exact ih opened

/-- The brackets of a text are well nested exactly if each closing one fits and none is left open. -/
theorem openAfter_eq_nil_iff {cs : List Char} : openAfter [] cs = some [] ↔ Nested (ofText cs) := by
  constructor
  · intro h
    cases unwinds_of_openAfter h with
    | done hnested => exact hnested
  · intro h
    rw [← openAfter_ofText]
    exact h.openAfter_eq []

end Bracket

namespace Scanner

open Pseudoscribe.Bracket

/-! ## What a scan leaves open -/

/-- The open brackets, innermost first. -/
def opened (s : Scanner) : List Bracket := s.brackets.map OpenBracket.bracket

/-- How many brackets were complained of. -/
def misfits (s : Scanner) : Nat := s.issues.toList.countP (·.fault.isBracket)

/-- Between two scanners this text was read: as long as its brackets fit, those are open that it leaves open and no
bracket is complained of, and otherwise one is. -/
structure Matches (s : Scanner) (masked : List Char) (t : Scanner) : Prop where
  fits : ∀ opened, openAfter s.opened masked = some opened → t.opened = opened ∧ t.misfits = s.misfits
  misfits : openAfter s.opened masked = none → s.misfits < t.misfits

theorem Matches.misfits_le {s t : Scanner} {masked : List Char} (h : Matches s masked t) : s.misfits ≤ t.misfits := by
  cases hopen : openAfter s.opened masked with
  | none => exact Nat.le_of_lt (h.misfits hopen)
  | some opened => exact Nat.le_of_eq (h.fits opened hopen).2.symm

theorem Matches.trans {s t u : Scanner} {masked masked' : List Char} (hst : Matches s masked t)
    (htu : Matches t masked' u) : Matches s (masked ++ masked') u := by
  constructor
  · intro opened hopened
    rw [openAfter_append] at hopened
    obtain ⟨between, hbetween, hrest⟩ := Option.bind_eq_some_iff.1 hopened
    obtain ⟨rfl, hsame⟩ := hst.fits between hbetween
    obtain ⟨hopen, hsame'⟩ := htu.fits opened hrest
    exact ⟨hopen, hsame'.trans hsame⟩
  · intro hnone
    rw [openAfter_append] at hnone
    cases hbetween : openAfter s.opened masked with
    | none => exact Nat.lt_of_lt_of_le (hst.misfits hbetween) htu.misfits_le
    | some between =>
      obtain ⟨rfl, hsame⟩ := hst.fits between hbetween
      rw [hbetween] at hnone
      rw [← hsame]
      exact htu.misfits hnone

/-- Without brackets in the text nothing happens to the open ones. -/
theorem matches_of_ofText_eq_nil {s t : Scanner} {masked : List Char} (hmasked : ofText masked = [])
    (hopened : t.opened = s.opened) (hmisfits : t.misfits = s.misfits) : Matches s masked t := by
  have hafter : openAfter s.opened masked = some s.opened := by rw [← openAfter_ofText, hmasked]; rfl
  constructor
  · intro opened h
    rw [hafter] at h
    cases h
    exact ⟨hopened, hmisfits⟩
  · intro h
    rw [hafter] at h
    cases h

theorem misfits_note (s : Scanner) (issue : Option Issue) :
    (s.note issue).misfits = s.misfits + (issue.toList.countP (·.fault.isBracket)) := by
  cases issue with
  | none => rfl
  | some i =>
    show (s.issues.push i).toList.countP _ = _
    rw [Array.toList_push, List.countP_append]
    rfl

theorem opened_note (s : Scanner) (issue : Option Issue) : (s.note issue).opened = s.opened := by cases issue <;> rfl

/-- A character is matched against the open brackets just as the brackets of a text are. -/
theorem matchBracket_eq (brackets : List OpenBracket) (place : Place) (c : Char) :
    match openBehind? (brackets.map OpenBracket.bracket) c with
    | some opened => (matchBracket brackets place c).1.map OpenBracket.bracket = opened ∧
        (matchBracket brackets place c).2 = none
    | none => (matchBracket brackets place c).2 ≠ none := by
  unfold openBehind? matchBracket
  cases ofOpener? c with
  | some b => exact ⟨rfl, rfl⟩
  | none =>
    cases ofCloser? c with
    | none => exact ⟨rfl, rfl⟩
    | some b =>
      cases brackets with
      | nil => exact Option.some_ne_none _
      | cons o outer =>
        by_cases hfits : o.bracket = b
        · simp only [List.map_cons, if_pos hfits]
          exact ⟨trivial, trivial⟩
        · simp only [List.map_cons, if_neg hfits]
          exact Option.some_ne_none _

theorem matches_character (s : Scanner) (place : Place) (c : Char) :
    Matches s [c] ({ s with brackets := (matchBracket s.brackets place c).1 }.note
      (matchBracket s.brackets place c).2) := by
  have hmatch := matchBracket_eq s.brackets place c
  have hbehind : openAfter s.opened [c] = openBehind? s.opened c := by
    rw [openAfter_cons]
    exact Option.bind_fun_some _
  constructor
  · intro opened hopened
    rw [hbehind, Scanner.opened] at hopened
    rw [hopened] at hmatch
    rw [opened_note, misfits_note, hmatch.2]
    exact ⟨hmatch.1, rfl⟩
  · intro hnone
    rw [hbehind, Scanner.opened] at hnone
    rw [hnone] at hmatch
    obtain ⟨i, hi⟩ := Option.ne_none_iff_exists'.1 hmatch
    have hbracket : i.fault.isBracket = true := isBracket_matchBracket hi
    rw [misfits_note, hi, Option.toList_some, List.countP_singleton, if_pos hbracket]
    exact Nat.lt_succ_self _

theorem carried_matches : Carried Matches where
  refl s := matches_of_ofText_eq_nil rfl rfl rfl
  trans := Matches.trans
  step {s next prev column c rest extra mask} hstep := by
    rcases step_cases hstep with ⟨m, rfl, hmask⟩ | ⟨rfl, rfl⟩
    · exact matches_of_ofText_eq_nil hmask rfl rfl
    · exact matches_character s ⟨s.line, column⟩ c
  beginLine s := matches_of_ofText_eq_nil rfl rfl rfl
  endLine s := by
    unfold endLine
    split
    · split
      · exact matches_of_ofText_eq_nil rfl rfl rfl
      · exact matches_of_ofText_eq_nil rfl (opened_note _ _) (misfits_note _ _)
    · exact matches_of_ofText_eq_nil rfl rfl rfl

/-! ## What a scan complains of -/

theorem misfits_eq_zero_iff {s : Scanner} :
    s.misfits = 0 ↔ ∀ i ∈ s.issues.toList, i.fault.isBracket = false := by
  rw [misfits, List.countP_eq_zero]
  simp only [Bool.not_eq_true]

theorem endIssues_isBracket_iff {s : Scanner} :
    (∀ i ∈ s.endIssues, i.fault.isBracket = false) ↔ s.opened = [] := by
  have hopen : (∀ i ∈ s.brackets.reverse.map fun o => (⟨o.place, .unclosedBracket o.bracket⟩ : Issue),
      i.fault.isBracket = false) ↔ s.opened = [] := by
    rw [opened, List.map_eq_nil_iff]
    cases s.brackets with
    | nil => simp
    | cons o outer => simp [Fault.isBracket]
  rw [endIssues, List.forall_mem_append, hopen, and_iff_right]
  intro i hi
  cases hmode : s.mode with
  | code =>
    rw [hmode] at hi
    cases hi
  | literal | comment =>
    rw [hmode] at hi
    rw [List.mem_singleton.1 hi]
    rfl

/-- A scan that ends here complains of no bracket exactly if all closing ones fitted and none is open. -/
theorem finish_isBracket_iff {s : Scanner} :
    (∀ i ∈ s.finish, i.fault.isBracket = false) ↔ s.misfits = 0 ∧ s.opened = [] := by
  rw [finish, List.forall_mem_append, misfits_eq_zero_iff, endIssues_isBracket_iff]

/-- The masked text of lines that are scanned one after the other is well nested exactly if the scan complains of no
bracket. -/
theorem feedAll_isBracket_iff {s : Scanner} (hmisfits : s.misfits = 0) (hopened : s.opened = [])
    (raws : List (List Char)) :
    (∀ i ∈ (s.feedAll raws).2.finish, i.fault.isBracket = false) ↔
      Nested (ofText ((s.feedAll raws).1.flatMap ScannedLine.masked)) := by
  have hmatches := carried_matches.feedAll s raws
  rw [finish_isBracket_iff, ← openAfter_eq_nil_iff, ← hopened]
  constructor
  · rintro ⟨hnone, hclosed⟩
    cases hopen : openAfter s.opened ((s.feedAll raws).1.flatMap ScannedLine.masked) with
    | none =>
      have hlt := hmatches.misfits hopen
      omega
    | some opened => rw [← (hmatches.fits opened hopen).1, hclosed]
  · intro hopen
    obtain ⟨hclosed, hsame⟩ := hmatches.fits _ hopen
    exact ⟨hsame.trans hmisfits, hclosed⟩

end Scanner

/-- Of no bracket is complained exactly if the brackets of the masked lines are well nested over the whole text, and
at the end of a line up to which they are no bracket is open. -/
theorem brackets_well_nested_iff (style : CommentStyle) (text : List Char) :
    ((∀ i ∈ (scan style text).2, i.fault.isBracket = false) ↔
      Bracket.Nested (Bracket.ofText ((scan style text).1.flatMap ScannedLine.masked))) ∧
    ∀ before l behind, (scan style text).1 = before ++ l :: behind →
      Bracket.Nested (Bracket.ofText ((before ++ [l]).flatMap ScannedLine.masked)) → l.openBrackets = 0 := by
  refine ⟨Scanner.feedAll_isBracket_iff rfl rfl (Text.lines text), fun before l behind hlines hnested => ?_⟩
  have hfirst : (({ style } : Scanner).feedAll ((Text.lines text).take (before.length + 1))).1 = before ++ [l] := by
    have hall : (({ style } : Scanner).feedAll (Text.lines text)).1 = before ++ l :: behind := hlines
    rw [Scanner.feedAll_take, hall, List.take_length_add_append]
    rfl
  have hmatches := Scanner.carried_matches.feedAll { style } ((Text.lines text).take (before.length + 1))
  rw [hfirst] at hmatches
  obtain ⟨hopened, -⟩ := hmatches.fits [] (Bracket.openAfter_eq_nil_iff.2 hnested)
  obtain ⟨t, raw, hl, hlast⟩ := Scanner.exists_feed_of_getLast (hfirst ▸ List.getLast?_concat)
  rw [hlast, Scanner.opened, List.map_eq_nil_iff] at hopened
  rw [hl]
  exact congrArg List.length hopened

/-- The brackets of the first two lines are well nested, although the third has one that does not fit. -/
theorem brackets_well_nested_of_two_lines : ∃ before l behind,
    (scan .pseudocode "f(a[1],\n  \"]\")\ng(b]\n".toList).1 = before ++ l :: behind ∧
      Bracket.Nested (Bracket.ofText ((before ++ [l]).flatMap ScannedLine.masked)) ∧ l.openBrackets = 0 ∧
      behind.map ScannedLine.masked = ["g(b]".toList] := by
  have hlines : (scan .pseudocode "f(a[1],\n  \"]\")\ng(b]\n".toList).1 =
      [⟨1, "f(a[1],".toList, 0, false, false, 1, false⟩] ++ ⟨2, "  \"_\")".toList, 2, false, false, 0, false⟩ ::
        [⟨3, "g(b]".toList, 0, false, false, 0, false⟩] := by
    decide +kernel
  have hnested : Bracket.Nested (Bracket.ofText "f(a[1],  \"_\")".toList) :=
    Bracket.openAfter_eq_nil_iff.1 (by decide)
  exact ⟨_, _, _, hlines, hnested, (brackets_well_nested_iff _ _).2 _ _ _ hlines hnested, rfl⟩

end Pseudoscribe
