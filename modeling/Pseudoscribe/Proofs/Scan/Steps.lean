import Pseudoscribe.Scan.Scanner

/-!
# What a step of a scan can do

At a character a scanner either changes no more than the mode it is in, and then no bracket goes into the masked
text, or it puts the character itself there and matches it against the open brackets.  What such steps, the
beginning of a line and its end carry along is carried along by whole lines and texts.  In this way all that a
scanner ever complains of is brackets, literals and comments.
-/

namespace Pseudoscribe

namespace Fault

/-- A complaint about brackets. -/
def isBracket : Fault → Bool
  | mismatchedCloser _ _ _ | unmatchedCloser _ | unclosedBracket _ => true
  | _ => false

/-- A complaint about brackets, literals or comments. -/
def isLexical (f : Fault) : Bool :=
  f.isBracket || f ∈ [unterminatedString, unterminatedLongString, unterminatedComment]

theorem isLexical_of_isBracket {f : Fault} (h : f.isBracket = true) : f.isLexical = true :=
  Bool.or_eq_true_iff.2 (.inl h)

end Fault

namespace Bracket

/-- One of the four brackets. -/
def isMark (c : Char) : Bool := (ofOpener? c).isSome || (ofCloser? c).isSome

/-- The brackets of a text. -/
def ofText (cs : List Char) : List Char := cs.filter isMark

theorem ofText_mark (q : Quote) : ofText q.mark = [] := by cases q <;> decide

end Bracket

namespace Scanner

/-- The two things that a step can do. -/
theorem step_cases {s next : Scanner} {prev : Option Char} {column : Nat} {c : Char} {rest mask : List Char}
    {extra : Nat} (h : s.step prev column c rest = .pass extra mask next) :
    (∃ m, next = { s with mode := m } ∧ Bracket.ofText mask = []) ∨
      (mask = [c] ∧ next = { s with brackets := (matchBracket s.brackets ⟨s.line, column⟩ c).1 }.note
        (matchBracket s.brackets ⟨s.line, column⟩ c).2) := by
  have hsame : s = { s with mode := s.mode } := rfl
  unfold step at h
  dsimp only at h
  split at h
  · split at h
    · cases h
      exact .inl ⟨_, hsame, rfl⟩
    · split at h
      · cases h
        exact .inl ⟨.code, rfl, Bracket.ofText_mark _⟩
      · cases h
        exact .inl ⟨_, hsame, rfl⟩
  · split at h
    · cases h
      exact .inl ⟨.code, rfl, rfl⟩
    · cases h
      exact .inl ⟨_, hsame, rfl⟩
  · split at h
    · cases h
    · split at h
      · cases h
        exact .inl ⟨_, rfl, rfl⟩
      · split at h
        · cases h
          exact .inl ⟨_, rfl, Bracket.ofText_mark _⟩
        · cases h
          exact .inr ⟨rfl, rfl⟩

/-! ## From steps to texts -/

/-- A relation between two scanners and the masked text that is read in between, which every step of a scan keeps. -/
structure Carried (R : Scanner → List Char → Scanner → Prop) : Prop where
  refl : ∀ s, R s [] s
  trans : ∀ {s t u masked masked'}, R s masked t → R t masked' u → R s (masked ++ masked') u
  step : ∀ {s next prev column c rest extra mask}, s.step prev column c rest = .pass extra mask next → R s mask next
  beginLine : ∀ s, R s [] { s with line := s.line + 1 }
  endLine : ∀ s, R s [] s.endLine

namespace Carried

variable {R : Scanner → List Char → Scanner → Prop}

theorem consume (h : Carried R) (s : Scanner) (skip : Nat) (prev : Option Char) (column : Nat) (cs : List Char) :
    R s (s.consume skip prev column cs).1 (s.consume skip prev column cs).2 := by
  induction cs generalizing s skip prev column with
  | nil => exact h.refl s
  | cons c rest ih =>
    cases skip with
    | succ k => exact ih s k (some c) (column + 1)
    | zero =>
      rw [Scanner.consume]
      cases hstep : s.step prev column c rest with
      | stop => exact h.refl s
      | pass extra mask next => exact h.trans (h.step hstep) (ih next extra (some c) (column + 1))

theorem feed (h : Carried R) (s : Scanner) (raw : List Char) : R s (s.feed raw).1.masked (s.feed raw).2 := by
  have hline := h.consume { s with line := s.line + 1 } 0 none 1 (Text.dropLineEnds raw)
  have hbegun := h.trans (h.beginLine s) hline
  have hended := h.trans hbegun (h.endLine _)
  rwa [List.nil_append, List.append_nil] at hended

theorem feedAll (h : Carried R) (s : Scanner) (raws : List (List Char)) :
    R s ((s.feedAll raws).1.flatMap ScannedLine.masked) (s.feedAll raws).2 := by
  induction raws generalizing s with
  | nil => exact h.refl s
  | cons raw raws ih => exact h.trans (h.feed s raw) (ih (s.feed raw).2)

end Carried

/-! ## Lines one after the other -/

theorem feedAll_append (s : Scanner) (xs ys : List (List Char)) :
    s.feedAll (xs ++ ys) =
      ((s.feedAll xs).1 ++ ((s.feedAll xs).2.feedAll ys).1, ((s.feedAll xs).2.feedAll ys).2) := by
  induction xs generalizing s with
  | nil => rfl
  | cons x xs ih => simp only [List.cons_append, feedAll, ih]

theorem feedAll_take (s : Scanner) (raws : List (List Char)) (k : Nat) :
    (s.feedAll (raws.take k)).1 = (s.feedAll raws).1.take k := by
  induction raws generalizing s k with
  | nil => simp [feedAll]
  | cons raw raws ih =>
    cases k with
    | zero => rfl
    | succ k => exact congrArg ((s.feed raw).1 :: ·) (ih (s.feed raw).2 k)

/-- The last of the scanned lines is what the scanner was fed with last. -/
theorem exists_feed_of_getLast {s : Scanner} {raws : List (List Char)} {l : ScannedLine}
    (h : (s.feedAll raws).1.getLast? = some l) : ∃ (t : Scanner) (raw : List Char),
      l = (t.feed raw).1 ∧ (s.feedAll raws).2 = (t.feed raw).2 := by
  rcases List.eq_nil_or_concat raws with rfl | ⟨front, raw, rfl⟩
  · cases h
  · rw [List.concat_eq_append, feedAll_append] at h ⊢
    have hlast := List.getLast?_concat.symm.trans h
    exact ⟨(s.feedAll front).2, raw, (Option.some.inj hlast).symm, rfl⟩

/-! ## What a scanner complains of -/

/-- The scanner has complained of brackets, literals and comments only. -/
def Lexical (s : Scanner) : Prop := ∀ i ∈ s.issues.toList, i.fault.isLexical = true

theorem Lexical.note {s : Scanner} (h : s.Lexical) {issue : Option Issue}
    (hissue : ∀ i ∈ issue, i.fault.isLexical = true) : (s.note issue).Lexical := by
  cases issue with
  | none => exact h
  | some i =>
    intro j hj
    have hpush : j ∈ s.issues.toList ++ [i] := by rwa [← Array.toList_push]
    rcases List.mem_append.1 hpush with hj | hj
    · exact h j hj
    · rw [List.mem_singleton.1 hj]
      exact hissue i rfl

theorem isBracket_matchBracket {brackets : List OpenBracket} {place : Place} {c : Char} {i : Issue}
    (h : i ∈ (matchBracket brackets place c).2) : i.fault.isBracket = true := by
  unfold matchBracket at h
  split at h
  · cases h
  · split at h
    · cases h
    · split at h
      · cases h
        rfl
      · split at h <;> cases h
        rfl

theorem carried_lexical : Carried fun s _ t => s.Lexical → t.Lexical where
  refl _ h := h
  trans hst htu h := htu (hst h)
  step hstep h := by
    rcases step_cases hstep with ⟨m, rfl, -⟩ | ⟨-, rfl⟩
    · exact h
    · refine Lexical.note ?_ fun i hi => Fault.isLexical_of_isBracket (isBracket_matchBracket hi)
      exact h
  beginLine _ h := h
  endLine s h := by
    unfold endLine
    split
    · split
      · exact h
      · refine Lexical.note ?_ fun i hi => by cases hi; rfl
        exact h
    · exact h

theorem Lexical.finish {s : Scanner} (h : s.Lexical) : ∀ i ∈ s.finish, i.fault.isLexical = true := by
  intro i hi
  rcases List.mem_append.1 hi with hi | hi
  · exact h i hi
  · rcases List.mem_append.1 hi with hi | hi
    · cases hmode : s.mode with
      | code =>
        rw [hmode] at hi
        cases hi
      | literal | comment =>
        rw [hmode] at hi
        rw [List.mem_singleton.1 hi]
        rfl
    · obtain ⟨o, -, rfl⟩ := List.mem_map.1 hi
      rfl

theorem isLexical_of_mem_finish {style : CommentStyle} {raws : List (List Char)} {i : Issue}
    (h : i ∈ (({ style } : Scanner).feedAll raws).2.finish) : i.fault.isLexical = true := by
  have hbegin : ({ style } : Scanner).Lexical := fun i hi => by cases hi
  exact (carried_lexical.feedAll { style } raws hbegin).finish i h

end Scanner

theorem isLexical_of_mem_scan {style : CommentStyle} {text : List Char} {i : Issue} (h : i ∈ (scan style text).2) :
    i.fault.isLexical = true := Scanner.isLexical_of_mem_finish h

end Pseudoscribe
