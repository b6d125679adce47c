import Mathlib.Data.List.TakeWhile
import Pseudoscribe.Proofs.Code.FrameStep
import Pseudoscribe.Proofs.Scan.Alike
import Pseudoscribe.Proofs.Text.Pieces

/-!
# The literals of a line

Where the scanner stands in code and comes to a quotation mark, a literal begins; its body goes up to the closing mark,
or to the end of the line.  The masked text has as many characters for a literal as the line.  So as long as no comment
was left out in front of it, the emitter takes the literal along with the code of the line.
-/

namespace Pseudoscribe

namespace Text

/-- The text begins and ends with something else than a blank. -/
structure Visible (text : List Char) : Prop where
  head : ∃ c cs, text = c :: cs ∧ isSpace c = false
  last : ∃ cs c, text = cs ++ [c] ∧ isSpace c = false

theorem Visible.append {xs ys : List Char} (hx : Visible xs) (hy : Visible ys) (cs : List Char) :
    Visible (xs ++ (cs ++ ys)) := by
  obtain ⟨c, ds, rfl, hc⟩ := hx.head
  obtain ⟨es, e, rfl, he⟩ := hy.last
  exact ⟨⟨c, _, rfl, hc⟩, ⟨c :: (ds ++ (cs ++ es)), e, by simp, he⟩⟩

theorem dropWhile_append_cons {p : Char → Bool} (before : List Char) {c : Char} (hc : p c = false) (cs : List Char) :
    (before ++ c :: cs).dropWhile p = before.dropWhile p ++ c :: cs := by
  induction before with
  | nil => exact List.dropWhile_cons_of_neg (by simp [hc])
  | cons b before ih =>
    cases hb : p b with
    | true =>
      rw [List.cons_append, List.dropWhile_cons_of_pos hb, List.dropWhile_cons_of_pos hb]
      exact ih
    | false =>
      rw [List.cons_append, List.dropWhile_cons_of_neg (by simp [hb]), List.dropWhile_cons_of_neg (by simp [hb]),
        List.cons_append]

/-- A text that begins and ends visibly is kept when what it stands in is trimmed. -/
theorem trim_around (before : List Char) {text : List Char} (h : Visible text) (behind : List Char) :
    trim (before ++ (text ++ behind)) = trimStart before ++ (text ++ trimEnd behind) := by
  obtain ⟨c, cs, hhead, hc⟩ := h.head
  obtain ⟨ds, d, hlast, hd⟩ := h.last
  have hstart : trimStart (before ++ (text ++ behind)) = trimStart before ++ (text ++ behind) := by
    rw [hhead]
    exact dropWhile_append_cons before hc _
  rw [trim, hstart, hlast, List.append_assoc, ← List.append_assoc]
  show dropEndWhile isSpace (trimStart before ++ ds ++ d :: behind) = _
  rw [dropEndWhile_append_cons hd]
  simp [trimEnd]

theorem exists_dropEndWhile (p : Char → Bool) (cs : List Char) :
    ∃ ends, cs = dropEndWhile p cs ++ ends ∧ ∀ c ∈ ends, p c = true := by
  refine ⟨(cs.reverse.takeWhile p).reverse, ?_, fun c hc => List.mem_takeWhile_imp (List.mem_reverse.1 hc)⟩
  rw [dropEndWhile, ← List.reverse_append, List.takeWhile_append_dropWhile, List.reverse_reverse]

end Text

theorem Quote.visible_mark (q : Quote) : Text.Visible q.mark := by
  cases q
  case double | single | backtick => exact ⟨⟨_, [], rfl, by decide⟩, ⟨[], _, rfl, by decide⟩⟩
  case tripleDouble | tripleSingle => exact ⟨⟨_, [_, _], rfl, by decide⟩, ⟨[_, _], _, rfl, by decide⟩⟩

/-- The body of a literal, given what stands behind its opening mark, and what stands behind its closing mark if the
line has one. -/
def Quote.bodyOf (q : Quote) : List Char → List Char × Option (List Char)
  | [] => ([], none)
  | '\\' :: c :: cs =>
    if q.spansLines then ('\\' :: (q.bodyOf (c :: cs)).1, (q.bodyOf (c :: cs)).2)
    else ('\\' :: c :: (q.bodyOf cs).1, (q.bodyOf cs).2)
  | c :: cs =>
    if q.mark.isPrefixOf (c :: cs) then ([], some ((c :: cs).drop q.mark.length))
    else (c :: (q.bodyOf cs).1, (q.bodyOf cs).2)

/-- A literal of a line, with what stands in front of it and, if it is closed there, behind it. -/
structure LineLiteral where
  before : List Char
  quote : Quote
  body : List Char
  behind : Option (List Char)

namespace LineLiteral

/-- The literal is closed in its line. -/
def closed (l : LineLiteral) : Bool := l.behind.isSome

/-- What stands behind the opening mark. -/
def inside (l : LineLiteral) : List Char :=
  match l.behind with
  | some behind => l.body ++ (l.quote.mark ++ behind)
  | none => l.body

/-- The literal with its marks. -/
def text (l : LineLiteral) : List Char :=
  l.quote.mark ++ (l.body ++ if l.closed then l.quote.mark else [])

/-- The line. -/
def line (l : LineLiteral) : List Char := l.before ++ (l.quote.mark ++ l.inside)

theorem line_eq (l : LineLiteral) : l.line = l.before ++ (l.text ++ l.behind.getD []) := by
  unfold line inside text closed
  cases l.behind <;> simp

end LineLiteral

namespace Scanner

/-- Go over a text that `rest` stands behind: its masked text and the scanner at its end, if the scanner stops there. -/
def over? (s : Scanner) (skip : Nat) (prev : Option Char) (column : Nat) (rest : List Char) :
    List Char → Option (List Char × Scanner)
  | [] => if skip = 0 then some ([], s) else none
  | c :: cs =>
    match skip with
    | k + 1 => over? s k (some c) (column + 1) rest cs
    | 0 =>
      match s.step prev column c (cs ++ rest) with
      | .stop => none
      | .pass extra mask next => (over? next extra (some c) (column + 1) rest cs).map fun r => (mask ++ r.1, r.2)

/-- The scanner reads the literal in its line: it comes to it in code, the mark opens it, and the body goes as far as it
says.  `masked` is the masked text in front of it. -/
structure ReadsLiteral (s : Scanner) (l : LineLiteral) (masked : List Char) : Prop where
  reached : ∃ next : Scanner, s.over? 0 none 1 (l.quote.mark ++ l.inside) l.before = some (masked, next) ∧
    next.mode = .code ∧ ∀ c cs, l.quote.mark ++ l.inside = c :: cs →
      ∃ opened, next.step l.before.getLast? (l.before.length + 1) c cs =
        .pass (l.quote.mark.length - 1) l.quote.mark { next with mode := .literal l.quote opened }
  body : l.quote.bodyOf l.inside = (l.body, l.behind)

theorem consume_over {s next : Scanner} {skip : Nat} {prev : Option Char} {column : Nat} {rest cs masked : List Char}
    (h : s.over? skip prev column rest cs = some (masked, next)) :
    s.consume skip prev column (cs ++ rest) =
      (masked ++ (next.consume 0 (cs.getLast?.or prev) (column + cs.length) rest).1,
        (next.consume 0 (cs.getLast?.or prev) (column + cs.length) rest).2) := by
  induction cs generalizing s skip prev column masked with
  | nil =>
    unfold over? at h
    split at h
    · next hskip =>
      cases h
      subst hskip
      rfl
    · cases h
  | cons c cs ih =>
    have hlast : (c :: cs).getLast?.or prev = cs.getLast?.or (some c) := by
      cases cs with
      | nil => rfl
      | cons d ds =>
        rw [List.getLast?_cons_cons]
        cases hl : (d :: ds).getLast? with
        | none => simp at hl
        | some e => rfl
    have hcolumn : column + (c :: cs).length = column + 1 + cs.length := by
      rw [List.length_cons]
      omega
    rw [hlast, hcolumn]
    cases skip with
    | succ k => exact ih h
    | zero =>
      unfold over? at h
      rw [List.cons_append, consume]
      cases hstep : s.step prev column c (cs ++ rest) with
      | stop =>
        rw [hstep] at h
        cases h
      | pass extra mask next' =>
        rw [hstep] at h
        obtain ⟨r, hr, heq⟩ := Option.map_eq_some_iff.1 h
        cases heq
        dsimp only
        rw [ih hr, List.append_assoc]

theorem consume_skip (s : Scanner) (prev : Option Char) (column : Nat) (xs ys : List Char) :
    ∃ prev', s.consume xs.length prev column (xs ++ ys) = s.consume 0 prev' (column + xs.length) ys := by
  induction xs generalizing prev column with
  | nil => exact ⟨prev, rfl⟩
  | cons x xs ih =>
    obtain ⟨prev', heq⟩ := ih (some x) (column + 1)
    refine ⟨prev', ?_⟩
    rw [List.length_cons, List.cons_append, consume, heq, Nat.add_assoc, Nat.add_comm 1]

/-- What the masked text has for the body of a literal and its closing mark. -/
def MasksBody (q : Quote) (masked : List Char) (read : List Char × Option (List Char)) : Prop :=
  match read.2 with
  | some _ => ∃ more, masked = List.replicate read.1.length '_' ++ (q.mark ++ more)
  | none => q.spansLines = true → masked = List.replicate read.1.length '_'

theorem MasksBody.cons {q : Quote} {masked : List Char} {read : List Char × Option (List Char)} (h : MasksBody q masked read)
    (cs : List Char) : MasksBody q (List.replicate cs.length '_' ++ masked) (cs ++ read.1, read.2) := by
  unfold MasksBody at h ⊢
  dsimp only
  cases hread : read.2 with
  | some behind =>
    rw [hread] at h
    obtain ⟨more, rfl⟩ := h
    exact ⟨more, by rw [List.length_append, ← List.append_assoc, List.replicate_append_replicate]⟩
  | none =>
    rw [hread] at h
    intro hspans
    rw [h hspans, List.length_append, List.replicate_append_replicate]

/-- What is done at a character within a literal. -/
theorem step_literal {s : Scanner} {q : Quote} {opened : Place} (hmode : s.mode = .literal q opened)
    (prev : Option Char) (column : Nat) (c : Char) (rest : List Char) :
    s.step prev column c rest =
      if c == '\\' && !q.spansLines then .pass 1 ['_', '_'] s
      else if q.mark.isPrefixOf (c :: rest) then .pass (q.mark.length - 1) q.mark { s with mode := .code }
      else .pass 0 ['_'] s := by
  unfold step
  rw [hmode]

theorem isPrefixOf_mark_backslash (q : Quote) (cs : List Char) : q.mark.isPrefixOf ('\\' :: cs) = false := by
  cases q <;> rfl

theorem masked_consume_body {s : Scanner} {q : Quote} {opened : Place} (hmode : s.mode = .literal q opened)
    (prev : Option Char) (column : Nat) (cs : List Char) :
    MasksBody q (s.consume 0 prev column cs).1 (q.bodyOf cs) := by
  induction cs using Quote.bodyOf.induct q generalizing prev column with
  | case1 => exact fun _ => rfl
  | case2 c cs hspans ih =>
    have hstep : s.step prev column '\\' (c :: cs) = .pass 0 ['_'] s := by
      rw [step_literal hmode, hspans, isPrefixOf_mark_backslash]
      rfl
    rw [Quote.bodyOf, if_pos hspans, consume, hstep]
    exact (ih _ _).cons ['\\']
  | case3 c cs hspans ih =>
    have hstep : s.step prev column '\\' (c :: cs) = .pass 1 ['_', '_'] s := by
      rw [step_literal hmode, if_pos (by simp [hspans])]
    rw [Quote.bodyOf, if_neg hspans, consume, hstep]
    exact (ih _ _).cons ['\\', c]
  | case4 c cs hescape hprefix =>
    have hback : c ≠ '\\' := by
      rintro rfl
      rw [isPrefixOf_mark_backslash] at hprefix
      cases hprefix
    have hstep : s.step prev column c cs = .pass (q.mark.length - 1) q.mark { s with mode := .code } := by
      rw [step_literal hmode, if_neg (by simp [hback]), if_pos hprefix]
    rw [Quote.bodyOf, if_pos hprefix, consume, hstep]
    · exact ⟨_, rfl⟩
    · exact hescape
  | case5 c cs hescape hprefix ih =>
    by_cases hback : c = '\\'
    · -- a backslash at the end of the line
      subst hback
      cases cs with
      | cons d ds => exact (hescape d ds rfl rfl).elim
      | nil =>
        have hread : q.bodyOf ['\\'] = (['\\'], none) := by cases q <;> rfl
        rw [hread]
        intro hspans
        have hstep : s.step prev column '\\' [] = .pass 0 ['_'] s := by
          rw [step_literal hmode, if_neg (by simp [hspans]), if_neg hprefix]
        rw [consume, hstep]
        rfl
    · have hstep : s.step prev column c cs = .pass 0 ['_'] s := by
        rw [step_literal hmode, if_neg (by simp [hback]), if_neg hprefix]
      rw [Quote.bodyOf, if_neg hprefix, consume, hstep]
      · exact (ih _ _).cons [c]
      · exact hescape

/-! ## Where nothing was left out -/

theorem length_mask_step {s next : Scanner} {prev : Option Char} {column : Nat} {c : Char} {rest mask : List Char}
    {extra : Nat} (h : s.step prev column c rest = .pass extra mask next) : mask.length ≤ extra + 1 := by
  have hmark (q : Quote) : q.mark.length ≤ q.mark.length - 1 + 1 := by
    have hpos := List.length_pos_iff.2 q.mark_ne_nil
    omega
  unfold step at h
  dsimp only at h
  split at h
  · split at h
    · cases h
      exact Nat.le_refl 2
    · split at h
      · cases h
        exact hmark _
      · cases h
        exact Nat.le_refl 1
  · split at h
    · cases h
      exact Nat.zero_le _
    · cases h
      exact Nat.zero_le _
  · split at h
    · cases h
    · split at h
      · cases h
        exact Nat.zero_le _
      · split at h
        · cases h
          exact hmark _
        · cases h
          exact Nat.le_refl 1

theorem length_over {s next : Scanner} {skip : Nat} {prev : Option Char} {column : Nat} {rest cs masked : List Char}
    (h : s.over? skip prev column rest cs = some (masked, next)) : masked.length + skip ≤ cs.length := by
  induction cs generalizing s skip prev column masked with
  | nil =>
    unfold over? at h
    split at h
    · next hskip =>
      cases h
      rw [hskip]
      exact Nat.le_refl _
    · cases h
  | cons c cs ih =>
    rw [List.length_cons]
    cases skip with
    | succ k => exact Nat.succ_le_succ (ih h)
    | zero =>
      unfold over? at h
      cases hstep : s.step prev column c (cs ++ rest) with
      | stop =>
        rw [hstep] at h
        cases h
      | pass extra mask next' =>
        rw [hstep] at h
        obtain ⟨r, hr, heq⟩ := Option.map_eq_some_iff.1 h
        cases heq
        have hmask := length_mask_step hstep
        have hrest := ih hr
        rw [List.length_append]
        omega

/-- A masked text that is as long as the text begins with as many blanks. -/
theorem length_trimStart_over {s next : Scanner} {prev : Option Char} {column : Nat} {rest cs masked : List Char}
    (h : s.over? 0 prev column rest cs = some (masked, next)) (hmode : s.mode = .code)
    (hlength : masked.length = cs.length) : (Text.trimStart masked).length = (Text.trimStart cs).length := by
  induction cs generalizing s prev column masked with
  | nil =>
    cases h
    rfl
  | cons c cs ih =>
    unfold over? at h
    cases hc : Text.isSpace c with
    | true =>
      obtain ⟨mask, next', hstep, hmode', hmask⟩ := s.step_space prev column (cs ++ rest) hc
      rw [hmask hmode] at hstep
      rw [hstep] at h
      obtain ⟨r, hr, heq⟩ := Option.map_eq_some_iff.1 h
      cases heq
      rw [List.singleton_append, Text.trimStart, Text.trimStart, List.dropWhile_cons_of_pos hc,
        List.dropWhile_cons_of_pos hc]
      exact ih hr (hmode'.trans hmode) (Nat.succ_inj.1 hlength)
    | false =>
      have hvisible {d : Char} (hd : Text.isSpace d = false) (ds : List Char) : Text.trimStart (d :: ds) = d :: ds :=
        List.dropWhile_cons_of_neg (by simp [hd])
      rw [hvisible hc, ← hlength]
      unfold step at h
      rw [hmode] at h
      dsimp only at h
      split at h
      · cases h
      · next hstep =>
        split at hstep
        · cases hstep
        · split at hstep
          · -- a comment would be missing from the masked text
            cases hstep
            obtain ⟨r, hr, heq⟩ := Option.map_eq_some_iff.1 h
            cases heq
            have hshort := length_over hr
            rw [List.nil_append, List.length_cons] at hlength
            omega
          · split at hstep
            · next quote hquote =>
              cases hstep
              obtain ⟨r, hr, heq⟩ := Option.map_eq_some_iff.1 h
              cases heq
              cases quote <;> rw [Quote.mark, List.cons_append, hvisible (by decide)]
            · cases hstep
              obtain ⟨r, hr, heq⟩ := Option.map_eq_some_iff.1 h
              cases heq
              rw [List.cons_append, hvisible hc]

/-- Of a literal the masked text has the marks and as many underscores as its body has characters. -/
theorem exists_masked_literal {s : Scanner} {l : LineLiteral} {masked : List Char} (h : s.ReadsLiteral l masked)
    (hends : l.closed = true ∨ l.quote.spansLines = true) :
    ∃ shown more, (s.consume 0 none 1 l.line).1 = masked ++ (shown ++ more) ∧ shown.length = l.text.length ∧
      Text.Visible shown ∧ (l.behind = none → more = []) := by
  obtain ⟨next, hover, hmode, hopens⟩ := h.reached
  obtain ⟨c, ms, hmark⟩ := List.exists_cons_of_ne_nil l.quote.mark_ne_nil
  obtain ⟨opened, hstep⟩ := hopens c (ms ++ l.inside) (by rw [hmark]; rfl)
  obtain ⟨prev, hskip⟩ := consume_skip { next with mode := .literal l.quote opened } (some c)
    (l.before.length + 1 + 1) ms l.inside
  have hbody := masked_consume_body (s := { next with mode := .literal l.quote opened }) rfl prev
    (l.before.length + 1 + 1 + ms.length) l.inside
  have hextra : l.quote.mark.length - 1 = ms.length := by
    rw [hmark]
    rfl
  have hconsumed : (s.consume 0 none 1 l.line).1 = masked ++ (l.quote.mark ++
      (({ next with mode := .literal l.quote opened } : Scanner).consume 0 prev
        (l.before.length + 1 + 1 + ms.length) l.inside).1) := by
    rw [LineLiteral.line, consume_over hover, Option.or_none, Nat.add_comm 1, ← hskip, ← hextra]
    conv => lhs; rw [hmark]
    rw [List.cons_append, consume, hstep]
  rw [hconsumed]
  rw [h.body] at hbody
  generalize (Scanner.consume _ 0 prev _ l.inside).1 = shown at hbody ⊢
  unfold MasksBody at hbody
  unfold LineLiteral.text LineLiteral.closed
  unfold LineLiteral.closed at hends
  cases hbehind : l.behind with
  | some behind =>
    rw [hbehind] at hbody
    obtain ⟨more, rfl⟩ := hbody
    refine ⟨l.quote.mark ++ (List.replicate l.body.length '_' ++ l.quote.mark), more, by simp, by simp, ?_,
      fun h => absurd h (Option.some_ne_none behind)⟩
    exact l.quote.visible_mark.append l.quote.visible_mark _
  | none =>
    rw [hbehind] at hbody hends
    obtain rfl := hbody (hends.resolve_left (by decide))
    refine ⟨l.quote.mark ++ List.replicate l.body.length '_', [], by simp, by simp, ?_, fun _ => rfl⟩
    cases l.body.length with
    | zero =>
      rw [List.replicate_zero, List.append_nil]
      exact l.quote.visible_mark
    | succ n =>
      have hlast : Text.Visible ['_'] := ⟨⟨'_', [], rfl, by decide⟩, ⟨[], '_', rfl, by decide⟩⟩
      rw [List.replicate_succ']
      exact l.quote.visible_mark.append hlast _

/-- The emitter takes the literal along with the code in front of it, up to something that may stand behind. -/
theorem codeOf_literal {s : Scanner} {raw masked : List Char} {l : LineLiteral} (hcode : s.mode = .code)
    (hraw : Text.dropLineEnds raw = l.line) (h : ReadsLiteral { s with line := s.line + 1 } l masked)
    (hshown : masked.length = l.before.length) (hends : l.closed = true ∨ l.quote.spansLines = true)
    (hvisible : Text.Visible l.text) :
    ∃ behind, FrameStep.codeOf (s.feed raw).1 raw = Text.trimStart l.before ++ (l.text ++ behind) ∧
      (l.behind = none → behind = []) := by
  obtain ⟨shown, more, hmasked, hlength, hshownVisible, hmore⟩ := exists_masked_literal h hends
  obtain ⟨ends, hsplit, -⟩ := Text.exists_dropEndWhile (fun c => c == '\n' || c == '\r') raw
  have hfed : (s.feed raw).1.masked = masked ++ (shown ++ more) := by
    rw [← hmasked, ← hraw]
    rfl
  have hline : raw = l.before ++ (l.text ++ (l.behind.getD [] ++ ends)) := by
    have hdropped : raw = Text.dropLineEnds raw ++ ends := hsplit
    rw [hdropped, hraw, l.line_eq]
    simp
  obtain ⟨next, hover, -, -⟩ := h.reached
  have hlead := length_trimStart_over hover hcode hshown
  refine ⟨(Text.trimEnd (l.behind.getD [] ++ ends)).take (Text.trimEnd more).length, ?_, fun hnone => ?_⟩
  · unfold FrameStep.codeOf
    rw [hfed, Text.trim_around masked hshownVisible, hline, Text.trim_around l.before hvisible]
    rw [List.length_append, List.length_append, hlength, hlead, ← Nat.add_assoc, ← List.length_append,
      ← List.append_assoc, List.take_length_add_append, List.append_assoc]
  · rw [hmore hnone]
    rfl

end Scanner

end Pseudoscribe
