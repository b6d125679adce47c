import Pseudoscribe.Proofs.Backend.FailClosed
import Pseudoscribe.Proofs.Scan.Blanks

/-!
# Lines without their comments

What is kept of a line when its comments are left out, and how its masked text shows it: character for character, with
the inside of literals hidden.  The emitter takes as many characters of the raw line as the masked text has, so what
it takes is the code of the line only if the line begins with its code.
-/

namespace Pseudoscribe

namespace Text

theorem trimEnd_cons (c : Char) (cs : List Char) :
    trimEnd (c :: cs) = if trimEnd cs = [] ∧ isSpace c = true then [] else c :: trimEnd cs := by
  have hreverse : trimEnd (c :: cs) = ((cs.reverse ++ [c]).dropWhile isSpace).reverse := by
    rw [trimEnd, dropEndWhile, List.reverse_cons]
  rw [hreverse, List.dropWhile_append]
  unfold trimEnd dropEndWhile
  cases hrest : cs.reverse.dropWhile isSpace with
  | nil => cases hc : isSpace c <;> simp [hc]
  | cons d ds => simp

theorem trimEnd_cons_of_ne_nil {c : Char} {cs : List Char} (h : trimEnd cs ≠ []) :
    trimEnd (c :: cs) = c :: trimEnd cs := by
  rw [trimEnd_cons, if_neg fun hand => h hand.1]

theorem trimEnd_cons_of_visible {c : Char} (h : isSpace c = false) (cs : List Char) :
    trimEnd (c :: cs) = c :: trimEnd cs := by
  rw [trimEnd_cons, if_neg fun hand => Bool.false_ne_true (h.symm.trans hand.2)]

theorem length_trimEnd_cons (c : Char) (cs : List Char) : (trimEnd (c :: cs)).length =
    if (trimEnd cs).length = 0 ∧ isSpace c = true then 0 else (trimEnd cs).length + 1 := by
  rw [trimEnd_cons, apply_ite List.length]
  exact if_congr (and_congr_left' List.length_eq_zero_iff.symm) rfl rfl

theorem trimStart_cons_of_visible {c : Char} (h : isSpace c = false) (cs : List Char) : trimStart (c :: cs) = c :: cs :=
  List.dropWhile_cons_of_neg (by simp [h])

theorem trimStart_cons_of_blank {c : Char} (h : isSpace c = true) (cs : List Char) :
    trimStart (c :: cs) = trimStart cs :=
  List.dropWhile_cons_of_pos h

theorem trimEnd_prefix (cs : List Char) : trimEnd cs <+: cs := by
  obtain ⟨ends, heq, -⟩ := exists_dropEndWhile isSpace cs
  exact ⟨ends, heq.symm⟩

theorem trim_append_blank {blanks : List Char} (h : isBlank blanks = true) (cs : List Char) :
    trim (cs ++ blanks) = trim cs := by
  induction cs with
  | nil => rw [List.nil_append, trim_eq_nil h, trim_eq_nil rfl]
  | cons c cs ih =>
    unfold trim at ih ⊢
    rw [List.cons_append]
    cases hc : isSpace c with
    | true => rw [trimStart_cons_of_blank hc, trimStart_cons_of_blank hc, ih]
    | false =>
      rw [trimStart_cons_of_visible hc, trimStart_cons_of_visible hc, ← List.cons_append]
      exact trimEnd_append_blank h (c :: cs)

theorem trim_dropLineEnds (raw : List Char) : trim (dropLineEnds raw) = trim raw := by
  obtain ⟨ends, heq, hends⟩ := exists_dropEndWhile (fun c => c == '\n' || c == '\r') raw
  have hblank : isBlank ends = true := by
    refine List.all_eq_true.2 fun c hc => ?_
    have hend := hends c hc
    rw [Bool.or_eq_true, beq_iff_eq, beq_iff_eq] at hend
    rcases hend with rfl | rfl <;> decide
  conv => rhs; rw [heq]
  exact (trim_append_blank hblank _).symm

end Text

/-! ## What is kept -/

namespace Scanner

/-- The rest of a line without its comments.  The first `skip` characters belong to a mark that was already read. -/
def kept (s : Scanner) (skip : Nat) (prev : Option Char) (column : Nat) : List Char → List Char
  | [] => []
  | c :: rest =>
    match skip with
    | k + 1 => kept s k (some c) (column + 1) rest
    | 0 =>
      match s.step prev column c rest with
      | .stop => []
      | .pass extra mask next =>
        (if mask.isEmpty then [] else (c :: rest).take (extra + 1)) ++ kept next extra (some c) (column + 1) rest

/-- The next line without its comments. -/
def lineKept (s : Scanner) (raw : List Char) : List Char :=
  kept { s with line := s.line + 1 } 0 none 1 (Text.dropLineEnds raw)

/-! ## Readings

A line as the scanner takes it apart, without the state that it carries along. -/

/-- What a part of a line belongs to. -/
inductive Region where
  | code
  | literal
  | comment
deriving DecidableEq

/-- What the scanner is inside of, wherever that began. -/
def region (s : Scanner) : Region :=
  match s.mode with
  | .code => .code
  | .literal _ _ => .literal
  | .comment _ => .comment

/-- No comment begins with this slash. -/
def Plain (c : Char) (rest : List Char) : Prop := c = '/' → rest.head? ≠ some '/' ∧ rest.head? ≠ some '*'

/-- From the first region to the second one reads over this text, which gives this masked text and leaves this when
its comments are left out.  `slash` says whether there are comments with slashes. -/
inductive Reading (slash : Bool) : Region → Region → List Char → List Char → List Char → Prop
  | done (r : Region) : Reading slash r r [] [] []
  /-- a line comment -/
  | stop (cs : List Char) : Reading slash .code .code cs [] []
  | code {last : Region} {c : Char} {cs masked kept : List Char} (plain : slash = true → Plain c cs)
    (rest : Reading slash .code last cs masked kept) :
    Reading slash .code last (c :: cs) (c :: masked) (c :: kept)
  | comment {last : Region} {cs masked kept : List Char} (known : slash = true)
    (rest : Reading slash .comment last cs masked kept) :
    Reading slash .code last ('/' :: '*' :: cs) masked kept
  | commentEnd {last : Region} {cs masked kept : List Char} (rest : Reading slash .code last cs masked kept) :
    Reading slash .comment last ('*' :: '/' :: cs) masked kept
  | inComment {last : Region} {c : Char} {cs masked kept : List Char}
    (rest : Reading slash .comment last cs masked kept) :
    Reading slash .comment last (c :: cs) masked kept
  | literal {last : Region} (q : Quote) {cs masked kept : List Char}
    (rest : Reading slash .literal last cs masked kept) :
    Reading slash .code last (q.mark ++ cs) (q.mark ++ masked) (q.mark ++ kept)
  | literalEnd {last : Region} (q : Quote) {cs masked kept : List Char}
    (rest : Reading slash .code last cs masked kept) :
    Reading slash .literal last (q.mark ++ cs) (q.mark ++ masked) (q.mark ++ kept)
  | inLiteral {last : Region} {c : Char} {cs masked kept : List Char}
    (rest : Reading slash .literal last cs masked kept) :
    Reading slash .literal last (c :: cs) ('_' :: masked) (c :: kept)
  /-- a backslash at the end of the line -/
  | dangling : Reading slash .literal .literal ['\\'] ['_', '_'] ['\\']

theorem isPrefixOf_of_quoteAt {prev : Option Char} {c : Char} {rest : List Char} {q : Quote}
    (h : quoteAt prev c rest = some q) : q.mark <+: c :: rest := by
  have hsingle (d : Char) (hd : (c == d) = true) : [d] <+: c :: rest := by
    rw [eq_of_beq hd]
    exact ⟨rest, rfl⟩
  unfold quoteAt at h
  split at h
  · next hmark =>
    cases h
    exact List.isPrefixOf_iff_prefix.1 hmark
  · split at h
    · next hmark =>
      cases h
      exact List.isPrefixOf_iff_prefix.1 hmark
    · split at h
      · next hc =>
        cases h
        exact hsingle _ hc
      · split at h
        · next hc =>
          cases h
          exact hsingle _ hc
        · split at h
          · next hc =>
            split at h
            · cases h
            · cases h
              exact hsingle _ hc
          · cases h

theorem region_note (s : Scanner) (issue : Option Issue) : (s.note issue).region = s.region := by
  cases issue <;> rfl

/-- A step over a mark, which is in front of what is read on from there. -/
theorem exists_mark_append {mark : List Char} (hne : mark ≠ []) {c : Char} {rest : List Char} (h : mark <+: c :: rest) :
    c :: rest = mark ++ rest.drop (mark.length - 1) ∧ (c :: rest).take (mark.length - 1 + 1) = mark := by
  obtain ⟨behind, heq⟩ := h
  obtain ⟨d, ds, rfl⟩ := List.exists_cons_of_ne_nil hne
  obtain ⟨rfl, rfl⟩ := List.cons.inj heq
  simp

/-- What a step does is the beginning of a reading. -/
theorem reading_step {s next : Scanner} {prev : Option Char} {column extra : Nat} {c : Char}
    {rest mask masked kept : List Char} {last : Region} (hstep : s.step prev column c rest = .pass extra mask next)
    (h : Reading s.style.slash next.region last (rest.drop extra) masked kept)
    (hend : rest = [] → masked = [] ∧ kept = [] ∧ last = next.region) :
    Reading s.style.slash s.region last (c :: rest) (mask ++ masked)
      ((if mask.isEmpty then [] else (c :: rest).take (extra + 1)) ++ kept) := by
  unfold step at hstep
  dsimp only at hstep
  split at hstep
  · next q opened hmode =>
    have hregion : s.region = .literal := by rw [region, hmode]
    rw [hregion]
    split at hstep
    · next hescape =>
      obtain ⟨hback, -⟩ := Bool.and_eq_true_iff.1 hescape
      cases hstep
      rw [hregion] at h hend
      cases rest with
      | nil =>
        obtain ⟨rfl, rfl, rfl⟩ := hend rfl
        rw [eq_of_beq hback]
        exact .dangling
      | cons d ds => exact .inLiteral (.inLiteral h)
    · split at hstep
      · next hmark =>
        cases hstep
        obtain ⟨hcons, htake⟩ := exists_mark_append q.mark_ne_nil (List.isPrefixOf_iff_prefix.1 hmark)
        rw [htake, if_neg (by simp [q.mark_ne_nil]), hcons]
        exact .literalEnd q h
      · cases hstep
        rw [hregion] at h
        exact .inLiteral h
  · next opened hmode =>
    have hregion : s.region = .comment := by rw [region, hmode]
    rw [hregion]
    split at hstep
    · next hmark =>
      cases hstep
      obtain ⟨hcons, -⟩ := exists_mark_append (List.cons_ne_nil _ _) (List.isPrefixOf_iff_prefix.1 hmark)
      rw [hcons]
      exact .commentEnd h
    · cases hstep
      rw [hregion] at h
      exact .inComment h
  · next hmode =>
    have hregion : s.region = .code := by rw [region, hmode]
    rw [hregion]
    split at hstep
    · cases hstep
    · next hnone =>
      split at hstep
      · next hmark =>
        obtain ⟨hslash, hmark⟩ := Bool.and_eq_true_iff.1 hmark
        cases hstep
        obtain ⟨hcons, -⟩ := exists_mark_append (List.cons_ne_nil _ _) (List.isPrefixOf_iff_prefix.1 hmark)
        rw [hcons]
        exact .comment hslash h
      · next hopens =>
        split at hstep
        · next q hquote =>
          cases hstep
          obtain ⟨hcons, htake⟩ := exists_mark_append q.mark_ne_nil (isPrefixOf_of_quoteAt hquote)
          rw [htake, if_neg (by simp [q.mark_ne_nil]), hcons]
          exact .literal q h
        · cases hstep
          rw [region_note] at h
          refine .code (fun hslash hc => ?_) (by simpa [region, hmode] using h)
          subst hc
          -- two slashes or a slash and a star would have been seen
          have hfirst (d : Char) (h : rest.head? = some d) : ∃ ds, rest = d :: ds := by
            cases rest with
            | nil => cases h
            | cons e ds => exact ⟨ds, by rw [Option.some.inj h]⟩
          constructor
          · intro h
            obtain ⟨ds, rfl⟩ := hfirst '/' h
            exact hnone (by simp [startsComment, hslash])
          · intro h
            obtain ⟨ds, rfl⟩ := hfirst '*' h
            exact hopens (by simp [hslash])

theorem reading_consume (s : Scanner) (skip : Nat) (prev : Option Char) (column : Nat) (cs : List Char) :
    Reading s.style.slash s.region (s.consume skip prev column cs).2.region (cs.drop skip)
      (s.consume skip prev column cs).1 (s.kept skip prev column cs) := by
  induction cs generalizing s skip prev column with
  | nil =>
    rw [List.drop_nil]
    exact .done _
  | cons c rest ih =>
    cases skip with
    | succ k => exact ih s k (some c) (column + 1)
    | zero =>
      rw [consume, kept, List.drop_zero]
      cases hstep : s.step prev column c rest with
      | stop =>
        have hmode : s.mode = .code := by
          cases hs : s.mode with
          | code => rfl
          | literal | comment =>
            unfold step at hstep
            rw [hs] at hstep
            dsimp only at hstep
            split at hstep
            · cases hstep
            · try split at hstep
              all_goals cases hstep
        have hregion : s.region = .code := by rw [region, hmode]
        dsimp only
        rw [hregion]
        exact .stop _
      | pass extra mask next =>
        have hrest := ih next extra (some c) (column + 1)
        rw [(follows_step hstep).style] at hrest
        refine reading_step hstep hrest fun hnil => ?_
        subst hnil
        exact ⟨rfl, rfl, rfl⟩

/-! ## What the masked text shows -/

theorem trimEnd_mark_append (q : Quote) (cs : List Char) : Text.trimEnd (q.mark ++ cs) = q.mark ++ Text.trimEnd cs := by
  have hquote (d : Char) (hd : Text.isSpace d = false) (ds : List Char) := Text.trimEnd_cons_of_visible hd ds
  cases q <;> simp only [Quote.mark, List.cons_append, List.nil_append, hquote '"' (by decide),
    hquote '\x27' (by decide), hquote '\x60' (by decide)]

theorem trimStart_mark_append (q : Quote) (cs : List Char) : Text.trimStart (q.mark ++ cs) = q.mark ++ cs := by
  cases q <;> exact Text.trimStart_cons_of_visible (by decide) _

namespace Reading

variable {slash : Bool} {first last : Region} {cs masked kept : List Char}

/-- From inside of a literal one comes out by its closing mark only. -/
theorem trimEnd_ne_nil (h : Reading slash .literal last cs masked kept) (hlast : last ≠ .literal) :
    Text.trimEnd kept ≠ [] := by
  generalize hfirst : Region.literal = first at h
  induction h with
  | done => exact absurd hfirst.symm hlast
  | stop | code | comment | commentEnd | inComment | literal => cases hfirst
  | literalEnd q => rw [trimEnd_mark_append]; simp [q.mark_ne_nil]
  | inLiteral _ ih =>
    rw [Text.trimEnd_cons_of_ne_nil (ih hlast hfirst)]
    exact List.cons_ne_nil _ _
  | dangling => exact absurd rfl hlast

/-- The masked text is not shorter than what it shows, and longer only behind an open literal. -/
theorem length_trimEnd (h : Reading slash first last cs masked kept) :
    (Text.trimEnd kept).length ≤ (Text.trimEnd masked).length ∧
      (last ≠ .literal → (Text.trimEnd masked).length = (Text.trimEnd kept).length) := by
  induction h with
  | done | stop => exact ⟨Nat.le_refl _, fun _ => rfl⟩
  | comment _ _ ih | commentEnd _ ih | inComment _ ih => exact ih
  | literal q _ ih | literalEnd q _ ih =>
    simp only [trimEnd_mark_append, List.length_append]
    exact ⟨Nat.add_le_add_left ih.1 _, fun hlast => congrArg _ (ih.2 hlast)⟩
  | code _ _ ih =>
    rw [Text.length_trimEnd_cons, Text.length_trimEnd_cons]
    refine ⟨?_, fun hlast => by rw [ih.2 hlast]⟩
    split
    · exact Nat.zero_le _
    · next hkept =>
      split
      · next hmasked => exact absurd ⟨Nat.le_zero.1 (hmasked.1 ▸ ih.1), hmasked.2⟩ hkept
      · exact Nat.succ_le_succ ih.1
  | @inLiteral _ c cs masked kept hrest ih =>
    have hunderscore : Text.isSpace '_' = false := by decide
    rw [Text.trimEnd_cons_of_visible hunderscore, List.length_cons]
    constructor
    · rw [Text.length_trimEnd_cons]
      split <;> omega
    · intro hlast
      rw [Text.trimEnd_cons_of_ne_nil (hrest.trimEnd_ne_nil hlast), List.length_cons, ih.2 hlast]
  | dangling => exact ⟨by decide, fun hlast => absurd rfl hlast⟩

/-- In front of a literal the same blanks come first. -/
theorem exists_trimStart (h : Reading slash first last cs masked kept) (hfirst : first ≠ .literal) :
    ∃ first' cs', first' ≠ .literal ∧ Reading slash first' last cs' (Text.trimStart masked) (Text.trimStart kept) := by
  induction h with
  | done r => exact ⟨r, [], hfirst, .done r⟩
  | stop cs => exact ⟨.code, cs, hfirst, .stop cs⟩
  | comment _ _ ih | commentEnd _ ih | inComment _ ih => exact ih (by decide)
  | literalEnd | inLiteral | dangling => exact absurd rfl hfirst
  | literal q hrest =>
    rw [trimStart_mark_append, trimStart_mark_append]
    exact ⟨.code, _, hfirst, .literal q hrest⟩
  | @code _ c _ _ _ plain hrest ih =>
    cases hc : Text.isSpace c with
    | true =>
      rw [Text.trimStart_cons_of_blank hc, Text.trimStart_cons_of_blank hc]
      exact ih hfirst
    | false =>
      rw [Text.trimStart_cons_of_visible hc, Text.trimStart_cons_of_visible hc]
      exact ⟨.code, _, hfirst, .code plain hrest⟩

theorem length_trim (h : Reading slash first last cs masked kept) (hfirst : first ≠ .literal) :
    (Text.trim kept).length ≤ (Text.trim masked).length ∧
      (last ≠ .literal → (Text.trim masked).length = (Text.trim kept).length) := by
  obtain ⟨first', cs', -, htrimmed⟩ := h.exists_trimStart hfirst
  exact htrimmed.length_trimEnd

/-- What the masked text shows stands at the same place. -/
theorem getElem?_kept (h : Reading slash first last cs masked kept) {i : Nat} {c : Char} (hc : masked[i]? = some c)
    (hshown : c ≠ '_') : kept[i]? = some c := by
  induction h generalizing i with
  | done | stop => cases hc
  | comment _ _ ih | commentEnd _ ih | inComment _ ih => exact ih hc
  | literal q _ ih | literalEnd q _ ih =>
    rw [List.getElem?_append] at hc ⊢
    split
    · next hlt => rwa [if_pos hlt] at hc
    · next hge => exact ih (by rwa [if_neg hge] at hc)
  | code _ _ ih =>
    cases i with
    | zero => exact hc
    | succ i => exact ih hc
  | inLiteral _ ih =>
    cases i with
    | zero => exact absurd (Option.some.inj hc).symm hshown
    | succ i => exact ih hc
  | dangling =>
    have hmem := List.mem_of_getElem? hc
    simp only [List.mem_cons, List.not_mem_nil, or_false, or_self] at hmem
    exact absurd hmem hshown

/-! ## Comments in front of code -/

/-- What is kept does not begin as a comment does. -/
theorem not_comment_prefix (h : Reading true first last cs masked kept) (hfirst : first ≠ .literal) :
    ¬ ['/', '*'] <+: kept := by
  induction h with
  | done | stop => simp
  | comment _ _ ih | commentEnd _ ih | inComment _ ih => exact ih (by decide)
  | literalEnd | inLiteral | dangling => exact absurd rfl hfirst
  | literal q => cases q <;> simp [Quote.mark]
  | code plain hrest ih =>
    intro hfront
    obtain ⟨hslash, hstar⟩ := List.cons_prefix_cons.1 hfront
    obtain ⟨hnoSlash, hnoStar⟩ := plain rfl hslash.symm
    cases hrest with
    | done | stop => simp at hstar
    | code =>
      obtain ⟨rfl, -⟩ := List.cons_prefix_cons.1 hstar
      exact hnoStar rfl
    | comment => exact hnoSlash rfl
    | literal q => cases q <;> simp [Quote.mark] at hstar

/-- Behind code that a literal is left open in, something is left of the quotation mark that opens it. -/
theorem exists_quote (h : Reading slash first .literal cs masked kept) (hfirst : first ≠ .literal) :
    ∃ q : Quote, ∃ c ∈ q.mark, c ∈ Text.trimEnd kept := by
  generalize hlast : Region.literal = last at h
  induction h with
  | done => exact absurd hlast.symm hfirst
  | stop => cases hlast
  | comment _ _ ih | commentEnd _ ih | inComment _ ih => exact ih (by decide) hlast
  | literalEnd | inLiteral | dangling => exact absurd rfl hfirst
  | literal q =>
    obtain ⟨c, hc⟩ := List.exists_mem_of_ne_nil _ q.mark_ne_nil
    exact ⟨q, c, hc, by rw [trimEnd_mark_append]; exact List.mem_append_left _ hc⟩
  | code _ _ ih =>
    obtain ⟨q, c, hc, hmem⟩ := ih hfirst hlast
    rw [Text.trimEnd_cons_of_ne_nil (List.ne_nil_of_mem hmem)]
    exact ⟨q, c, hc, List.mem_cons_of_mem _ hmem⟩

/-- What is kept in front of an open literal is not how a comment goes on. -/
theorem not_prefix_comment (h : Reading true first .literal cs masked kept) (hfirst : first ≠ .literal)
    (ds : List Char) : ¬ Text.trimEnd kept <+: '/' :: '*' :: ds := by
  intro hfront
  obtain ⟨q, c, hc, hmem⟩ := h.exists_quote hfirst
  have hslash : '/' ∉ q.mark := by cases q <;> decide
  match hkept : Text.trimEnd kept with
  | [] => rw [hkept] at hmem; cases hmem
  | [d] =>
    rw [hkept] at hfront hmem
    obtain ⟨rfl, -⟩ := List.cons_prefix_cons.1 hfront
    rw [List.mem_singleton.1 hmem] at hc
    exact hslash hc
  | d :: e :: es =>
    rw [hkept] at hfront
    obtain ⟨rfl, hrest⟩ := List.cons_prefix_cons.1 hfront
    obtain ⟨rfl, -⟩ := List.cons_prefix_cons.1 hrest
    refine h.not_comment_prefix hfirst (List.IsPrefix.trans ?_ (Text.trimEnd_prefix kept))
    rw [hkept]
    exact ⟨es, rfl⟩

theorem kept_eq_of_trimEnd_prefix (h : Reading slash first .literal cs masked kept) (hfirst : first ≠ .comment)
    (hfront : Text.trimEnd kept <+: cs) : kept = cs := by
  generalize hlast : Region.literal = last at h
  induction h with
  | done => rfl
  | stop => cases hlast
  | commentEnd | inComment => exact absurd rfl hfirst
  | comment known hrest =>
    subst hlast known
    exact absurd hfront (hrest.not_prefix_comment (by decide) _)
  | literal q _ ih | literalEnd q _ ih =>
    rw [trimEnd_mark_append] at hfront
    rw [ih (by decide) ((List.prefix_append_right_inj _).1 hfront) hlast]
  | code _ _ ih | inLiteral _ ih =>
    refine congrArg _ (ih (by decide) ?_ hlast)
    rw [Text.trimEnd_cons] at hfront
    split at hfront
    · next hblank =>
      rw [hblank.1]
      exact List.nil_prefix
    · exact (List.cons_prefix_cons.1 hfront).2
  | dangling => rfl

/-- If the line begins with what is kept and ends inside of a literal, nothing was left out. -/
theorem kept_eq_of_trim_prefix (h : Reading slash .code .literal cs masked kept)
    (hfront : Text.trim kept <+: Text.trim cs) : kept = cs := by
  generalize hfirst : Region.code = first at h
  generalize hlast : Region.literal = last at h
  induction h with
  | done => cases hfirst.trans hlast.symm
  | stop => cases hlast
  | commentEnd | inComment | literalEnd | inLiteral | dangling => cases hfirst
  | @comment _ cs _ _ known hrest =>
    subst hlast known
    obtain ⟨first', cs', hfirst', htrimmed⟩ := hrest.exists_trimStart (by decide)
    have hcomment : Text.trim ('/' :: '*' :: cs) <+: '/' :: '*' :: cs := Text.trimEnd_prefix ('/' :: '*' :: cs)
    exact absurd (hfront.trans hcomment) (htrimmed.not_prefix_comment hfirst' cs)
  | literal q hrest =>
    subst hlast
    rw [Text.trim, Text.trim, trimStart_mark_append, trimStart_mark_append, trimEnd_mark_append] at hfront
    have hbehind := hfront.trans (Text.trimEnd_prefix _)
    rw [hrest.kept_eq_of_trimEnd_prefix (by decide) ((List.prefix_append_right_inj _).1 hbehind)]
  | @code _ c _ _ _ _ hrest ih =>
    subst hlast
    cases hc : Text.isSpace c with
    | true =>
      rw [Text.trim, Text.trim, Text.trimStart_cons_of_blank hc, Text.trimStart_cons_of_blank hc] at hfront
      exact congrArg _ (ih hfront rfl rfl)
    | false =>
      rw [Text.trim, Text.trim, Text.trimStart_cons_of_visible hc, Text.trimStart_cons_of_visible hc,
        Text.trimEnd_cons_of_visible hc] at hfront
      have hbehind := hfront.trans (Text.trimEnd_prefix _)
      rw [hrest.kept_eq_of_trimEnd_prefix (by decide) (List.cons_prefix_cons.1 hbehind).2]

end Reading

/-! ## The code of a line -/

theorem reading_feed (s : Scanner) (raw : List Char) : ∃ last, Reading s.style.slash s.region last
    (Text.dropLineEnds raw) (s.feed raw).1.masked (s.lineKept raw) :=
  ⟨_, reading_consume { s with line := s.line + 1 } 0 none 1 (Text.dropLineEnds raw)⟩

/-- The emitter takes the code of a line that begins in code, without its comments, exactly if the line begins with
it. -/
theorem codeOf_eq_iff {s : Scanner} (hcode : s.mode = .code) (raw : List Char) :
    FrameStep.codeOf (s.feed raw).1 raw = Text.trim (s.lineKept raw) ↔
      Text.trim (s.lineKept raw) <+: Text.trim raw := by
  obtain ⟨last, hreading⟩ := s.reading_feed raw
  have hregion : s.region = .code := by rw [region, hcode]
  rw [hregion] at hreading
  obtain ⟨hle, hlength⟩ := hreading.length_trim (by decide)
  unfold FrameStep.codeOf
  constructor
  · intro h
    rw [← h]
    exact List.take_prefix _ _
  · intro hfront
    by_cases hlast : last = .literal
    · subst hlast
      rw [← Text.trim_dropLineEnds raw] at hfront
      have hkept := hreading.kept_eq_of_trim_prefix hfront
      rw [hkept, Text.trim_dropLineEnds] at hle ⊢
      exact List.take_of_length_le hle
    · rw [hlength hlast]
      exact (List.prefix_iff_eq_take.1 hfront).symm

end Scanner

/-! ## Whole texts -/

/-- A line of a text that was read. -/
structure ReadLine where
  scanned : ScannedLine
  raw : List Char
  /-- the line without its comments -/
  kept : List Char
deriving DecidableEq

namespace ReadLine

/-- The code of the line, as the emitter takes it. -/
def code (l : ReadLine) : List Char := FrameStep.codeOf l.scanned l.raw

end ReadLine

namespace Scanner

/-- Read the next line. -/
def read (s : Scanner) (raw : List Char) : ReadLine := ⟨(s.feed raw).1, raw, s.lineKept raw⟩

/-- Read lines one after the other. -/
def readAll (s : Scanner) : List (List Char) → List ReadLine
  | [] => []
  | raw :: raws => s.read raw :: (s.feed raw).2.readAll raws

theorem map_scanned_readAll (s : Scanner) (raws : List (List Char)) :
    (s.readAll raws).map ReadLine.scanned = (s.feedAll raws).1 := by
  induction raws generalizing s with
  | nil => rfl
  | cons raw raws ih => exact congrArg _ (ih (s.feed raw).2)

theorem map_raw_readAll (s : Scanner) (raws : List (List Char)) : (s.readAll raws).map ReadLine.raw = raws := by
  induction raws generalizing s with
  | nil => rfl
  | cons raw raws ih => exact congrArg _ (ih (s.feed raw).2)

end Scanner

/-- Read a whole text. -/
def readText (style : CommentStyle) (text : List Char) : List ReadLine :=
  ({ style } : Scanner).readAll (Text.lines text)

end Pseudoscribe
