import Mathlib.Data.List.TakeWhile
import Pseudoscribe.Code.Expression
import Pseudoscribe.Proofs.Text.Blur

/-!
# Quotation marks in expressions

A reader of expressions knows single and double quotation marks and the backslash, and nothing else of literals.  Where
no literal is open in front of a text, and no word or mark runs over its edge, the text is read by itself, and what is
written for an expression is what is written for its parts.
-/

namespace Pseudoscribe.Expression

open Text

/-- The marks between which expressions have literals. -/
def isQuote (c : Char) : Bool := c == '"' || c == '\x27'

/-- The mark of the literal that is open, with whether a backslash stands right in front, and a character more. -/
def quoteStep (open? : Option (Char × Bool)) (c : Char) : Option (Char × Bool) :=
  match open? with
  | none => if isQuote c then some (c, false) else none
  | some (q, true) => some (q, false)
  | some (q, false) => if c == '\\' then some (q, true) else if c == q then none else some (q, false)

/-- What is open behind a text. -/
def openBehind (open? : Option (Char × Bool)) (cs : List Char) : Option (Char × Bool) := cs.foldl quoteStep open?

/-- No literal that begins in the text is open behind it. -/
def Shut (cs : List Char) : Prop := openBehind none cs = none

instance (cs : List Char) : Decidable (Shut cs) := inferInstanceAs (Decidable (_ = _))

theorem openBehind_append (open? : Option (Char × Bool)) (xs ys : List Char) :
    openBehind open? (xs ++ ys) = openBehind (openBehind open? xs) ys :=
  List.foldl_append

theorem shut_of_forall {cs : List Char} (h : ∀ c ∈ cs, isQuote c = false) : Shut cs := by
  induction cs with
  | nil => rfl
  | cons c cs ih =>
    have hc : quoteStep none c = none := if_neg (by simp [h c List.mem_cons_self])
    show openBehind (quoteStep none c) cs = none
    rw [hc]
    exact ih fun d hd => h d (List.mem_cons_of_mem c hd)

theorem shut_append_iff {xs : List Char} (hxs : Shut xs) (ys : List Char) : Shut (xs ++ ys) ↔ Shut ys := by
  unfold Shut at *
  rw [openBehind_append, hxs]

theorem isWordChar_of_isQuote {c : Char} (h : isQuote c = true) : isWordChar c = false := by
  rcases Bool.or_eq_true_iff.1 h with h | h <;>
  · rw [eq_of_beq h]
    decide +kernel

theorem isSpace_of_isQuote {c : Char} (h : isQuote c = true) : isSpace c = false := by
  rcases Bool.or_eq_true_iff.1 h with h | h <;>
  · rw [eq_of_beq h]
    decide

theorem isQuote_of_isWordChar {c : Char} (h : isWordChar c = true) : isQuote c = false := by
  cases hq : isQuote c with
  | false => rfl
  | true =>
    rw [isWordChar_of_isQuote hq] at h
    cases h

theorem isQuote_of_isSpace {c : Char} (h : isSpace c = true) : isQuote c = false := by
  cases hq : isQuote c with
  | false => rfl
  | true =>
    rw [isSpace_of_isQuote hq] at h
    cases h

/-! ## Literals -/

theorem literalTail_escape (q c : Char) (rest : List Char) :
    literalTail q ('\\' :: c :: rest) = ('\\' :: c :: (literalTail q rest).1, (literalTail q rest).2) := by
  rw [literalTail]

theorem literalTail_mark {q : Char} (hq : q ≠ '\\') (rest : List Char) : literalTail q (q :: rest) = ([q], rest) := by
  rw [literalTail]
  · exact if_pos (beq_self_eq_true q)
  · exact fun c more h => absurd h hq

theorem literalTail_other {q c : Char} (hback : c ≠ '\\') (hq : c ≠ q) (rest : List Char) :
    literalTail q (c :: rest) = (c :: (literalTail q rest).1, (literalTail q rest).2) := by
  rw [literalTail]
  · exact if_neg (by simpa using hq)
  · exact fun d more h => absurd h hback

/-- A literal is closed by the first mark of its kind that no backslash takes along, or never. -/
theorem literalTail_cases {q : Char} (hq : q ≠ '\\') (cs : List Char) :
    (openBehind (some (q, false)) (literalTail q cs).1 = none ∧
        ∀ v, literalTail q ((literalTail q cs).1 ++ v) = ((literalTail q cs).1, v)) ∨
      (literalTail q cs).2 = [] ∧ openBehind (some (q, false)) cs ≠ none := by
  have hbackslash : (q == '\\') = false := by simpa using hq
  fun_induction literalTail q cs with
  | case1 => exact .inr ⟨rfl, by simp [openBehind]⟩
  | case2 c rest r ih =>
    rcases ih with ⟨hshut, htail⟩ | ⟨hnil, hopen⟩
    · refine .inl ⟨hshut, fun v => ?_⟩
      rw [List.cons_append, List.cons_append, literalTail_escape, htail v]
    · exact .inr ⟨hnil, hopen⟩
  | case3 c rest hescape heq =>
    obtain rfl := eq_of_beq heq
    refine .inl ⟨?_, literalTail_mark hq⟩
    show quoteStep (some (c, false)) c = none
    simp [quoteStep, hbackslash]
  | case4 c rest hescape hneq r ih =>
    have hother : c ≠ q := by simpa using hneq
    by_cases hback : c = '\\'
    · -- a backslash at the very end takes nothing along
      subst hback
      cases rest with
      | nil => exact .inr ⟨rfl, by simp [openBehind, quoteStep]⟩
      | cons d rest => exact (hescape d rest rfl rfl).elim
    · have hstep : quoteStep (some (q, false)) c = some (q, false) := by
        simp [quoteStep, hback, hother]
      rcases ih with ⟨hshut, htail⟩ | ⟨hnil, hopen⟩
      · refine .inl ⟨?_, fun v => ?_⟩
        · show openBehind (quoteStep (some (q, false)) c) r.1 = none
          rw [hstep]
          exact hshut
        · rw [List.cons_append, literalTail_other hback hother, htail v]
      · refine .inr ⟨hnil, ?_⟩
        show openBehind (quoteStep (some (q, false)) c) rest ≠ none
        rw [hstep]
        exact hopen

/-! ## Parts of an expression -/

/-- No word and no mark of two characters runs over the edge between the texts. -/
def Apart (xs ys : List Char) : Prop :=
  ∀ c ∈ xs.getLast?, ∀ d ∈ ys.head?, (isWordChar c = false ∨ isWordChar d = false) ∧ [c, d] ∉ pairMarks

theorem isWordChar_of_isNameStart {c : Char} (h : isNameStart c = true) : isWordChar c = true := by
  unfold isNameStart at h
  unfold isWordChar isAlnum
  rcases Bool.or_eq_true_iff.1 h with h | h <;> simp [h]

theorem Apart.of_append {xs xs' ys : List Char} (h : Apart (xs ++ xs') ys) : Apart xs' ys := by
  intro e he
  refine h e ?_
  rw [Option.mem_def] at he ⊢
  rw [List.getLast?_append, he]
  rfl

theorem tokens_nil : tokens [] = [] := by
  rw [tokens]

theorem tokens_literal {c : Char} (hquote : (c == '"' || c == '\x27') = true) (rest : List Char) :
    tokens (c :: rest) = .literal (c :: (literalTail c rest).1) :: tokens (literalTail c rest).2 := by
  rw [tokens, if_pos hquote]

theorem tokens_word {c : Char} (hquote : ¬ (c == '"' || c == '\x27') = true) (hname : isNameStart c = true)
    (rest : List Char) :
    tokens (c :: rest) = .word (c :: rest.takeWhile isWordChar) :: tokens (rest.dropWhile isWordChar) := by
  rw [tokens, if_neg hquote, if_pos hname]

theorem tokens_pair {c d : Char} (hquote : ¬ (c == '"' || c == '\x27') = true) (hname : ¬ isNameStart c = true)
    (hpair : pairMarks.contains [c, d] = true) (rest : List Char) :
    tokens (c :: d :: rest) = .mark [c, d] :: tokens rest := by
  rw [tokens, if_neg hquote, if_neg hname]
  exact if_pos hpair

theorem tokens_mark {c : Char} (hquote : ¬ (c == '"' || c == '\x27') = true) (hname : ¬ isNameStart c = true)
    {rest : List Char} (hpair : ¬ pairMarks.contains ((c :: rest).take 2) = true) :
    tokens (c :: rest) = .mark [c] :: tokens rest := by
  rw [tokens, if_neg hquote, if_neg hname, if_neg hpair]

theorem shut_cons_iff {c : Char} (hquote : ¬ (c == '"' || c == '\x27') = true) (cs : List Char) :
    Shut (c :: cs) ↔ Shut cs := by
  have hfirst : quoteStep none c = none := if_neg hquote
  show openBehind (quoteStep none c) cs = none ↔ _
  rw [hfirst]
  rfl

theorem Shut.dropWhile {p : Char → Bool} (hp : ∀ c, p c = true → isQuote c = false) {cs : List Char} (h : Shut cs) :
    Shut (cs.dropWhile p) := by
  rw [← List.takeWhile_append_dropWhile (p := p) (l := cs)] at h
  exact (shut_append_iff (shut_of_forall fun c hc => hp c (List.mem_takeWhile_imp hc)) _).1 h

/-- A run that ends in the text, or right behind it, ends at the same place in a longer text. -/
theorem takeWhile_append_of_ends {p : Char → Bool} {xs ys : List Char}
    (h : xs.dropWhile p = [] → ∀ d ∈ ys.head?, p d = false) :
    (xs ++ ys).takeWhile p = xs.takeWhile p ∧ (xs ++ ys).dropWhile p = xs.dropWhile p ++ ys := by
  have hall : ∀ c ∈ xs.takeWhile p, p c = true := fun c hc => List.mem_takeWhile_imp hc
  have hsplit := List.takeWhile_append_dropWhile (p := p) (l := xs)
  cases hrest : xs.dropWhile p with
  | cons d ds =>
    have hd : p d = false := by
      have hhead := List.head?_dropWhile_not p xs
      rw [hrest] at hhead
      simpa using hhead
    have hlonger : xs ++ ys = xs.takeWhile p ++ d :: (ds ++ ys) := by
      rw [← List.cons_append, ← hrest, ← List.append_assoc, hsplit]
    rw [hlonger, List.takeWhile_append_of_pos hall, List.dropWhile_append_of_pos hall,
      List.takeWhile_cons_of_neg (by simp [hd]), List.dropWhile_cons_of_neg (by simp [hd]), List.append_nil]
    exact ⟨rfl, rfl⟩
  | nil =>
    rw [hrest, List.append_nil] at hsplit
    rw [hsplit] at hall
    have hends : ys.takeWhile p = [] ∧ ys.dropWhile p = ys := by
      cases ys with
      | nil => exact ⟨rfl, rfl⟩
      | cons d ds =>
        have hd := h hrest d rfl
        exact ⟨List.takeWhile_cons_of_neg (by simp [hd]), List.dropWhile_cons_of_neg (by simp [hd])⟩
    rw [List.takeWhile_append_of_pos hall, List.dropWhile_append_of_pos hall, hends.1, hends.2, hsplit, List.append_nil]
    exact ⟨rfl, rfl⟩

/-- A word at the end of a text ends there, if nothing runs over the edge. -/
theorem Apart.ends_word {xs ys : List Char} (h : Apart xs ys) (hne : xs ≠ []) (hword : ∀ c ∈ xs, isWordChar c = true) :
    ∀ d ∈ ys.head?, isWordChar d = false := by
  intro d hd
  have hlast := hword _ (List.getLast_mem hne)
  have hedge := (h _ (List.getLast?_eq_some_getLast hne) d hd).1
  rw [hlast] at hedge
  exact hedge.resolve_left (by decide)

/-- A literal that is shut ends at the same place in a longer text. -/
theorem literalTail_append_of_shut {c : Char} (hquote : isQuote c = true) {rest : List Char} (hshut : Shut (c :: rest))
    (ys : List Char) :
    literalTail c (rest ++ ys) = ((literalTail c rest).1, (literalTail c rest).2 ++ ys) ∧ Shut (literalTail c rest).2 := by
  have hback : c ≠ '\\' := by
    rintro rfl
    exact absurd hquote (by decide)
  have hopens : openBehind (some (c, false)) rest = none := by
    have hfirst : quoteStep none c = some (c, false) := if_pos hquote
    rw [← hfirst]
    exact hshut
  have hparts := literalTail_append c rest
  rcases literalTail_cases hback rest with ⟨hclosed, htail⟩ | ⟨-, hopen⟩
  · constructor
    · rw [← htail, ← List.append_assoc, hparts]
    · rw [← hparts, openBehind_append, hclosed] at hopens
      exact hopens
  · exact absurd hopens hopen

theorem isQuote_of_mem_pairMarks {c d : Char} (h : [c, d] ∈ pairMarks) : isQuote d = false := by
  simp only [pairMarks, List.mem_cons, List.cons.injEq, and_true, List.not_mem_nil, or_false] at h
  rcases h with ⟨-, rfl⟩ | ⟨-, rfl⟩ | ⟨-, rfl⟩ <;> decide

/-- A text with nothing open behind it is read by itself. -/
theorem tokens_append {xs ys : List Char} (hshut : Shut xs) (hapart : Apart xs ys) :
    tokens (xs ++ ys) = tokens xs ++ tokens ys := by
  fun_induction tokens xs with
  | case1 => rfl
  | case2 c rest hquote r ih =>
    obtain ⟨hlonger, hrest⟩ := literalTail_append_of_shut hquote hshut ys
    have hwhole : Apart ((c :: r.1) ++ r.2) ys := by rwa [List.cons_append, literalTail_append]
    rw [List.cons_append, tokens_literal hquote, hlonger]
    exact congrArg _ (ih hrest hwhole.of_append)
  | case3 c rest hquote hname ih =>
    have hsplit : c :: rest = (c :: rest.takeWhile isWordChar) ++ rest.dropWhile isWordChar := by
      rw [List.cons_append, List.takeWhile_append_dropWhile]
    have hrest := ((shut_cons_iff hquote rest).1 hshut).dropWhile fun _ => isQuote_of_isWordChar
    have hends : rest.dropWhile isWordChar = [] → ∀ d ∈ ys.head?, isWordChar d = false := by
      intro hnil
      rw [hnil, List.append_nil] at hsplit
      refine hapart.ends_word (List.cons_ne_nil c rest) ?_
      rw [hsplit]
      exact List.forall_mem_cons.2 ⟨isWordChar_of_isNameStart hname, fun e he => List.mem_takeWhile_imp he⟩
    obtain ⟨htake, hdrop⟩ := takeWhile_append_of_ends hends
    rw [hsplit] at hapart
    rw [List.cons_append, tokens_word hquote hname, htake, hdrop, ih hrest hapart.of_append]
    rfl
  | case4 c rest hquote hname hpair ih =>
    cases rest with
    | nil => exact absurd hpair (by simp [pairMarks])
    | cons d rest =>
      have hd := isQuote_of_mem_pairMarks (List.contains_iff_mem.1 hpair)
      have hrest := (shut_cons_iff (by rw [← isQuote, hd]; decide) rest).1 ((shut_cons_iff hquote (d :: rest)).1 hshut)
      have hwhole : Apart ([c, d] ++ rest) ys := hapart
      rw [List.cons_append, List.cons_append, tokens_pair hquote hname hpair]
      exact congrArg _ (ih hrest hwhole.of_append)
  | case5 c rest hquote hname hpair ih =>
    -- the mark stays a single one with what is put behind it
    have hsingle : ¬ pairMarks.contains ((c :: (rest ++ ys)).take 2) = true := by
      cases rest with
      | cons d rest => exact hpair
      | nil =>
        cases ys with
        | nil => exact hpair
        | cons d ds =>
          intro hcontains
          exact (hapart c rfl d rfl).2 (List.contains_iff_mem.1 hcontains)
    have hwhole : Apart ([c] ++ rest) ys := hapart
    rw [List.cons_append, tokens_mark hquote hname hsingle,
      ih ((shut_cons_iff hquote rest).1 hshut) hwhole.of_append]
    rfl

/-- What is written for a text in two parts is what is written for the parts. -/
theorem exists_tokensText_append (t : Target) (condition : Bool) (prev : Option Char) (xs ys : List Token) :
    ∃ prev', tokensText t condition prev (xs ++ ys) = tokensText t condition prev xs ++ tokensText t condition prev' ys := by
  induction xs generalizing prev with
  | nil => exact ⟨prev, rfl⟩
  | cons x xs ih =>
    obtain ⟨prev', hrest⟩ := ih (x.text.getLast?.or prev)
    refine ⟨prev', ?_⟩
    rw [List.cons_append, tokensText, tokensText, hrest, List.append_assoc]

/-! ## Texts that are written as they are -/

/-- Wherever it stands, the text is written as it is. -/
def Kept (t : Target) (text : List Char) : Prop :=
  ∀ condition prev, tokensText t condition prev (tokens text) = text

theorem infix_tokensText {t : Target} {before text behind : List Char} (hkept : Kept t text) (hbefore : Shut before)
    (htext : Shut text) (hedge : Apart before (text ++ behind)) (hedge' : Apart text behind) (condition : Bool)
    (prev : Option Char) : text <:+: tokensText t condition prev (tokens (before ++ (text ++ behind))) := by
  rw [tokens_append hbefore hedge, tokens_append htext hedge']
  obtain ⟨prev₁, hfirst⟩ := exists_tokensText_append t condition prev (tokens before) (tokens text ++ tokens behind)
  obtain ⟨prev₂, hsecond⟩ := exists_tokensText_append t condition prev₁ (tokens text) (tokens behind)
  rw [hfirst, hsecond, hkept]
  exact ⟨_, _, List.append_assoc _ _ _⟩

theorem suffix_tokensText {t : Target} {before text : List Char} (hkept : Kept t text) (hbefore : Shut before)
    (hedge : Apart before text) (condition : Bool) (prev : Option Char) :
    text <:+ tokensText t condition prev (tokens (before ++ text)) := by
  rw [tokens_append hbefore hedge]
  obtain ⟨prev₁, hfirst⟩ := exists_tokensText_append t condition prev (tokens before) (tokens text)
  rw [hfirst, hkept]
  exact List.suffix_append _ _

/-- A text that is nothing but literals of an expression, the last of which may be open. -/
inductive Quoted (closed : Bool) : List Char → Prop
  | nil : Quoted closed []
  | literal {q : Char} {body rest : List Char} (quote : isQuote q = true)
    (tail : ∀ v, literalTail q (body ++ v) = (body, v)) (quoted : Quoted closed rest) :
    Quoted closed (q :: (body ++ rest))
  | openEnd {q : Char} {body : List Char} (quote : isQuote q = true) (tail : literalTail q body = (body, []))
    (isOpen : closed = false) : Quoted closed (q :: body)

theorem backslash_ne_of_isQuote {q : Char} (h : isQuote q = true) : q ≠ '\\' := by
  rintro rfl
  exact absurd h (by decide)

theorem Quoted.kept {closed : Bool} {text : List Char} (h : Quoted closed text) (t : Target) : Kept t text := by
  intro condition prev
  induction h generalizing prev with
  | nil =>
    rw [tokens_nil]
    rfl
  | @literal q body rest hquote htail _ ih =>
    rw [tokens_literal hquote, htail]
    exact congrArg (q :: body ++ ·) (ih _)
  | @openEnd q body hquote htail =>
    rw [tokens_literal hquote, htail, tokens_nil]
    exact List.append_nil _

theorem openBehind_of_tail {q : Char} (hq : q ≠ '\\') {body : List Char}
    (h : ∀ v, literalTail q (body ++ v) = (body, v)) : openBehind (some (q, false)) body = none := by
  have hone : literalTail q (body ++ [q]) = (body, [q]) := h [q]
  rcases literalTail_cases hq (body ++ [q]) with ⟨hclosed, -⟩ | ⟨hnil, -⟩
  · rwa [hone] at hclosed
  · rw [hone] at hnil
    cases hnil

theorem Quoted.shut {closed : Bool} {text : List Char} (h : Quoted closed text) (hclosed : closed = true) : Shut text := by
  induction h with
  | nil => rfl
  | @literal q body rest hquote htail _ ih =>
    have hfirst : quoteStep none q = some (q, false) := if_pos hquote
    show openBehind (quoteStep none q) (body ++ rest) = none
    rw [hfirst, openBehind_append, openBehind_of_tail (backslash_ne_of_isQuote hquote) htail]
    exact ih
  | openEnd _ _ hopen =>
    rw [hopen] at hclosed
    cases hclosed

/-- In front of every character within a literal something is open. -/
theorem openBehind_ne_of_split {q : Char} (hq : q ≠ '\\') (cs : List Char) {before : List Char} {c : Char}
    {behind : List Char} (h : (literalTail q cs).1 = before ++ c :: behind) :
    openBehind (some (q, false)) before ≠ none := by
  induction cs using literalTail.induct q generalizing before with
  | case1 => cases before <;> cases h
  | case2 d rest ih =>
    rw [literalTail_escape] at h
    match before, h with
    | [], _ => exact nofun
    | [_], h =>
      cases h
      exact nofun
    | _ :: _ :: before, h =>
      obtain ⟨rfl, hmore⟩ := List.cons.inj h
      obtain ⟨rfl, hrest⟩ := List.cons.inj hmore
      show openBehind (some (q, false)) before ≠ none
      exact ih hrest
  | case3 d rest hescape heq =>
    rw [eq_of_beq heq, literalTail_mark hq] at h
    cases before with
    | nil => exact nofun
    | cons e before => cases before <;> cases h
  | case4 d rest hescape hneq ih =>
    cases before with
    | nil => exact nofun
    | cons e before =>
      have hother : d ≠ q := by simpa using hneq
      have hback : d ≠ '\\' := by
        rintro rfl
        cases rest with
        | nil =>
          rw [literalTail.eq_def] at h
          cases before <;> simp [hneq, literalTail] at h
        | cons e rest => exact hescape e rest rfl rfl
      have hstep : quoteStep (some (q, false)) d = some (q, false) := by simp [quoteStep, hback, hother]
      rw [literalTail_other hback hother] at h
      obtain ⟨rfl, hrest⟩ := List.cons.inj h
      show openBehind (quoteStep (some (q, false)) d) before ≠ none
      rw [hstep]
      exact ih hrest

/-- Where nothing is open in front of a character within the text, it is a quotation mark. -/
def Uncut (text : List Char) : Prop :=
  ∀ before c behind, text = before ++ c :: behind → before ≠ [] → Shut before → isQuote c = true

theorem Quoted.head {closed : Bool} {text : List Char} (h : Quoted closed text) : ∀ c ∈ text.head?, isQuote c = true := by
  cases h with
  | nil => exact fun c hc => nomatch hc
  | literal hquote _ _ | openEnd hquote _ _ =>
    intro c hc
    cases hc
    exact hquote

theorem Quoted.uncut {closed : Bool} {text : List Char} (h : Quoted closed text) : Uncut text := by
  induction h with
  | nil =>
    intro before c behind heq
    cases before <;> cases heq
  | @literal q body rest hquote htail hquoted ih =>
    intro before c behind heq hne hshut
    have hq := backslash_ne_of_isQuote hquote
    have hfirst : quoteStep none q = some (q, false) := if_pos hquote
    cases before with
    | nil => exact absurd rfl hne
    | cons e before =>
      obtain ⟨rfl, hmore⟩ := List.cons.inj heq
      have hopens : openBehind (some (q, false)) before = none := by
        rw [← hfirst]
        exact hshut
      rcases List.append_eq_append_iff.1 hmore with ⟨more, hbefore, hrest⟩ | ⟨more, hbody, hrest⟩
      · -- the place is behind the first literal
        rw [hbefore, openBehind_append, openBehind_of_tail hq htail] at hopens
        cases more with
        | nil => exact hquoted.head c (by rw [hrest]; rfl)
        | cons f more => exact ih _ c behind hrest (List.cons_ne_nil _ _) hopens
      · cases more with
        | nil =>
          have hrest : c :: behind = rest := hrest
          exact hquoted.head c (by rw [← hrest]; rfl)
        | cons f more =>
          have hinside : (literalTail q (body ++ [])).1 = before ++ f :: more := by rw [htail, hbody]
          exact absurd hopens (openBehind_ne_of_split hq _ hinside)
  | @openEnd q body hquote htail =>
    intro before c behind heq hne hshut
    have hfirst : quoteStep none q = some (q, false) := if_pos hquote
    cases before with
    | nil => exact absurd rfl hne
    | cons e before =>
      obtain ⟨rfl, hmore⟩ := List.cons.inj heq
      have hopens : openBehind (some (q, false)) before = none := by
        rw [← hfirst]
        exact hshut
      have hinside : (literalTail q body).1 = before ++ c :: behind := by
        rw [htail]
        exact hmore
      exact absurd hopens (openBehind_ne_of_split (backslash_ne_of_isQuote hquote) _ hinside)

end Pseudoscribe.Expression
