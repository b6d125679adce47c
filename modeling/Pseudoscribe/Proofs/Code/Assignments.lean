import Pseudoscribe.Proofs.Block.Modifiers
import Pseudoscribe.Proofs.Code.Scopes

/-!
# Lines that assign

A name, an equals sign and a value make a plain line, and an assignment in the code.  A name that is a keyword is taken for
the keyword instead.
-/

namespace Pseudoscribe

open Text

/-- A line `name = value`: a value without literals and comments, and neither a colon nor an opening brace at its end. -/
structure Assignment where
  /-- the indentation -/
  lead : List Char
  name : List Char
  value : List Char
  indented : isBlank lead = true
  named : Phrase.isName name = true
  unquoted : ∀ mark ∈ ['"', '\x27', '\x60'], mark ∉ value
  uncommented : ∀ mark ∈ [['#'], ['/', '/'], ['/', '*'], ['-', '-']], ¬mark <:+: value
  ends : (trim value).getLast? ≠ some ':' ∧ (trim value).getLast? ≠ some '{'

/-- The characters of a name are letters, numerals and underscores, and the first one is no numeral. -/
theorem Phrase.isName_spec {cs : List Char} (h : isName cs = true) :
    ∃ c rest, cs = c :: rest ∧ isNameStart c = true ∧ ∀ d ∈ cs, isWordChar d = true := by
  unfold isName at h
  split at h
  · cases h
  · next c rest =>
    obtain ⟨hstart, hrest⟩ := Bool.and_eq_true_iff.1 h
    exact ⟨c, rest, rfl, hstart, List.forall_mem_cons.2
      ⟨Expression.isWordChar_of_isNameStart hstart, List.all_eq_true.1 hrest⟩⟩

namespace Scanner

/-- No literal and no comment begins in the text. -/
def Bare : List Char → Prop
  | [] => True
  | c :: rest => c ∉ ['"', '\x27', '\x60', '#'] ∧
      (∀ mark ∈ [['/', '/'], ['/', '*'], ['-', '-']], mark.isPrefixOf (c :: rest) = false) ∧ Bare rest

theorem step_of_bare {s : Scanner} (hs : s.mode = .code) {c : Char} {rest : List Char} (h : Bare (c :: rest))
    (prev : Option Char) (column : Nat) :
    ∃ next, s.step prev column c rest = .pass 0 [c] next ∧ next.mode = .code := by
  obtain ⟨hc, hmarks, -⟩ := h
  simp only [List.mem_cons, List.not_mem_nil, or_false, not_or] at hc
  simp only [List.mem_cons, List.not_mem_nil, or_false, forall_eq_or_imp, forall_eq] at hmarks
  obtain ⟨hdouble, hsingle, hbacktick, hhash⟩ := hc
  obtain ⟨hslashes, hstar, hdashes⟩ := hmarks
  have hquote : quoteAt prev c rest = none := by
    have htriple : Quote.tripleDouble.mark.isPrefixOf (c :: rest) = false ∧
        Quote.tripleSingle.mark.isPrefixOf (c :: rest) = false :=
      ⟨isPrefixOf_cons_eq_false (Ne.symm hdouble), isPrefixOf_cons_eq_false (Ne.symm hsingle)⟩
    simp [quoteAt, htriple, hdouble, hsingle, hbacktick]
  have hcomment : startsComment s.style prev c rest = false := by
    simp [startsComment, hhash, hslashes, hdashes]
  unfold step
  rw [hs]
  simp only [hcomment, hstar, hquote, Bool.and_false, Bool.false_eq_true, if_false]
  refine ⟨_, rfl, ?_⟩
  cases (matchBracket s.brackets ⟨s.line, column⟩ c).2 <;> rfl

/-- A text without literals and comments stays as it is. -/
theorem masked_consume_bare {s : Scanner} (hs : s.mode = .code) {cs : List Char} (h : Bare cs) (prev : Option Char)
    (column : Nat) : (s.consume 0 prev column cs).1 = cs := by
  induction cs generalizing s prev column with
  | nil => rfl
  | cons c rest ih =>
    obtain ⟨next, hstep, hnext⟩ := step_of_bare hs h prev column
    rw [consume, hstep]
    dsimp only
    rw [ih hnext h.2.2, List.singleton_append]

theorem bare_append {front rest : List Char} (hfront : ∀ c ∈ front, c ∉ ['"', '\x27', '\x60', '#', '/', '-'])
    (hrest : Bare rest) : Bare (front ++ rest) := by
  induction front with
  | nil => exact hrest
  | cons c front ih =>
    have hc := hfront c List.mem_cons_self
    simp only [List.mem_cons, List.not_mem_nil, or_false, not_or] at hc
    refine ⟨by simp [hc], ?_, ih fun d hd => hfront d (List.mem_cons_of_mem c hd)⟩
    simp only [List.mem_cons, List.not_mem_nil, or_false, forall_eq_or_imp, forall_eq]
    exact ⟨isPrefixOf_cons_eq_false (Ne.symm hc.2.2.2.2.1), isPrefixOf_cons_eq_false (Ne.symm hc.2.2.2.2.1),
      isPrefixOf_cons_eq_false (Ne.symm hc.2.2.2.2.2)⟩

theorem Bare.of_append {xs ys : List Char} (h : Bare (xs ++ ys)) : Bare xs := by
  induction xs with
  | nil => exact trivial
  | cons c xs ih =>
    refine ⟨h.1, fun mark hmark => Bool.eq_false_iff.2 fun hstarts => ?_, ih h.2.2⟩
    have hwhole := (List.isPrefixOf_iff_prefix.1 hstarts).trans (List.prefix_append _ ys)
    exact Bool.eq_false_iff.1 (h.2.1 mark hmark) (List.isPrefixOf_iff_prefix.2 hwhole)

theorem bare_of_infix {cs : List Char} (hquotes : ∀ mark ∈ ['"', '\x27', '\x60'], mark ∉ cs)
    (hcomments : ∀ mark ∈ [['#'], ['/', '/'], ['/', '*'], ['-', '-']], ¬mark <:+: cs) : Bare cs := by
  induction cs with
  | nil => exact trivial
  | cons c rest ih =>
    have hrest := ih (fun mark hmark hmem => hquotes mark hmark (List.mem_cons_of_mem c hmem))
      (fun mark hmark hinfix => hcomments mark hmark (List.infix_cons hinfix))
    have hstarts {mark : List Char} (hmark : mark ∈ [['#'], ['/', '/'], ['/', '*'], ['-', '-']]) :
        mark.isPrefixOf (c :: rest) = false :=
      Bool.eq_false_iff.2 fun h => hcomments mark hmark (List.isPrefixOf_iff_prefix.1 h).isInfix
    refine ⟨?_, fun mark hmark => hstarts (List.mem_cons_of_mem _ hmark), hrest⟩
    have hhash : c ≠ '#' := by
      rintro rfl
      exact absurd (hstarts List.mem_cons_self) (by simp [List.isPrefixOf])
    have hquote (mark : Char) (hmark : mark ∈ ['"', '\x27', '\x60']) : c ≠ mark := by
      rintro rfl
      exact hquotes c hmark List.mem_cons_self
    simp [hhash, hquote '"' (by decide), hquote '\x27' (by decide), hquote '\x60' (by decide)]

end Scanner

namespace LineShape

theorem isSome_closer? (word : String) (xs ys : List Char) : (closer? word xs).isSome = (closer? word ys).isSome := by
  by_cases h : word = "END"
  · rw [closer?, closer?, if_pos h, if_pos h, Option.isSome_some, Option.isSome_some]
  · rw [closer?_of_ne_end h xs ys]

theorem ne_plain_of_closer? {word : String} {cs : List Char} {shape : LineShape} (h : closer? word cs = some shape) :
    shape ≠ .plain := by
  unfold closer? at h
  split_ifs at h
  · cases h
    exact nofun
  · cases h
    exact nofun
  · obtain ⟨kind, -, rfl⟩ := Option.map_eq_some_iff.1 h
    exact nofun

end LineShape

namespace Assignment

/-- The line. -/
def line (a : Assignment) : List Char := a.lead ++ (a.name ++ ' ' :: '=' :: ' ' :: a.value)

/-- The line without the blanks on either side. -/
def code (a : Assignment) : List Char := a.name ++ ' ' :: '=' :: trimEnd (' ' :: a.value)

/-- The value as it is assigned, without blanks and the semicolons at its end. -/
def assigned (a : Assignment) : List Char := Statement.strip (trimEnd a.value)

theorem name_spec (a : Assignment) : ∃ c rest, a.name = c :: rest ∧ isNameStart c = true ∧
    ∀ d ∈ a.name, isWordChar d = true := Phrase.isName_spec a.named

theorem visible_name (a : Assignment) : Visible a.name := by
  obtain ⟨c, rest, hname, -, hword⟩ := a.name_spec
  obtain ⟨front, last, hlast⟩ := (List.eq_nil_or_concat' a.name).resolve_left (by rw [hname]; exact List.cons_ne_nil c rest)
  exact ⟨⟨c, rest, hname, isSpace_of_isWordChar (hword c (by simp [hname]))⟩,
    ⟨front, last, hlast, isSpace_of_isWordChar (hword last (by simp [hlast]))⟩⟩

/-- The first word of what begins with the name and a blank is the name. -/
theorem splitWord_name_append (a : Assignment) (cs : List Char) :
    splitWord (a.name ++ ' ' :: cs) = (a.name, ' ' :: cs) := by
  obtain ⟨c, rest, hname, hc⟩ := a.visible_name.head
  obtain ⟨-, -, -, -, hword⟩ := a.name_spec
  have hstart : trimStart (a.name ++ ' ' :: cs) = a.name ++ ' ' :: cs := by
    rw [hname]
    exact trimStart_cons_of_visible hc _
  rw [splitWord, hstart, takeWhile_word hword (by decide), List.dropWhile_append_of_pos hword,
    List.dropWhile_cons_of_neg (by decide)]

theorem exists_code_eq (a : Assignment) :
    (isBlank a.value = true ∧ a.code = a.name ++ [' ', '=']) ∨
      ∃ lead x ends, a.value = lead ++ (x ++ ends) ∧ isBlank lead = true ∧ Visible x ∧ isBlank ends = true ∧
        a.code = a.name ++ ' ' :: '=' :: ' ' :: (lead ++ x) := by
  cases hblank : isBlank a.value with
  | true =>
    have hend : trimEnd (' ' :: a.value) = [] := @trimEnd_append_blank (' ' :: a.value) hblank []
    exact .inl ⟨rfl, by rw [code, hend]⟩
  | false =>
    obtain ⟨lead, x, ends, hvalue, hlead, hx, hends⟩ := exists_visible hblank
    obtain ⟨front, last, hlast, hspace⟩ := hx.last
    refine .inr ⟨lead, x, ends, hvalue, hlead, hx, hends, ?_⟩
    have hend : trimEnd (' ' :: (lead ++ x)) = ' ' :: (lead ++ x) := by
      rw [hlast, ← List.cons_append, ← List.append_assoc, trimEnd, dropEndWhile_append_cons hspace]
      rfl
    rw [code, hvalue, ← List.append_assoc, ← List.cons_append, trimEnd_append_blank hends, hend]

theorem visible_code (a : Assignment) : Visible a.code := by
  have hhead : ∃ d cs, a.code = d :: cs ∧ isSpace d = false := by
    obtain ⟨c, rest, hname, hc⟩ := a.visible_name.head
    exact ⟨c, _, by rw [code, hname, List.cons_append], hc⟩
  rcases a.exists_code_eq with ⟨-, hcode⟩ | ⟨lead, x, ends, -, -, hx, -, hcode⟩
  · exact ⟨hhead, a.name ++ [' '], '=', by rw [hcode]; simp, by decide⟩
  · obtain ⟨front, last, hlast, hspace⟩ := hx.last
    exact ⟨hhead, a.name ++ ' ' :: '=' :: ' ' :: (lead ++ front), last, by rw [hcode, hlast]; simp, hspace⟩

theorem trim_line (a : Assignment) : trim a.line = a.code := by
  have hends : ∃ ends, a.line = a.lead ++ (a.code ++ ends) ∧ isBlank ends = true := by
    obtain ⟨ends, hends, hblank⟩ := exists_dropEndWhile isSpace (' ' :: a.value)
    refine ⟨ends, ?_, List.all_eq_true.2 hblank⟩
    rw [line, hends, code, trimEnd]
    simp
  obtain ⟨ends, hline, hblank⟩ := hends
  rw [hline, trim_visible a.visible_code a.indented hblank]

theorem endStyle_code (a : Assignment) : LineShape.endStyle a.code = .keyword := by
  rcases a.exists_code_eq with ⟨-, hcode⟩ | ⟨lead, x, ends, hvalue, hlead, hx, hends, hcode⟩
  · rw [hcode, LineShape.endStyle]
    simp
  · have hvalue' : trim a.value = x := by rw [hvalue, trim_visible hx hlead hends]
    have hlast := a.ends
    rw [hvalue'] at hlast
    have hx' : x ≠ [] := hx.ne_nil
    rw [hcode, show a.name ++ ' ' :: '=' :: ' ' :: (lead ++ x) = a.name ++ ' ' :: '=' :: ' ' :: lead ++ x by simp,
      LineShape.endStyle_append hx', LineShape.endStyle]
    split
    · next h => exact absurd h hlast.2
    · next h => exact absurd h hlast.1
    · rfl

/-! ## The role of the line -/

/-- The line is taken for one that closes a block, carries one on or opens one. -/
def isStructural (a : Assignment) : Bool :=
  let word := upper a.name
  (LineShape.closer? word []).isSome || LineShape.continuationWords.contains word ||
    (BlockKind.ofKeyword? word).isSome && !LineShape.isOneLiner word (trim a.line)

theorem splitWord_code (a : Assignment) : (splitWord a.code).1 = a.name := by
  rw [code, a.splitWord_name_append]

/-- What the scanner leaves of the line is the whole line. -/
theorem masked_line (a : Assignment) {s : Scanner} (hs : s.mode = .code) :
    (s.feed a.line).1.masked = dropLineEnds a.line := by
  obtain ⟨c, rest, hname, -, hword⟩ := a.name_spec
  have hfront : ∀ d ∈ a.lead ++ (a.name ++ [' ', '=', ' ']), d ∉ ['"', '\x27', '\x60', '#', '/', '-'] := by
    have hmarks : ∀ d ∈ ['"', '\x27', '\x60', '#', '/', '-'], isSpace d = false ∧ isWordChar d = false ∧
        d ∉ [' ', '=', ' '] := by
      simp only [List.forall_mem_cons, List.not_mem_nil, false_implies, implies_true]
      decide +kernel
    intro d hd hmark
    obtain ⟨hspace, hletter, hsign⟩ := hmarks d hmark
    rcases List.mem_append.1 hd with hd | hd
    · rw [List.all_eq_true.1 a.indented d hd] at hspace
      cases hspace
    · rcases List.mem_append.1 hd with hd | hd
      · rw [hword d hd] at hletter
        cases hletter
      · exact hsign hd
  have hline : a.line = a.lead ++ (a.name ++ [' ', '=', ' ']) ++ a.value := by simp [line]
  have hbare : Scanner.Bare a.line := by
    rw [hline]
    exact Scanner.bare_append hfront (Scanner.bare_of_infix a.unquoted a.uncommented)
  obtain ⟨ends, hends, -⟩ := exists_dropEndWhile (fun c => c == '\n' || c == '\r') a.line
  rw [hends] at hbare
  exact Scanner.masked_consume_bare (s := { s with line := s.line + 1 }) hs hbare.of_append none 1

/-- The first word is the name, or it is none since the name is a modifier. -/
theorem leadingWord_code (a : Assignment) : LineShape.leadingWord a.code = a.name ∨
    LineShape.leadingWord a.code = [] ∧ upper a.name ∈ LineShape.modifierWords := by
  by_cases hmodifier : ∃ name ∈ LineShape.modifiers, isWord name (a.name ++ [' ']) = true
  · obtain ⟨name, hname, hword⟩ := hmodifier
    let m : LineShape.Modifier := ⟨name, hname, a.name, hword, 0⟩
    have hfirst : (splitWord ('=' :: trimEnd (' ' :: a.value))).1 = [] := by
      rw [splitWord, trimStart_cons_of_visible (by decide), List.takeWhile_cons_of_neg (by decide)]
    have hrest : LineShape.Unmodified ('=' :: trimEnd (' ' :: a.value)) := by
      refine LineShape.unmodified_of_splitWord ?_
      rw [hfirst]
      decide
    have hleft : LineShape.left LineShape.modifiers [m] = [] :=
      (LineShape.left_eq_nil_iff _ _).2 (List.singleton_sublist.2 hname)
    have hleading := hrest.leadingWord_written [m]
    rw [hleft] at hleading
    have hcode : a.code = LineShape.written [m] ++ '=' :: trimEnd (' ' :: a.value) := by
      rw [LineShape.written_cons_append, m.text_append]
      rfl
    exact .inr ⟨by rw [hcode, hleading]; exact hfirst, m.letters_spec.2.2⟩
  · refine .inl ?_
    have hnone : ∀ name ∈ LineShape.modifiers, isWord name ((splitWord a.code).1 ++ [' ']) = false := by
      rw [a.splitWord_code]
      exact fun name hname => Bool.eq_false_iff.2 fun hword => hmodifier ⟨name, hname, hword⟩
    rw [(LineShape.unmodified_of_splitWord hnone).leadingWord_eq, a.splitWord_code]

theorem ofWord_code_eq_plain_iff (a : Assignment) :
    LineShape.ofWord (upper a.name) a.code = .plain ↔ a.isStructural = false := by
  have hstyle := a.endStyle_code
  unfold isStructural LineShape.ofWord
  rw [a.trim_line]
  dsimp only
  rw [LineShape.isSome_closer? _ [] a.code]
  cases hshape : LineShape.closer? (upper a.name) a.code with
  | some shape => simpa using LineShape.ne_plain_of_closer? hshape
  | none =>
    by_cases hcontinuation : upper a.name ∈ LineShape.continuationWords
    · simp [hcontinuation]
    · rw [LineShape.opener, hstyle]
      cases BlockKind.ofKeyword? (upper a.name) <;> cases LineShape.isOneLiner (upper a.name) a.code <;>
        simp [hcontinuation]

/-- The line is plain unless it is taken for a structural one. -/
theorem ofLine_eq_plain_iff (a : Assignment) {s : Scanner} (hs : s.mode = .code) :
    LineShape.ofLine (s.feed a.line).1.masked = .plain ↔ a.isStructural = false := by
  have htrim : trim (s.feed a.line).1.masked = a.code := by rw [a.masked_line hs, trim_dropLineEnds, a.trim_line]
  obtain ⟨c, rest, hname, hstart, hword⟩ := a.name_spec
  have hcons : trim (s.feed a.line).1.masked = c :: (rest ++ ' ' :: '=' :: trimEnd (' ' :: a.value)) := by
    rw [htrim, code, hname, List.cons_append]
  have hc : c ≠ '}' := by
    rintro rfl
    exact absurd hstart (by decide)
  rw [LineShape.ofLine_eq_ofWord hcons hc, htrim]
  rcases a.leadingWord_code with hleading | ⟨hleading, hmodifier⟩
  · rw [hleading]
    exact a.ofWord_code_eq_plain_iff
  · -- a modifier is no keyword
    rw [← a.ofWord_code_eq_plain_iff, LineShape.ofWord_modifier hmodifier, hleading]
    rw [show upper [] = "" from rfl, LineShape.ofWord_empty]

end Assignment

/-! ## What the line says -/

namespace Phrase

theorem mem_dropEndWhile {p : Char → Bool} {c : Char} {cs : List Char} (hc : c ∈ cs) (hp : p c = false) :
    c ∈ dropEndWhile p cs := by
  obtain ⟨ends, heq, hends⟩ := exists_dropEndWhile p cs
  rw [heq] at hc
  rcases List.mem_append.1 hc with hc | hc
  · exact hc
  · rw [hends c hc] at hp
    cases hp

theorem mem_trim {c : Char} {cs : List Char} (hc : c ∈ cs) (hspace : isSpace c = false) : c ∈ trim cs := by
  refine mem_dropEndWhile ?_ hspace
  rw [← List.takeWhile_append_dropWhile (p := isSpace) (l := cs)] at hc
  rcases List.mem_append.1 hc with hc | hc
  · rw [List.mem_takeWhile_imp hc] at hspace
    cases hspace
  · exact hc

/-- What has an equals sign in it cannot be assigned to. -/
theorem isTarget_of_mem {cs : List Char} (h : '=' ∈ cs) : isTarget (trim cs) = false := by
  have hbase : '=' ∈ trim (dropEndWhile isSign (trim cs)) :=
    mem_trim (mem_dropEndWhile (mem_trim h (by decide)) (by decide)) (by decide)
  have hall : (trim (dropEndWhile isSign (trim cs))).all isTargetChar = false := by
    rw [List.all_eq_false]
    exact ⟨'=', hbase, by decide⟩
  rw [isTarget, hall, Bool.false_and]

/-- A cut in front of a sign that is not in the first part of a text leaves the equals sign behind this part on its left. -/
theorem mem_of_cut {front y before after : List Char} {d : Char} (h : front ++ '=' :: y = before ++ d :: after)
    (hd : d ∉ front) (hne : d ≠ '=') : '=' ∈ before := by
  rcases List.append_eq_append_iff.1 h with ⟨more, rfl, hmore⟩ | ⟨more, rfl, hmore⟩
  · cases more with
    | nil => exact absurd (List.cons.inj hmore).1.symm hne
    | cons e more =>
      rw [(List.cons.inj hmore).1]
      simp
  · cases more with
    | nil => exact absurd (List.cons.inj hmore).1 hne
    | cons e more =>
      rw [(List.cons.inj hmore).1] at hd
      exact absurd (by simp) hd

/-- A word that is looked for in a name with a blank behind it is found as in the name alone, if it is found there. -/
theorem splitAtFrom_word {keyword v : List Char} (hletters : ' ' ∉ keyword) (hv : ∀ c ∈ v, isWordChar c = true)
    (prev : Option Char) (rest : List Char) :
    (∃ before behind, splitAtFrom keyword none prev v = some (before, behind) ∧
      splitAtFrom keyword none prev (v ++ ' ' :: rest) = some (before, behind ++ ' ' :: rest)) ∨
      (splitAtFrom keyword none prev v = none ∧
        ∃ last, splitAtFrom keyword none prev (v ++ ' ' :: rest) =
          (splitAtFrom keyword none last (' ' :: rest)).map fun r => (v ++ r.1, r.2)) := by
  induction v generalizing prev with
  | nil => exact .inr ⟨rfl, prev, by simp⟩
  | cons c v ih =>
    have hmark : (c == '"' || c == '\x27') = false := Expression.isQuote_of_isWordChar (hv c List.mem_cons_self)
    have onward : (∃ before behind,
        (splitAtFrom keyword none (some c) v).map (fun r => (c :: r.1, r.2)) = some (before, behind) ∧
          (splitAtFrom keyword none (some c) (v ++ ' ' :: rest)).map (fun r => (c :: r.1, r.2)) =
            some (before, behind ++ ' ' :: rest)) ∨
        ((splitAtFrom keyword none (some c) v).map (fun r => (c :: r.1, r.2)) = none ∧
          ∃ last, (splitAtFrom keyword none (some c) (v ++ ' ' :: rest)).map (fun r => (c :: r.1, r.2)) =
            (splitAtFrom keyword none last (' ' :: rest)).map fun r => (c :: v ++ r.1, r.2)) := by
      rcases ih (fun d hd => hv d (List.mem_cons_of_mem c hd)) (some c) with
        ⟨before, behind, halone, hwhole⟩ | ⟨halone, last, hwhole⟩
      · exact .inl ⟨c :: before, behind, by rw [halone]; rfl, by rw [hwhole]; rfl⟩
      · refine .inr ⟨by rw [halone]; rfl, last, ?_⟩
        rw [hwhole, Option.map_map]
        rfl
    rw [List.cons_append, splitAtFrom, splitAtFrom]
    dsimp only
    rw [hmark, ← List.cons_append]
    simp only [Bool.false_eq_true, if_false]
    rcases Nat.lt_or_ge (c :: v).length keyword.length with hlong | hshort
    · -- the word is too long to stand in front of the blank
      have hno : (((c :: v).take keyword.length).map Char.toUpper == keyword) = false := by
        rw [beq_eq_false_iff_ne]
        intro h
        have hlength := congrArg List.length h
        rw [List.length_map, List.length_take] at hlength
        omega
      have hno' : (((c :: v ++ ' ' :: rest).take keyword.length).map Char.toUpper == keyword) = false := by
        rw [beq_eq_false_iff_ne]
        intro h
        obtain ⟨k, hk⟩ := Nat.exists_eq_add_of_lt hlong
        rw [hk, Nat.add_assoc, List.take_append, List.take_of_length_le (by omega), Nat.add_sub_cancel_left,
          List.take_succ_cons] at h
        exact hletters (by rw [← h]; simp)
      rw [hno, hno']
      exact onward
    · have hedge : ((c :: v ++ ' ' :: rest).drop keyword.length).head?.any isAsciiWordChar =
          ((c :: v).drop keyword.length).head?.any isAsciiWordChar := by
        rw [List.drop_append_of_le_length hshort]
        cases (c :: v).drop keyword.length <;> rfl
      rw [List.take_append_of_le_length hshort, hedge]
      split
      · exact .inl ⟨[], _, rfl, by rw [List.drop_append_of_le_length hshort]⟩
      · exact onward

theorem splitAtEquals_append {front : List Char} (hfront : '=' ∉ front) (before rest : List Char) :
    splitAtEquals before (front ++ rest) = splitAtEquals (front.reverse ++ before) rest := by
  induction front generalizing before with
  | nil => rfl
  | cons c front ih =>
    obtain ⟨hc, hfront⟩ := not_or.1 (mt List.mem_cons.2 hfront)
    have hskip : (c == '=') = false := beq_eq_false_iff_ne.2 (Ne.symm hc)
    rw [List.cons_append, splitAtEquals, hskip, ih hfront]
    simp

/-- None of the sides has a target. -/
def NoTarget (sides : Option (List Char × List Char)) : Prop := ∀ r ∈ sides, r.1 = [] ∨ '=' ∈ r.1

theorem NoTarget.assignment? {sides : Option (List Char × List Char)} (h : NoTarget sides) :
    assignment? sides = none := by
  cases sides with
  | none => rfl
  | some r =>
    have hno : isTarget (trim r.1) = false := by
      rcases h r rfl with hnil | hmem
      · rw [hnil]
        decide
      · exact isTarget_of_mem hmem
    rw [Phrase.assignment?]
    simp [hno]

theorem splitAtFrom_cons {keyword : List Char} {k c : Char} (hquote : (c == '"' || c == '\x27') = false)
    (hc : c.toUpper ≠ k) (prev : Option Char) (cs : List Char) : splitAtFrom (k :: keyword) none prev (c :: cs) =
      (splitAtFrom (k :: keyword) none (some c) cs).map fun r => (c :: r.1, r.2) := by
  have hno : (((c :: cs).take (k :: keyword).length).map Char.toUpper == k :: keyword) = false := by
    rw [beq_eq_false_iff_ne, List.length_cons, List.take_succ_cons, List.map_cons]
    exact fun h => hc (List.cons.inj h).1
  rw [splitAtFrom]
  dsimp only
  rw [hquote, hno]
  simp

/-- `TO` behind an equals sign has this sign on its left. -/
theorem mem_splitAtFrom_equals (prev : Option Char) (y : List Char) :
    ∀ r ∈ splitAtFrom "TO".toList none prev ('=' :: y), '=' ∈ r.1 := by
  rw [show "TO".toList = ['T', 'O'] from rfl, splitAtFrom_cons (by decide) (by decide)]
  rintro r hr
  obtain ⟨s, -, rfl⟩ := Option.map_eq_some_iff.1 hr
  exact List.mem_cons_self

/-- In front of an equals sign `TO` leaves nothing on its left unless it does so in the name there. -/
theorem noTarget_splitAt? {v : List Char} (hv : ∀ c ∈ v, isWordChar c = true)
    (hto : ∀ r ∈ splitAt? "TO" v, r.1 = []) (y : List Char) : NoTarget (splitAt? "TO" (v ++ [' '] ++ '=' :: y)) := by
  intro r hr
  rw [List.append_assoc, List.singleton_append] at hr
  rcases @splitAtFrom_word "TO".toList v (by decide) hv none ('=' :: y) with
    ⟨before, behind, halone, hwhole⟩ | ⟨-, last, hwhole⟩
  · obtain rfl : (before, behind ++ ' ' :: '=' :: y) = r := Option.some.inj (hwhole.symm.trans hr)
    exact .inl (hto (before, behind) halone)
  · rw [splitAt?, hwhole, show "TO".toList = ['T', 'O'] from rfl, splitAtFrom_cons (by decide) (by decide),
      Option.map_map] at hr
    obtain ⟨s, hs, rfl⟩ := Option.map_eq_some_iff.1 hr
    have hmem := mem_splitAtFrom_equals (some ' ') y s hs
    exact .inr (by simp [hmem])

theorem splitAssignment?_eq {cs front y : List Char} (htrim : trim cs = front ++ '=' :: y)
    (hfront : ∀ mark ∈ ['=', '<', '←', ':'], mark ∉ front) (hlast : ¬front.getLast?.any ['=', '!', '<', '>'].contains)
    (hy : y.head? ≠ some '=') (hto : NoTarget (splitAt? "TO" (front ++ '=' :: y))) :
    splitAssignment? cs = assignment? (some (front, y)) := by
  have hcut {mark : List Char} {d : Char} (hd : d ∈ ['<', '←', ':']) :
      NoTarget (cutAt (d :: mark) (front ++ '=' :: y)) := by
    rintro ⟨before, after⟩ hr
    have heq := cutAt_eq_some hr
    rw [List.append_assoc, List.cons_append] at heq
    refine .inr (mem_of_cut heq (hfront d (List.mem_cons_of_mem _ hd)) ?_)
    rintro rfl
    exact absurd hd (by decide)
  have hequals : splitAtEquals [] (front ++ '=' :: y) = some (front, y) := by
    rw [splitAtEquals_append (hfront '=' (by decide)), splitAtEquals, List.append_nil, List.head?_reverse]
    simp [hlast, hy]
  rw [splitAssignment?, htrim, hto.assignment?, (hcut (by decide)).assignment?, (hcut (by decide)).assignment?,
    (hcut (by decide)).assignment?, hequals]
  simp

end Phrase

namespace Statement

/-- The first words that make a line another statement than an assignment to this word. -/
def words : List String :=
  ["RETURN", "PRINT", "OUTPUT", "DISPLAY", "WRITE", "PRINTLN", "SET", "LET", "ASSIGN", "INCREMENT", "DECREMENT", "CALL",
    "INPUT", "READ", "BREAK", "CONTINUE", "PASS", "THROW", "RAISE"]

theorem ofCode_of_notMem_words {code : List Char} (h : upper (splitWord code).1 ∉ words) : ofCode code = ofForm code := by
  unfold ofCode
  dsimp only
  split
  all_goals first
    | rfl
    | next heq => exact absurd (by rw [heq]; decide) h

/-- A line whose first word is such a word assigns to nothing, unless something is assigned behind `SET`, `LET` or
`ASSIGN`. -/
theorem ofCode_ne_assign {code : List Char} (h : upper (splitWord code).1 ∈ words)
    (htail : Phrase.splitAssignment? (splitWord code).2 = none) (target value : List Char) :
    ofCode code ≠ .assign target value := by
  unfold ofCode
  dsimp only
  rw [htail]
  intro hassign
  split at hassign
  -- only what counts up or down and the default look further
  all_goals first
    | cases hassign
    | split at hassign <;> cases hassign
    | simp_all [words]

end Statement

namespace Assignment

/-- `TO` stands in the name like a word of its own, beside letters that are not ASCII. -/
def isCut (a : Assignment) : Bool := (Phrase.splitAt? "TO" a.name).any fun r => !r.1.isEmpty

theorem trimEnd_trimEnd (cs : List Char) : trimEnd (trimEnd cs) = trimEnd cs := by
  obtain ⟨ends, heq, hends⟩ := exists_dropEndWhile isSpace cs
  conv => rhs; rw [heq, trimEnd_append_blank (List.all_eq_true.2 hends)]
  rfl

theorem trim_tail (a : Assignment) :
    trim (trimEnd (dropEndWhile (· == ';') (trimEnd (' ' :: a.value)))) = a.assigned := by
  have htrim (cs : List Char) : trim (trimEnd cs) = trim cs := by
    obtain ⟨ends, heq, hends⟩ := exists_dropEndWhile isSpace cs
    conv => rhs; rw [heq, trim_append_blank (List.all_eq_true.2 hends)]
    rfl
  rw [htrim, assigned, Statement.strip]
  by_cases hvalue : trimEnd a.value = []
  · rw [trimEnd_cons, if_pos ⟨hvalue, rfl⟩, hvalue]
  · rw [trimEnd_cons_of_ne_nil hvalue,
      show dropEndWhile (· == ';') (' ' :: trimEnd a.value) = ' ' :: dropEndWhile (· == ';') (trimEnd a.value) from
        dropEndWhile_append_cons (by decide) [] _,
      trim, trimStart_cons_of_blank (by decide)]
    rfl

theorem trim_name_append (a : Assignment) {d : Char} (hd : isSpace d = false) (cs : List Char) :
    trim (a.name ++ [' '] ++ d :: cs) = a.name ++ [' '] ++ d :: trimEnd cs := by
  obtain ⟨c, rest, hname, hc⟩ := a.visible_name.head
  rw [hname, trim, List.cons_append, List.cons_append, trimStart_cons_of_visible hc, ← List.cons_append, ← List.cons_append,
    trimEnd, dropEndWhile_append_cons hd]
  rfl

/-- What is left of the line for a statement. -/
theorem strip_code (a : Assignment) : ∃ y, Statement.strip a.code = a.name ++ [' '] ++ '=' :: y ∧ y.head? ≠ some '=' ∧
    trimEnd y = y ∧ trim y = a.assigned := by
  refine ⟨_, ?_, ?_, trimEnd_trimEnd _, a.trim_tail⟩
  · have hcode : a.code = a.name ++ [' '] ++ '=' :: trimEnd (' ' :: a.value) := by simp [code]
    rw [Statement.strip, hcode, dropEndWhile_append_cons (by decide), a.trim_name_append (by decide)]
  · have hstarts : trimEnd (dropEndWhile (· == ';') (trimEnd (' ' :: a.value))) <+: ' ' :: a.value := by
      obtain ⟨ends, heq, -⟩ := exists_dropEndWhile (· == ';') (trimEnd (' ' :: a.value))
      exact ( trimEnd_prefix _).trans (List.IsPrefix.trans ⟨ends, heq.symm⟩ ( trimEnd_prefix _))
    intro hhead
    obtain ⟨rest, hrest⟩ := List.head?_eq_some_iff.1 hhead
    rw [hrest] at hstarts
    exact absurd (List.cons_prefix_cons.1 hstarts).1 (by decide)

theorem dropEndWhile_isSign_name (a : Assignment) : dropEndWhile Phrase.isSign a.name = a.name := by
  obtain ⟨-, -, -, -, hword⟩ := a.name_spec
  obtain ⟨front, last, hlast, -⟩ := a.visible_name.last
  have hsigns : ∀ c ∈ ['+', '-', '*', '/'], isWordChar c = false := by
    simp only [List.forall_mem_cons, List.not_mem_nil, false_implies, implies_true]
    decide +kernel
  have hsign : Phrase.isSign last = false := by
    refine Bool.eq_false_iff.2 fun h => ?_
    have hno := hsigns last (List.contains_iff_mem.1 h)
    rw [hword last (by simp [hlast])] at hno
    cases hno
  rw [hlast, dropEndWhile_append_cons hsign]
  rfl

theorem trim_name (a : Assignment) : trim a.name = a.name := by
  simpa using @trim_visible _ a.visible_name [] [] rfl rfl

/-- The name can be assigned to. -/
theorem assignment?_name (a : Assignment) (y : List Char) :
    Phrase.assignment? (some (a.name ++ [' '], y)) = some (a.name, trim y) := by
  obtain ⟨c, rest, hname, hstart, hword⟩ := a.name_spec
  have htrim : trim (a.name ++ [' ']) = a.name := @trim_visible _ a.visible_name [] [' '] rfl (by decide)
  have hchars : a.name.all Phrase.isTargetChar = true := by
    refine List.all_eq_true.2 fun d hd => ?_
    have hd := hword d hd
    unfold isWordChar at hd
    unfold Phrase.isTargetChar
    rcases Bool.or_eq_true_iff.1 hd with hd | hd
    · rw [hd, Bool.true_or]
    · rw [eq_of_beq hd]
      decide
  have htarget : Phrase.isTarget a.name = true := by
    rw [Phrase.isTarget, a.dropEndWhile_isSign_name, a.trim_name, hchars, hname]
    simpa using hstart
  rw [Phrase.assignment?]
  simp [htrim, htarget]

/-- The line says that something is assigned to the name, unless its first word is that of another statement. -/
theorem ofCode_eq_assign_iff (a : Assignment) (h : a.isCut = false) :
    Statement.ofCode (Statement.strip a.code) = .assign a.name a.assigned ↔ upper a.name ∉ Statement.words := by
  obtain ⟨y, hstrip, hhead, hend, hy⟩ := a.strip_code
  obtain ⟨-, -, -, -, hword⟩ := a.name_spec
  have hsplit : splitWord (a.name ++ [' '] ++ '=' :: y) = (a.name, ' ' :: '=' :: y) := by
    rw [List.append_assoc]
    exact a.splitWord_name_append _
  rw [hstrip]
  constructor
  · intro hassign hmem
    have htail : Phrase.splitAssignment? (' ' :: '=' :: y) = none := by
      have htrim : trim (' ' :: '=' :: y) = [] ++ '=' :: y := by
        rw [trim, trimStart_cons_of_blank (by decide), trimStart_cons_of_visible (by decide),
          trimEnd_cons_of_visible (by decide), hend]
        rfl
      rw [Phrase.splitAssignment?_eq htrim (by simp) (by simp) hhead fun r hr =>
        .inr (Phrase.mem_splitAtFrom_equals none _ r hr)]
      rfl
    exact Statement.ofCode_ne_assign (by rwa [hsplit]) (by rwa [hsplit]) _ _ hassign
  · intro hmem
    have hcut : ∀ r ∈ Phrase.splitAt? "TO" a.name, r.1 = [] := by
      intro r hr
      rw [isCut, hr] at h
      simpa using h
    have htrim := a.trim_name_append (d := '=') (by decide) y
    rw [hend] at htrim
    have hmarks : ∀ mark ∈ ['=', '<', '←', ':'], mark ∉ a.name ++ [' '] := by
      have hnone : ∀ mark ∈ ['=', '<', '←', ':'], isWordChar mark = false ∧ mark ≠ ' ' := by
        simp only [List.forall_mem_cons, List.not_mem_nil, false_implies, implies_true]
        decide +kernel
      intro mark hmark hmem
      obtain ⟨hletter, hspace⟩ := hnone mark hmark
      rcases List.mem_append.1 hmem with hmem | hmem
      · rw [hword mark hmem] at hletter
        cases hletter
      · exact hspace (List.mem_singleton.1 hmem)
    rw [Statement.ofCode_of_notMem_words (by rwa [hsplit]), Statement.ofForm,
      Phrase.splitAssignment?_eq htrim hmarks (by simp) hhead (Phrase.noTarget_splitAt? hword hcut y), a.assignment?_name, hy]

/-! ## What is written -/

/-- The line of code, with `let` where the name is new. -/
def emitted (a : Assignment) (t : Target) (isNew : Bool) : List Char :=
  (if isNew then "let ".toList else []) ++ a.name ++ " = ".toList ++ Expression.render t a.assigned ++ t.terminator

theorem trimEnd_name (a : Assignment) : trimEnd (dropEndWhile Phrase.isSign a.name) = a.name := by
  obtain ⟨front, last, hlast, hspace⟩ := a.visible_name.last
  rw [a.dropEndWhile_isSign_name, hlast, trimEnd, dropEndWhile_append_cons hspace]
  rfl

theorem statement_assign (a : Assignment) (t : Target) (declares : Bool) :
    Form.statement t declares (.assign a.name a.assigned) = some (a.emitted t declares) := by
  rw [Form.statement, Form.assignment, a.trimEnd_name, emitted]
  cases declares <;> simp

theorem newName?_assign (a : Assignment) : Form.newName? (.assign a.name a.assigned) = some a.name := by
  rw [Form.newName?, a.trimEnd_name]
  simp [a.named]

/-- The name is new to an emitter that writes declarations. -/
def isNew (a : Assignment) (e : Emitter) : Bool :=
  e.target = .javascript && !e.declared.contains (String.ofList a.name)

theorem plain_code (a : Assignment) (hcut : a.isCut = false) (hword : upper a.name ∉ Statement.words) (e : Emitter) :
    ∃ names, e.plain a.code = (true, (e.declare names).statement (a.emitted e.target (a.isNew e))) := by
  have hnew : (if e.target = .javascript then
      ((Form.newName? (.assign a.name a.assigned)).map String.ofList).filter (!e.declared.contains ·) else none).isSome =
        a.isNew e := by
    rw [a.newName?_assign, isNew, Option.map_some, Option.filter_some]
    by_cases htarget : e.target = .javascript <;> cases e.declared.contains (String.ofList a.name) <;> simp [htarget]
  unfold Emitter.plain
  dsimp only
  rw [(a.ofCode_eq_assign_iff hcut).2 hword, hnew, a.statement_assign]
  exact ⟨_, rfl⟩

theorem isBlank_line (a : Assignment) : isBlank a.line = false :=
  Bool.eq_false_iff.2 fun h => a.visible_code.ne_nil (a.trim_line.symm.trans (trim_eq_nil h))

/-- A plain line that assigns is recognized, and the assignment is what it writes last. -/
theorem feed_line (a : Assignment) (hplain : a.isStructural = false) (hcut : a.isCut = false)
    (hword : upper a.name ∉ Statement.words) {p : Generation.Progress} (hcode : p.scanner.mode = .code) :
    (p.feed a.line).recognized = p.recognized + 1 ∧ (p.feed a.line).unrecognized = p.unrecognized ∧ ∃ blanks,
      p.emitter.WritesLast (p.feed a.line).emitter
        (List.replicate blanks ' ' ++ a.emitted p.emitter.target (a.isNew p.emitter)) := by
  have hshape := (a.ofLine_eq_plain_iff hcode).2 hplain
  have htrim : trim (p.scanner.feed a.line).1.masked = a.code := by
    rw [a.masked_line hcode, trim_dropLineEnds, a.trim_line]
  have hcodeOf : FrameStep.codeOf (p.scanner.feed a.line).1 a.line = a.code := by
    rw [FrameStep.codeOf, htrim, a.trim_line, List.take_length]
  have hline : ∃ names, p.emitter.line (p.scanner.feed a.line).1 a.line =
      (true, ((p.emitter.dedent (p.scanner.feed a.line).1.indent false).declare names).statement
        (a.emitted p.emitter.target (a.isNew p.emitter))) := by
    cases p.emitter.lineCase (p.scanner.feed a.line).1 a.line with
    | comment hempty _ => exact absurd (htrim.symm.trans hempty) a.visible_code.ne_nil
    | plain _ _ heq =>
      obtain ⟨names, hnames⟩ := a.plain_code hcut hword (p.emitter.dedent (p.scanner.feed a.line).1.indent false)
      rw [isNew, Emitter.target_dedent, Emitter.declared_dedent, ← isNew] at hnames
      exact ⟨names, by rw [heq, hcodeOf, hnames]⟩
    | continues _ shape | opens _ _ shape | closes _ _ shape =>
      rw [hshape] at shape
      cases shape
  obtain ⟨names, hnames⟩ := hline
  have hfeed : (p.feed a.line).emitter =
      ((p.emitter.dedent (p.scanner.feed a.line).1.indent false).declare names).statement
        (a.emitted p.emitter.target (a.isNew p.emitter)) := by
    rw [Generation.Progress.emitter_feed_line hcode a.isBlank_line, hnames]
  have hcounts : (p.feed a.line).recognized = p.recognized + 1 ∧ (p.feed a.line).unrecognized = p.unrecognized := by
    unfold Generation.Progress.feed
    dsimp only
    rw [Scanner.startsInLiteral_of_code hcode, a.isBlank_line, hnames]
    exact ⟨rfl, rfl⟩
  have hextends := (Emitter.extends_popMany _ p.emitter).trans
    (Emitter.extends_declare (p.emitter.dedent (p.scanner.feed a.line).1.indent false) names)
  have hwrites := Emitter.writesLast_statement hextends (a.emitted p.emitter.target (a.isNew p.emitter))
  rw [← hfeed] at hwrites
  exact ⟨hcounts.1, hcounts.2, _, hwrites⟩

/-- The line is written as an assignment in the code of every source that it is a line of, and counts as recognized. -/
def IsWritten (a : Assignment) : Prop :=
  ∀ (target : Target) (width : Nat) (setting : Generation.Setting) (source : List Char) (before after : List (List Char)),
    Text.lines source = before ++ a.line :: after →
      let p := before.foldl Generation.Progress.feed (Generation.begin target width setting)
      p.scanner.mode = .code → (p.feed a.line).recognized = p.recognized + 1 ∧
        (p.feed a.line).unrecognized = p.unrecognized ∧ ∃ front blanks behind,
          (Generation.ofSource target width setting source).code = Generation.joinLines
            (front ++ (List.replicate blanks ' ' ++ a.emitted target (a.isNew p.emitter)) :: behind)

theorem isWritten (a : Assignment) (hplain : a.isStructural = false) (hcut : a.isCut = false)
    (hword : upper a.name ∉ Statement.words) : a.IsWritten := by
  intro target width setting source before after hlines p hcode
  obtain ⟨hrecognized, hunrecognized, blanks, out, hbefore, hout⟩ := a.feed_line hplain hcut hword hcode
  have htarget : p.emitter.target = target :=
    (Generation.Progress.extends_foldl (Generation.begin target width setting) before).target
  have hsplit : Text.lines source = (before ++ [a.line]) ++ after := by rw [hlines]; simp
  obtain ⟨behind, hwhole⟩ := Generation.exists_code target width setting hsplit
  refine ⟨hrecognized, hunrecognized, out, blanks, behind, ?_⟩
  rw [hwhole, List.foldl_append, List.foldl_cons, List.foldl_nil, hout, htarget]
  simp

/-- The line is a statement wherever it stands in code. -/
structure IsStatement (a : Assignment) : Prop where
  shape : ∀ s : Scanner, s.mode = .code →
    (LineShape.ofLine (s.feed a.line).1.masked = .plain ↔ a.isStructural = false)
  /-- a plain line ends indented blocks and does nothing else to the blocks that are open -/
  nesting : a.isStructural = false → ∀ (s : Scanner) (n : Nesting), s.mode = .code →
    n.feed (s.feed a.line).1 a.line =
      { n.dedent (s.feed a.line).1.indent false with lastCode := (s.feed a.line).1.number }
  /-- it assigns unless its first word is that of another statement -/
  statement : a.isCut = false →
    (Statement.ofCode (Statement.strip a.code) = .assign a.name a.assigned ↔ upper a.name ∉ Statement.words)
  written : a.isStructural = false → a.isCut = false → upper a.name ∉ Statement.words → a.IsWritten

/-- A name, an equals sign and a value are a plain line exactly if the name is no structural keyword, and assign to the name
exactly if it is not the first word of another statement. -/
theorem isStatement_unless_keyword (a : Assignment) : a.IsStatement where
  shape s hs := a.ofLine_eq_plain_iff hs
  nesting hplain s n hs := by
    have hshape := (a.ofLine_eq_plain_iff hs).2 hplain
    have hmasked : (s.feed a.line).1.isBlank = false := by
      have htrim : trim (s.feed a.line).1.masked = a.code := by rw [a.masked_line hs, trim_dropLineEnds, a.trim_line]
      rw [ScannedLine.isBlank, Bool.and_eq_false_iff]
      exact .inr (Bool.eq_false_iff.2 fun h => a.visible_code.ne_nil (htrim.symm.trans (trim_eq_nil h)))
    rw [Nesting.feed, Scanner.startsInLiteral_of_code hs, hmasked, hshape]
    rfl
  statement := a.ofCode_eq_assign_iff
  written := a.isWritten

/-- A name that is no keyword. -/
theorem isStatement_count : ∃ a : Assignment, a.line = "  count = a + 1;".toList ∧ a.isStructural = false ∧
    a.isCut = false ∧ upper a.name ∉ Statement.words ∧ a.emitted .javascript true = "let count = a + 1;".toList ∧
      a.IsStatement :=
  ⟨⟨"  ".toList, "count".toList, "a + 1;".toList, by decide, by decide +kernel, by simp, by decide, by decide⟩,
    by decide +kernel, by decide +kernel, by decide +kernel, by decide +kernel, by decide +kernel,
    isStatement_unless_keyword _⟩

/-- A name that is a keyword closes a loop instead, and nothing is assigned to it. -/
theorem keyword_closes_loop : ∃ a : Assignment, a.line = "next = 1".toList ∧
    (∀ s : Scanner, s.mode = .code → LineShape.ofLine (s.feed a.line).1.masked = .closes (some .loop) .keyword) ∧
    Outline.boundaries "WHILE c\nnext = 1\nEND WHILE\n".toList = [⟨.loop, 1, 2⟩] ∧
    (Generation.ofSource .javascript 4 {} "WHILE c\nnext = 1\nEND WHILE\n".toList).code =
      "while (c) \x7b\n\x7d\n".toList := by
  refine ⟨⟨[], "next".toList, ['1'], rfl, by decide +kernel, by simp, by decide, by decide⟩, rfl, fun s hs => ?_,
    by decide +kernel, by decide +kernel⟩
  rw [masked_line _ hs]
  decide +kernel

end Assignment

end Pseudoscribe
