import Pseudoscribe.Proofs.Code.Parts
import Pseudoscribe.Proofs.Code.Quotes
import Pseudoscribe.Proofs.Scan.Literals

/-!
# Where the literals of a line go

What a line says is cut out of it at blanks, keywords and signs of assignment.  A literal that stands in the line with
nothing open in front of it goes whole into one of the pieces, provided the pieces in front have nothing open at their
ends; and from the piece it goes into the line of code as it is.
-/

namespace Pseudoscribe

/-- A text is not touched by a cut behind it that does not have its last character. -/
theorem Text.exists_behind_of_append {front back before text behind : List Char}
    (hlast : ∃ cs c, text = cs ++ [c] ∧ c ∉ back) (h : front ++ back = before ++ (text ++ behind)) :
    ∃ rest, front = before ++ (text ++ rest) := by
  obtain ⟨cs, c, rfl, hc⟩ := hlast
  have hsplit : front ++ back = (before ++ cs ++ [c]) ++ behind := by simpa using h
  rcases List.append_eq_append_iff.1 hsplit with ⟨more, hmore, hback⟩ | ⟨more, rfl, -⟩
  · rcases List.eq_nil_or_concat more with rfl | ⟨es, e, rfl⟩
    · exact ⟨[], by simpa using hmore.symm⟩
    · rw [List.concat_eq_append, ← List.append_assoc] at hmore
      cases List.append_inj_right' hmore rfl
      exact absurd (by rw [hback]; simp) hc
  · exact ⟨more, by simp⟩

namespace Expression

open Text

/-- The marks with which literals begin. -/
def isMark (c : Char) : Bool := isQuote c || c == '\x60'

theorem isMark_of_isWordChar {c : Char} (h : isWordChar c = true) : isMark c = false := by
  rw [isMark, isQuote_of_isWordChar h, Bool.false_or, beq_eq_false_iff_ne]
  rintro rfl
  exact absurd h (by decide +kernel)

theorem isMark_of_isSpace {c : Char} (h : isSpace c = true) : isMark c = false := by
  rw [isMark, isQuote_of_isSpace h, Bool.false_or, beq_eq_false_iff_ne]
  rintro rfl
  exact absurd h (by decide)

theorem isWordChar_of_isMark {c : Char} (h : isMark c = true) : isWordChar c = false := by
  cases hword : isWordChar c with
  | false => rfl
  | true =>
    rw [isMark_of_isWordChar hword] at h
    cases h

theorem isSpace_of_isMark {c : Char} (h : isMark c = true) : isSpace c = false := by
  cases hspace : isSpace c with
  | false => rfl
  | true =>
    rw [isMark_of_isSpace hspace] at h
    cases h

theorem toUpper_of_isMark {c : Char} (h : isMark c = true) : c.toUpper = c := by
  simp only [isMark, isQuote, Bool.or_eq_true, beq_iff_eq] at h
  rcases h with (rfl | rfl) | rfl <;> decide

theorem isQuote_of_isMark {c : Char} (h : isMark c = false) : isQuote c = false := (Bool.or_eq_false_iff.1 h).1

/-- The text has none of these marks. -/
def Unmarked (cs : List Char) : Prop := ∀ c ∈ cs, isMark c = false

instance (cs : List Char) : Decidable (Unmarked cs) := List.decidableBAll (isMark · = false) cs

theorem Unmarked.shut {cs : List Char} (h : Unmarked cs) : Shut cs := shut_of_forall fun c hc => isQuote_of_isMark (h c hc)

/-- A mark of a literal is no letter, whatever its case. -/
theorem unmarked_of_map_toUpper {cs : List Char} (h : Unmarked (cs.map Char.toUpper)) : Unmarked cs := by
  intro c hc
  cases hmark : isMark c with
  | false => rfl
  | true =>
    have hupper := h _ (List.mem_map_of_mem hc)
    rw [toUpper_of_isMark hmark, hmark] at hupper
    cases hupper

/-- A text that begins with a mark of a literal and ends visibly, is written as it is, and can only be cut where a
backtick stands in front or something is open. -/
structure Solid (t : Target) (text : List Char) : Prop where
  head : ∃ c cs, text = c :: cs ∧ isMark c = true
  last : ∃ cs c, text = cs ++ [c] ∧ isSpace c = false ∧ c ≠ ';' ∧ c ≠ ')'
  kept : Kept t text
  uncut : Uncut text ∨ ∃ cs, text = '\x60' :: cs

/-- The text stands there with nothing open in front of it; if so said, at the end. -/
def Stands (text : List Char) (atEnd : Bool) (cs : List Char) : Prop :=
  ∃ before behind, cs = before ++ (text ++ behind) ∧ Shut before ∧ (atEnd = true → behind = [])

variable {t : Target} {text cs : List Char} {atEnd : Bool}

/-- What is cut off in front has no marks. -/
theorem Stands.of_append (htext : Solid t text) {front : List Char} (hfront : Unmarked front)
    (h : Stands text atEnd (front ++ cs)) : Stands text atEnd cs := by
  obtain ⟨before, behind, heq, hshut, hend⟩ := h
  obtain ⟨c, rest, hhead, hmark⟩ := htext.head
  have hopen : Shut front := hfront.shut
  rcases List.append_eq_append_iff.1 heq with ⟨more, rfl, rfl⟩ | ⟨more, hmore, hrest⟩
  · exact ⟨more, behind, rfl, (shut_append_iff hopen more).1 hshut, hend⟩
  · cases more with
    | nil => exact ⟨[], behind, by simpa using hrest.symm, rfl, hend⟩
    | cons d more =>
      rw [hhead, List.cons_append, List.cons_append] at hrest
      obtain ⟨rfl, -⟩ := List.cons.inj hrest
      have hd := hfront c (by rw [hmore]; simp)
      rw [hd] at hmark
      cases hmark

theorem Stands.dropWhile (htext : Solid t text) {p : Char → Bool} (hp : ∀ c, p c = true → isMark c = false)
    (h : Stands text atEnd cs) : Stands text atEnd (cs.dropWhile p) := by
  rw [← List.takeWhile_append_dropWhile (p := p) (l := cs)] at h
  exact h.of_append htext fun c hc => hp c (List.mem_takeWhile_imp hc)

theorem Stands.trimStart (htext : Solid t text) (h : Stands text atEnd cs) : Stands text atEnd (trimStart cs) :=
  h.dropWhile htext fun _ => isMark_of_isSpace

theorem Stands.dropEndWhile {p : Char → Bool} (hlast : ∃ cs c, text = cs ++ [c] ∧ p c = false)
    (h : Stands text atEnd cs) : Stands text atEnd (Text.dropEndWhile p cs) := by
  obtain ⟨before, behind, rfl, hshut, hend⟩ := h
  obtain ⟨ds, d, rfl, hd⟩ := hlast
  refine ⟨before, Text.dropEndWhile p behind, ?_, hshut, fun hat => ?_⟩
  · have hkept := dropEndWhile_append_cons hd (before ++ ds) behind
    simpa using hkept
  · rw [hend hat]
    rfl

theorem Stands.trim (htext : Solid t text) (h : Stands text atEnd cs) : Stands text atEnd (trim cs) := by
  obtain ⟨ds, d, hds, hd, -⟩ := htext.last
  exact (h.trimStart htext).dropEndWhile ⟨ds, d, hds, hd⟩

theorem Stands.splitWord (htext : Solid t text) (h : Stands text atEnd cs) : Stands text atEnd (splitWord cs).2 :=
  (h.trimStart htext).dropWhile htext fun _ => isMark_of_isWordChar

theorem Stands.dropWord? (htext : Solid t text) (h : Stands text atEnd cs) {keyword : String} {rest : List Char}
    (hrest : dropWord? keyword cs = some rest) : Stands text atEnd rest := by
  unfold Text.dropWord? at hrest
  dsimp only at hrest
  split at hrest
  · cases hrest
    exact (h.splitWord htext).trimStart htext
  · cases hrest

/-- What is cut off behind does not have the last character of the text. -/
theorem Stands.of_append_left {front back : List Char} (hlast : ∃ cs c, text = cs ++ [c] ∧ c ∉ back)
    (h : Stands text false (front ++ back)) : Stands text false front := by
  obtain ⟨before, behind, heq, hshut, -⟩ := h
  obtain ⟨rest, hfront⟩ := exists_behind_of_append hlast heq
  exact ⟨before, rest, hfront, hshut, nofun⟩

/-- The text ends with a mark of a literal. -/
def EndsMarked (text : List Char) : Prop := ∃ cs c, text = cs ++ [c] ∧ isMark c = true

theorem Stands.dropEndMarks (hend : EndsMarked text) {p : Char → Bool} (hp : ∀ c, p c = true → isMark c = false)
    (h : Stands text atEnd cs) : Stands text atEnd (Text.dropEndWhile p cs) := by
  obtain ⟨ds, d, hds, hmark⟩ := hend
  refine h.dropEndWhile ⟨ds, d, hds, ?_⟩
  cases hd : p d with
  | false => rfl
  | true => exact absurd (hp d hd) (by simp [hmark])

theorem Stands.dropLastWord (hend : EndsMarked text) (h : Stands text false cs) {keyword : String}
    (hkeyword : Unmarked (keyword.toList.map Char.toUpper)) : Stands text false (Phrase.dropLastWord keyword cs) := by
  have htrimmed : Stands text false (trimEnd cs) := h.dropEndMarks hend fun _ => isMark_of_isSpace
  unfold Phrase.dropLastWord
  dsimp only
  split
  · next hcond =>
    obtain ⟨hwhole, -⟩ := Bool.and_eq_true_iff.1 hcond
    obtain ⟨-, hword⟩ := Bool.and_eq_true_iff.1 hwhole
    refine Stands.dropEndMarks hend (fun _ => isMark_of_isSpace) ?_
    obtain ⟨ds, d, hds, hmark⟩ := hend
    refine Stands.of_append_left ⟨ds, d, hds, fun hmem => ?_⟩
      ((List.prefix_iff_eq_append.1 (List.take_prefix _ (trimEnd cs))).symm ▸ htrimmed)
    have hunmarked := unmarked_of_map_toUpper (eq_of_beq hword ▸ hkeyword) d hmem
    rw [hmark] at hunmarked
    cases hunmarked
  · exact htrimmed

/-- Brackets around the whole text are not part of a literal that stands in it. -/
theorem Stands.withoutBrackets (htext : Solid t text) (h : Stands text atEnd cs) :
    Stands text atEnd (withoutBrackets cs) := by
  obtain ⟨ds, d, hds, -, -, hd⟩ := htext.last
  unfold Expression.withoutBrackets
  split
  · next hcond =>
    simp only [Bool.and_eq_true, beq_iff_eq] at hcond
    obtain ⟨⟨hopen, hclose⟩, -⟩ := hcond
    obtain ⟨rest, rfl⟩ := List.head?_eq_some_iff.1 hopen
    obtain ⟨whole, hwhole⟩ := List.getLast?_eq_some_iff.1 hclose
    cases atEnd with
    | true =>
      obtain ⟨before, behind, heq, -, hend⟩ := h
      rw [hwhole, hend rfl, List.append_nil, hds, ← List.append_assoc] at heq
      exact absurd (List.cons.inj (List.append_inj_right' heq rfl)).1.symm hd
    | false =>
      have hopens : Stands text false (['('] ++ rest) := h
      have hrest := hopens.of_append htext (by decide)
      have hback : rest = rest.dropLast ++ [')'] := by
        cases whole with
        | nil => cases hwhole
        | cons c whole =>
          obtain ⟨-, hrest⟩ := List.cons.inj hwhole
          rw [hrest, List.append_eq, List.dropLast_concat]
      rw [hback] at hrest
      exact Stands.of_append_left ⟨ds, d, hds, fun hmem => hd (List.mem_singleton.1 hmem)⟩ hrest
  · exact h

/-! ## Cuts -/

/-- A text in front of a cut: nothing is open behind it, and it has no backtick. -/
def Front (cs : List Char) : Prop := Shut cs ∧ '\x60' ∉ cs

instance (cs : List Char) : Decidable (Front cs) := inferInstanceAs (Decidable (_ ∧ _))

theorem front_of_trim {cs : List Char} (h : Front (Text.trim cs)) : Front cs := by
  obtain ⟨hshut, hbacktick⟩ := h
  obtain ⟨ends, hends, hspaces⟩ := exists_dropEndWhile isSpace (trimStart cs)
  have hsplit : cs = cs.takeWhile isSpace ++ (Text.trim cs ++ ends) := by
    rw [Text.trim, trimEnd, ← hends, trimStart, List.takeWhile_append_dropWhile]
  have hlead : ∀ c ∈ cs.takeWhile isSpace, isSpace c = true := fun c hc => List.mem_takeWhile_imp hc
  have hopens {ds : List Char} (hds : ∀ c ∈ ds, isSpace c = true) : Shut ds :=
    shut_of_forall fun c hc => isQuote_of_isSpace (hds c hc)
  rw [hsplit]
  constructor
  · rw [shut_append_iff (hopens hlead), shut_append_iff hshut]
    exact hopens hspaces
  · have hnot {ds : List Char} (hds : ∀ c ∈ ds, isSpace c = true) : '\x60' ∉ ds := fun hmem =>
      absurd (hds _ hmem) (by decide)
    simp only [List.mem_append, not_or]
    exact ⟨hnot hlead, hbacktick, hnot hspaces⟩

/-- A cut at something without marks, where nothing is open, leaves the text whole on one side. -/
theorem Stands.of_cut (htext : Solid t text) {front sep back : List Char} (hfront : Front front) (hne : sep ≠ [])
    (hsep : Unmarked sep) (h : Stands text atEnd (front ++ (sep ++ back))) :
    (atEnd = false ∧ Stands text false front) ∨ Stands text atEnd back := by
  obtain ⟨before, behind, heq, hshut, hend⟩ := h
  rcases List.append_eq_append_iff.1 heq with ⟨more, rfl, hmore⟩ | ⟨more, rfl, hmore⟩
  · -- the text begins behind the front
    have hback : Stands text atEnd (sep ++ back) := ⟨more, behind, hmore, (shut_append_iff hfront.1 more).1 hshut, hend⟩
    exact .inr (hback.of_append htext hsep)
  · -- it begins within the front or right behind it
    have hwithin {rest : List Char} (htail : behind = rest ++ (sep ++ back)) (hmore : more = text ++ rest) :
        atEnd = false ∧ Stands text false (before ++ more) := by
      refine ⟨?_, before, rest, by rw [hmore], hshut, nofun⟩
      cases hat : atEnd with
      | false => rfl
      | true =>
        have hnil := hend hat
        rw [htail, List.append_eq_nil_iff, List.append_eq_nil_iff] at hnil
        exact absurd hnil.2.1 hne
    rcases List.append_eq_append_iff.1 hmore with ⟨rest, hinside, htail⟩ | ⟨rest, hcut, htail⟩
    · exact .inl (hwithin htail hinside)
    · cases rest with
      | nil => exact .inl (@hwithin [] (by simpa using htail.symm) (by simpa using hcut.symm))
      | cons c rest =>
        have hc : isMark c = false := by
          cases sep with
          | nil => exact absurd rfl hne
          | cons d sep =>
            obtain ⟨rfl, -⟩ := List.cons.inj htail
            exact hsep d List.mem_cons_self
        cases more with
        | nil => exact .inr (Stands.of_append htext hsep ⟨[], behind, hmore.symm, rfl, hend⟩)
        | cons d more =>
          -- the cut would run through the text
          rcases htext.uncut with huncut | ⟨cs, hbacktick⟩
          · have hquote := huncut _ c rest hcut (List.cons_ne_nil d more) ((shut_append_iff hshut _).1 hfront.1)
            rw [isQuote_of_isMark hc] at hquote
            cases hquote
          · rw [hbacktick] at hcut
            obtain ⟨rfl, -⟩ := List.cons.inj hcut
            exact absurd (by simp) hfront.2

/-- Each pair of sides that is found has something without marks between them. -/
def CutsAt (cs : List Char) (sides : Option (List Char × List Char)) : Prop :=
  ∀ r ∈ sides, ∃ sep, cs = r.1 ++ (sep ++ r.2) ∧ sep ≠ [] ∧ Unmarked sep

theorem cutsAt_cutAt {mark : List Char} (hne : mark ≠ []) (hmark : Unmarked mark) (cs : List Char) :
    CutsAt cs (cutAt mark cs) :=
  fun _ hr => ⟨mark, by rw [cutAt_eq_some hr, List.append_assoc], hne, hmark⟩

theorem cutsAt_splitAtFrom {keyword : List Char} (hne : keyword ≠ []) (hkeyword : Unmarked keyword)
    (quote prev : Option Char) (cs : List Char) : CutsAt cs (Phrase.splitAtFrom keyword quote prev cs) := by
  have onward {c : Char} {cs : List Char} {sides : Option (List Char × List Char)} (h : CutsAt cs sides) :
      CutsAt (c :: cs) (sides.map fun r => (c :: r.1, r.2)) := by
    intro r hr
    obtain ⟨s, hs, rfl⟩ := Option.map_eq_some_iff.1 hr
    obtain ⟨sep, heq, hsep⟩ := h s hs
    exact ⟨sep, congrArg (c :: ·) heq, hsep⟩
  induction cs generalizing quote prev with
  | nil => exact nofun
  | cons c cs ih =>
    unfold Phrase.splitAtFrom
    dsimp only
    split
    · exact onward (ih _ _)
    · split
      · exact onward (ih _ _)
      · split
        · next hcond =>
          have hword := eq_of_beq (Bool.and_eq_true_iff.1 (Bool.and_eq_true_iff.1 hcond).1).1
          intro r hr
          cases hr
          refine ⟨(c :: cs).take keyword.length, (List.take_append_drop _ _).symm, fun hnil => ?_,
            unmarked_of_map_toUpper (by rwa [hword])⟩
          rw [hnil] at hword
          exact hne hword.symm
        · exact onward (ih _ _)

theorem cutsAt_splitAt? {keyword : String} (hne : keyword.toList ≠ []) (hkeyword : Unmarked keyword.toList) (cs : List Char) :
    CutsAt cs (Phrase.splitAt? keyword cs) :=
  cutsAt_splitAtFrom hne hkeyword none none cs

theorem cutsAt_splitAtEquals (before cs : List Char) :
    CutsAt (before.reverse ++ cs) (Phrase.splitAtEquals before cs) := by
  induction cs generalizing before with
  | nil => exact nofun
  | cons c cs ih =>
    unfold Phrase.splitAtEquals
    split
    · next hcond =>
      intro r hr
      cases hr
      have hc := eq_of_beq (Bool.and_eq_true_iff.1 (Bool.and_eq_true_iff.1 hcond).1).1
      exact ⟨['='], by rw [hc]; rfl, List.cons_ne_nil _ _, by decide⟩
    · have hrest := ih (c :: before)
      rw [List.reverse_cons, List.append_assoc] at hrest
      exact hrest

/-- The sides of an assignment are what stands on the sides of its sign, without blanks. -/
theorem exists_cut_of_splitAssignment? {cs : List Char} {sides : List Char × List Char}
    (h : sides ∈ Phrase.splitAssignment? cs) :
    ∃ front sep back, Text.trim cs = front ++ (sep ++ back) ∧ sep ≠ [] ∧ Unmarked sep ∧
      sides = (Text.trim front, Text.trim back) := by
  have hsides {cut : Option (List Char × List Char)} (hcuts : CutsAt (Text.trim cs) cut)
      (hr : Phrase.assignment? cut = some sides) : ∃ front sep back, Text.trim cs = front ++ (sep ++ back) ∧ sep ≠ [] ∧
        Unmarked sep ∧ sides = (Text.trim front, Text.trim back) := by
    unfold Phrase.assignment? at hr
    split at hr
    · next front back =>
      split at hr
      · cases hr
        obtain ⟨sep, heq, hne, hsep⟩ := hcuts _ rfl
        exact ⟨front, sep, back, heq, hne, hsep, rfl⟩
      · cases hr
    · cases hr
  unfold Phrase.splitAssignment? at h
  simp only [Option.mem_def, Option.or_eq_some_iff] at h
  rcases h with h | ⟨-, h | ⟨-, h | ⟨-, h | ⟨-, h⟩⟩⟩⟩
  · exact hsides (cutsAt_splitAt? (by decide) (by decide) _) h
  · exact hsides (cutsAt_cutAt (List.cons_ne_nil _ _) (by decide) _) h
  · exact hsides (cutsAt_cutAt (List.cons_ne_nil _ _) (by decide) _) h
  · exact hsides (cutsAt_cutAt (List.cons_ne_nil _ _) (by decide) _) h
  · exact hsides (cutsAt_splitAtEquals [] _) h

/-! ## What a line says -/

/-- The text stands in one of the texts; at the end of the last one, if so said. -/
def Lands (text : List Char) (atEnd : Bool) (texts : List (List Char)) : Prop :=
  ∃ cs ∈ texts, Stands text atEnd cs ∧ (atEnd = true → texts.getLast? = some cs)

theorem Stands.lands (h : Stands text atEnd cs) : Lands text atEnd [cs] :=
  ⟨cs, List.mem_singleton_self cs, h, fun _ => rfl⟩

/-- A text that stands in what is cut stands in one of the sides. -/
theorem Stands.lands_cut (htext : Solid t text) {front sep back : List Char} (hfront : Front (Text.trim front))
    (hne : sep ≠ []) (hsep : Unmarked sep) (h : Stands text atEnd (front ++ (sep ++ back))) {ys : List (List Char)}
    (hback : ∀ {atEnd : Bool}, Stands text atEnd back → Lands text atEnd ys) :
    Lands text atEnd (Text.trim front :: ys) := by
  rcases h.of_cut htext (front_of_trim hfront) hne hsep with ⟨rfl, hin⟩ | hin
  · exact ⟨_, List.mem_cons_self, hin.trim htext, nofun⟩
  · obtain ⟨cs, hmem, hcs, hlast⟩ := hback hin
    refine ⟨cs, List.mem_cons_of_mem _ hmem, hcs, fun hat => ?_⟩
    rw [List.getLast?_cons, hlast hat]
    rfl

end Expression

open Text Expression

variable {t : Target} {text cs : List Char} {atEnd : Bool}

namespace Statement

theorem lands_assign (htext : Solid t text) (h : Stands text atEnd cs) {target value : List Char}
    (hsides : Phrase.splitAssignment? cs = some (target, value)) (hfront : Front target) :
    Lands text atEnd [target, value] := by
  obtain ⟨front, sep, back, heq, hne, hsep, hparts⟩ := exists_cut_of_splitAssignment? hsides
  cases hparts
  have hin := h.trim htext
  rw [heq] at hin
  exact hin.lands_cut htext hfront hne hsep fun hback => (hback.trim htext).lands

/-- A literal that stands in a line stands in one of the texts that the statement keeps, if it keeps any. -/
theorem lands_ofCode (htext : Solid t text) (h : Stands text atEnd cs)
    (hfronts : ∀ x ∈ (ofCode cs).texts.dropLast, Front x) (hne : (ofCode cs).texts ≠ []) :
    Lands text atEnd (ofCode cs).texts := by
  have htail := h.splitWord htext
  have hrest := htail.trim htext
  have hwithin := hrest.withoutBrackets htext
  revert hfronts hne
  unfold ofCode
  dsimp only
  generalize (splitWord cs).2 = tail at htail hrest hwithin ⊢
  split
  · exact fun _ _ => hrest.lands
  iterate 5
    · exact fun _ _ => hwithin.lands
  iterate 3
    · split
      · next hsides => exact fun hfronts _ => lands_assign htext htail hsides (hfronts _ (by simp [texts]))
      · exact fun _ hne => absurd rfl hne
  iterate 2
    · split
      · next hsides =>
        intro hfronts _
        obtain ⟨sep, rfl, hne, hsep⟩ := cutsAt_splitAt? (by decide) (by decide) tail _ hsides
        exact htail.lands_cut htext (hfronts _ (by simp [texts])) hne hsep fun hback => (hback.trim htext).lands
      · exact fun _ _ => hrest.lands
  iterate 3
    · exact fun _ _ => hrest.lands
  iterate 3
    · exact fun _ hne => absurd rfl hne
  iterate 2
    · exact fun _ _ => hrest.lands
  · unfold ofForm
    split
    · next hsides => exact fun hfronts _ => lands_assign htext h hsides (hfronts _ (by simp [texts]))
    · split
      · exact fun _ _ => h.lands
      · exact fun _ hne => absurd rfl hne

end Statement

namespace Header

/-- The texts of a header that are expressions. -/
def expressions : Header → List (List Char)
  | condition test | loopWhile test => [test]
  | loopRange _ start stop step => start :: stop :: step.toList
  | loopEach _ items => [items]
  | _ => []

theorem stands_dropModifiers (htext : Solid t text) (h : Stands text atEnd cs) :
    Stands text atEnd (LineShape.dropModifiers cs) := by
  have hstart := h.trimStart htext
  have hletters : ∀ m ∈ LineShape.modifiers, Unmarked (m.toList.map Char.toUpper) := by decide
  unfold LineShape.dropModifiers
  generalize trimStart cs = start at hstart ⊢
  generalize LineShape.modifiers = modifiers at hletters
  induction modifiers generalizing start with
  | nil => exact hstart
  | cons m ms ih =>
    refine ih _ ?_ (List.forall_mem_cons.1 hletters).2
    unfold LineShape.dropModifier
    dsimp only
    split
    · next hword =>
      rw [← List.take_append_drop m.length start] at hstart
      refine (hstart.of_append htext (unmarked_of_map_toUpper ?_)).trimStart htext
      rw [eq_of_beq hword]
      exact (List.forall_mem_cons.1 hletters).1
    · exact hstart

theorem lands_each? (htext : Solid t text) (h : Stands text atEnd cs) {header : Header} (hheader : header ∈ each? cs) :
    Lands text atEnd header.expressions := by
  unfold each? at hheader
  dsimp only at hheader
  split at hheader
  · cases hheader
  · obtain ⟨items, hitems, rfl⟩ := Option.map_eq_some_iff.1 hheader
    have hbehind := (h.splitWord htext).trim htext
    rcases Option.or_eq_some_iff.1 hitems with hin | ⟨-, hof⟩
    · exact (hbehind.dropWord? htext hin).lands
    · exact (hbehind.dropWord? htext hof).lands

theorem stands_dropBeginning? (htext : Solid t text) (h : Stands text atEnd cs) {mark rest : List Char}
    (hmark : Unmarked mark) (hrest : dropBeginning? mark cs = some rest) : Stands text atEnd rest := by
  unfold dropBeginning? at hrest
  split at hrest
  · next hprefix =>
    obtain ⟨behind, rfl⟩ := List.isPrefixOf_iff_prefix.1 hprefix
    rw [List.drop_left] at hrest
    cases hrest
    exact h.of_append htext hmark
  · cases hrest

theorem stands_rangeStart? (htext : Solid t text) (h : Stands text atEnd cs) {rest : List Char}
    (hrest : rest ∈ rangeStart? cs) : Stands text atEnd rest := by
  unfold rangeStart? at hrest
  simp only [Option.mem_def, Option.or_eq_some_iff] at hrest
  rcases hrest with hrest | ⟨-, hrest | ⟨-, hrest | ⟨-, hrest⟩⟩⟩
  · exact h.dropWord? htext hrest
  all_goals exact stands_dropBeginning? htext h (by decide) hrest

theorem lands_range? (htext : Solid t text) (h : Stands text atEnd cs) {var : List Char} {header : Header}
    (hheader : header ∈ range? var cs) (hfronts : ∀ x ∈ header.expressions.dropLast, Front x) :
    Lands text atEnd header.expressions := by
  unfold range? at hheader
  obtain ⟨⟨start, tail⟩, hto, hrange⟩ := Option.bind_eq_some_iff.1 hheader
  obtain ⟨sep, rfl, hne, hsep⟩ := cutsAt_splitAt? (by decide) (by decide) cs _ hto
  cases hstep : Phrase.splitAt? "STEP" tail with
  | none =>
    simp only [hstep] at hrange
    cases hrange
    exact h.lands_cut htext (hfronts _ (by simp [expressions])) hne hsep fun hback => (hback.trim htext).lands
  | some sides =>
    obtain ⟨stop, step⟩ := sides
    simp only [hstep] at hrange
    cases hrange
    obtain ⟨sep', rfl, hne', hsep'⟩ := cutsAt_splitAt? (by decide) (by decide) tail _ hstep
    refine h.lands_cut htext (hfronts _ (by simp [expressions])) hne hsep fun hback => ?_
    exact hback.lands_cut htext (hfronts _ (by simp [expressions])) hne' hsep' fun hback' => (hback'.trim htext).lands

theorem lands_for? (htext : Solid t text) (h : Stands text atEnd cs) {header : Header} (hheader : header ∈ for? cs)
    (hfronts : ∀ x ∈ header.expressions.dropLast, Front x) : Lands text atEnd header.expressions := by
  unfold for? at hheader
  cases heach : dropWord? "EACH" cs with
  | some rest =>
    rw [heach] at hheader
    exact lands_each? htext (h.dropWord? htext heach) hheader
  | none =>
    rw [heach] at hheader
    dsimp only at hheader
    split at hheader
    · cases hheader
    · split at hheader
      · exact lands_each? htext h hheader
      · obtain ⟨start, hstart, hrange⟩ := Option.bind_eq_some_iff.1 hheader
        exact lands_range? htext (stands_rangeStart? htext ((h.splitWord htext).trim htext) hstart) hrange hfronts

/-- A literal that stands in a header stands in one of its expressions, if it has any. -/
theorem lands_ofText (htext : Solid t text) (hmarked : EndsMarked text) (h : Stands text false cs) (kind : BlockKind)
    (hfronts : ∀ x ∈ (ofText kind cs).expressions.dropLast, Front x) (hne : (ofText kind cs).expressions ≠ []) :
    Lands text false (ofText kind cs).expressions := by
  have hrest := (stands_dropModifiers htext h).splitWord htext
  have hfor {header? : Option Header} (hlands : ∀ header ∈ header?, (∀ x ∈ header.expressions.dropLast, Front x) →
      Lands text false header.expressions) (hfronts : ∀ x ∈ (header?.getD unknown).expressions.dropLast, Front x)
      (hne : (header?.getD unknown).expressions ≠ []) : Lands text false (header?.getD unknown).expressions := by
    cases header? with
    | none => exact absurd rfl hne
    | some header => exact hlands header rfl hfronts
  revert hfronts hne
  unfold ofText
  dsimp only
  generalize (splitWord (LineShape.dropModifiers cs)).2 = rest at hrest ⊢
  cases kind with
  | function | record => exact fun _ hne => absurd rfl hne
  | conditional =>
    dsimp only
    split
    · exact fun _ _ => (hrest.dropLastWord hmarked (by decide)).lands
    · exact fun _ hne => absurd rfl hne
  | loop =>
    dsimp only
    split
    · exact fun _ _ => (hrest.dropLastWord hmarked (by decide)).lands
    iterate 3
      · exact fun _ hne => absurd rfl hne
    · exact hfor fun header hheader => lands_for? htext (hrest.trim htext) hheader
    · exact hfor fun header hheader _ => lands_each? htext (hrest.trim htext) hheader
    · exact fun _ hne => absurd rfl hne
  | generic =>
    dsimp only
    split <;> exact fun _ hne => absurd rfl hne

theorem stands_strip (htext : Solid t text) (hmarked : EndsMarked text) (h : Stands text atEnd cs) :
    Stands text atEnd (strip cs) := by
  refine (h.dropEndMarks hmarked fun c hc => ?_).trim htext
  rcases Bool.or_eq_true_iff.1 hc with hc | hc <;>
  · rw [eq_of_beq hc]
    decide

end Header

namespace Continuation

/-- A literal that stands in a line that carries a block on stands in the text that it keeps, if it keeps one. -/
theorem lands_ofCode (htext : Solid t text) (hmarked : EndsMarked text) (h : Stands text false cs)
    (hne : (ofCode cs).texts ≠ []) : Lands text false (ofCode cs).texts := by
  have hbrace (c : Char) (hc : (c == '}') = true) : isMark c = false := by
    rw [eq_of_beq hc]
    decide
  have hbracket (c : Char) (hc : (c == '(' || c == ')') = true) : isMark c = false := by
    rcases Bool.or_eq_true_iff.1 hc with hc | hc <;>
    · rw [eq_of_beq hc]
      decide
  have hrest := (Header.stands_strip htext hmarked ((h.dropWhile htext hbrace).trim htext)).splitWord htext
  revert hne
  unfold ofCode
  dsimp only
  generalize (splitWord (Header.strip (trim (cs.dropWhile (· == '}'))))).2 = rest at hrest ⊢
  split
  iterate 2
    · exact fun _ => (hrest.dropLastWord hmarked (by decide)).lands
  · split
    · next hif => exact fun _ => ((hrest.dropWord? htext hif).dropLastWord hmarked (by decide)).lands
    · exact fun hne => absurd rfl hne
  · exact fun hne => absurd rfl hne
  iterate 2
    · exact fun _ => ((((hrest.trim htext).dropWhile htext hbracket).dropEndMarks hmarked hbracket).trim htext).lands
  iterate 2
    · exact fun hne => absurd rfl hne

end Continuation

end Pseudoscribe
