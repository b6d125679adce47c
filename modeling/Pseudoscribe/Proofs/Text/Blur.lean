import Pseudoscribe.Text.Lines

/-!
# Blurred texts

A text is blurred by putting one letter for every letter and numeral.  What is cut off at blanks and at the ends
of lines does not depend on which letter stood there, so trimming a text and taking it apart into lines
commutes with blurring it.
-/

namespace Pseudoscribe.Text

/-- The same letter for all letters and numerals; any other character stays. -/
def blur (c : Char) : Char := if isAlnum c then 'a' else c

/-- The code points of white space. -/
def spaces : List Nat :=
  [9, 10, 11, 12, 13, 0x20, 0x85, 0xa0, 0x1680, 0x2000, 0x2001, 0x2002, 0x2003, 0x2004, 0x2005, 0x2006,
    0x2007, 0x2008, 0x2009, 0x200a, 0x2028, 0x2029, 0x202f, 0x205f, 0x3000]

theorem mem_spaces {c : Char} (h : isSpace c = true) : c.toNat ∈ spaces := by
  simp only [isSpace, Bool.or_eq_true, Bool.and_eq_true, decide_eq_true_eq, beq_iff_eq] at h
  simp only [spaces, List.mem_cons, List.not_mem_nil, or_false]
  omega

/-- White space is neither letter nor numeral. -/
theorem isAlnum_of_isSpace {c : Char} (h : isSpace c = true) : isAlnum c = false := by
  have hall : ∀ n ∈ spaces, isAlnum (Char.ofNat n) = false := by decide +kernel
  have hc := hall c.toNat (mem_spaces h)
  rwa [Char.ofNat_toNat] at hc

/-! ## One character -/

@[simp] theorem isAlnum_blur (c : Char) : isAlnum (blur c) = isAlnum c := by
  unfold blur
  split
  · next h =>
    rw [h]
    decide
  · rfl

@[simp] theorem isSpace_blur (c : Char) : isSpace (blur c) = isSpace c := by
  unfold blur
  split
  · next h =>
    cases hs : isSpace c with
    | false => decide
    | true => exact absurd h (Bool.eq_false_iff.1 (isAlnum_of_isSpace hs))
  · rfl

/-- A character that is no letter is recognised in a blurred text. -/
theorem blur_beq {a : Char} (ha : isAlnum a = false) (c : Char) : (blur c == a) = (c == a) := by
  unfold blur
  split
  · next h =>
    have hne (x : Char) (hx : isAlnum x = true) : x ≠ a := by
      rintro rfl
      exact absurd hx (Bool.eq_false_iff.1 ha)
    rw [beq_eq_false_iff_ne.2 (hne 'a' (by decide)), beq_eq_false_iff_ne.2 (hne c h)]
  · rfl

theorem blur_eq_iff {c d : Char} :
    blur c = blur d ↔ c = d ∨ (isAlnum c = true ∧ isAlnum d = true) := by
  constructor
  · intro h
    have halnum : isAlnum c = isAlnum d := by rw [← isAlnum_blur c, h, isAlnum_blur]
    cases hc : isAlnum c with
    | true => exact .inr ⟨rfl, halnum ▸ hc⟩
    | false =>
      have hd : isAlnum d = false := halnum ▸ hc
      simp only [blur, hc, hd, Bool.false_eq_true, if_false] at h
      exact .inl h
  · rintro (rfl | ⟨hc, hd⟩)
    · rfl
    · simp only [blur, hc, hd, if_true]

/-! ## Texts -/

theorem isBlank_map_blur (cs : List Char) : isBlank (cs.map blur) = isBlank cs := by
  simp only [isBlank, List.all_map, Function.comp_def, isSpace_blur]

theorem isPrefixOf_map_blur {mark : List Char} (h : ∀ a ∈ mark, isAlnum a = false) (cs : List Char) :
    mark.isPrefixOf (cs.map blur) = mark.isPrefixOf cs := by
  induction mark generalizing cs with
  | nil => rfl
  | cons a mark ih =>
    cases cs with
    | nil => rfl
    | cons c cs =>
      have hhead := blur_beq (h a List.mem_cons_self) c
      have htail := ih (fun b hb => h b (List.mem_cons_of_mem a hb)) cs
      rw [List.map_cons, List.isPrefixOf, List.isPrefixOf, htail, BEq.comm, hhead, BEq.comm]

/-- Texts that are the same when they are blurred begin alike with any mark that has no letters. -/
theorem isPrefixOf_eq_of_blur (mark : List Char) (h : mark.all (!isAlnum ·) = true)
    {cs ds : List Char} (heq : cs.map blur = ds.map blur) : mark.isPrefixOf cs = mark.isPrefixOf ds := by
  have hmark : ∀ a ∈ mark, isAlnum a = false := by
    intro a ha
    have hno := List.all_eq_true.1 h a ha
    rwa [Bool.not_eq_true'] at hno
  rw [← isPrefixOf_map_blur hmark cs, heq, isPrefixOf_map_blur hmark]

theorem dropEndWhile_map_blur {p : Char → Bool} (hp : ∀ c, p (blur c) = p c) (cs : List Char) :
    dropEndWhile p (cs.map blur) = (dropEndWhile p cs).map blur := by
  have hcomp : p ∘ blur = p := funext hp
  rw [dropEndWhile, dropEndWhile, ← List.map_reverse, List.dropWhile_map, hcomp, List.map_reverse]

theorem trim_map_blur (cs : List Char) : trim (cs.map blur) = (trim cs).map blur := by
  have hcomp : isSpace ∘ blur = isSpace := funext isSpace_blur
  rw [trim, trimStart, List.dropWhile_map, hcomp, trimEnd, dropEndWhile_map_blur isSpace_blur]
  rfl

theorem blur_beq_newline (c : Char) : (blur c == '\n') = (c == '\n') := blur_beq (by decide) c

theorem dropLineEnds_map_blur (cs : List Char) :
    dropLineEnds (cs.map blur) = (dropLineEnds cs).map blur :=
  dropEndWhile_map_blur
    (fun c => by rw [blur_beq_newline, blur_beq (a := '\r') (by decide)]) cs

theorem chomp_map_blur (piece : List Char) : chomp (piece.map blur) = (chomp piece).map blur := by
  have hmark (a : Char) (ha : isAlnum a = false) (c : Char) : blur c = a ↔ c = a := by
    rw [← beq_iff_eq, blur_beq ha, beq_iff_eq]
  obtain ⟨rev, rfl⟩ : ∃ rev, piece = rev.reverse := ⟨piece.reverse, piece.reverse_reverse.symm⟩
  unfold chomp
  rw [← List.map_reverse, List.reverse_reverse]
  match rev with
  | [] => rfl
  | [c] =>
    by_cases hc : c = '\n'
    · subst hc
      rfl
    · have hb : blur c ≠ '\n' := fun h => hc ((hmark '\n' (by decide) c).1 h)
      simp [hc, hb]
  | c :: d :: rest =>
    by_cases hc : c = '\n'
    · subst hc
      by_cases hd : d = '\r'
      · subst hd
        exact List.map_reverse.symm
      · have hb : blur d ≠ '\r' := fun h => hd ((hmark '\r' (by decide) d).1 h)
        have hn : blur '\n' = '\n' := by decide
        simp [hd, hb, hn]
    · have hb : blur c ≠ '\n' := fun h => hc ((hmark '\n' (by decide) c).1 h)
      simp [hc, hb]

theorem pieces_map_blur (cs : List Char) : pieces (cs.map blur) = (pieces cs).map (List.map blur) := by
  induction cs with
  | nil => rfl
  | cons c cs ih =>
    rw [List.map_cons, pieces, pieces, blur_beq_newline, ih]
    split
    · rfl
    · cases pieces cs <;> rfl

theorem lines_map_blur (cs : List Char) : lines (cs.map blur) = (lines cs).map (List.map blur) := by
  rw [lines, pieces_map_blur, lines, List.map_map, List.map_map]
  exact List.map_congr_left fun p _ => chomp_map_blur p

/-- A string, blurred. -/
def blurText (s : String) : String := String.ofList (s.toList.map blur)

@[simp] theorem blurText_ofList (cs : List Char) :
    blurText (String.ofList cs) = String.ofList (cs.map blur) := by
  rw [blurText, String.toList_ofList]

/-! ## Texts that differ in letters -/

/-- The texts are as long as each other, and where they differ the place is marked and both have a letter or
numeral there. -/
def DifferOnlyAt (marks : List Bool) (cs ds : List Char) : Prop :=
  cs.length = ds.length ∧ ∀ i < cs.length, cs[i]? ≠ ds[i]? →
    marks[i]? = some true ∧ cs[i]?.any isAlnum = true ∧ ds[i]?.any isAlnum = true

instance (marks : List Bool) (cs ds : List Char) : Decidable (DifferOnlyAt marks cs ds) :=
  inferInstanceAs (Decidable (_ ∧ _))

theorem differOnlyAt_cons {m : Bool} {marks : List Bool} {c d : Char} {cs ds : List Char}
    (h : DifferOnlyAt (m :: marks) (c :: cs) (d :: ds)) :
    (c = d ∨ (m = true ∧ isAlnum c = true ∧ isAlnum d = true)) ∧ DifferOnlyAt marks cs ds := by
  obtain ⟨hlength, hat⟩ := h
  refine ⟨?_, Nat.succ.inj hlength, ?_⟩
  · by_cases hcd : c = d
    · exact .inl hcd
    · obtain ⟨hm, hc, hd⟩ := hat 0 (Nat.succ_pos _) (fun h => hcd (Option.some.inj h))
      exact .inr ⟨Option.some.inj hm, hc, hd⟩
  · intro i hi hne
    exact hat (i + 1) (Nat.succ_lt_succ hi) hne

theorem DifferOnlyAt.map_blur {marks : List Bool} {cs ds : List Char} (h : DifferOnlyAt marks cs ds) :
    cs.map blur = ds.map blur := by
  obtain ⟨hlength, hat⟩ := h
  apply List.ext_getElem (by rw [List.length_map, List.length_map, hlength])
  intro i hc hd
  rw [List.getElem_map, List.getElem_map, blur_eq_iff]
  rw [List.length_map] at hc hd
  by_cases heq : cs[i] = ds[i]
  · exact .inl heq
  · have hne : cs[i]? ≠ ds[i]? := by
      rw [List.getElem?_eq_getElem hc, List.getElem?_eq_getElem hd]
      exact fun h => heq (Option.some.inj h)
    obtain ⟨-, halnum⟩ := hat i hc hne
    rw [List.getElem?_eq_getElem hc, List.getElem?_eq_getElem hd] at halnum
    exact .inr halnum

/-- Texts in two parts: the marks of the first part say where the first parts differ. -/
theorem DifferOnlyAt.append {ms ns : List Bool} {as bs cs ds : List Char} (hms : ms.length = as.length)
    (hcs : cs.length = as.length) (h : DifferOnlyAt (ms ++ ns) (as ++ bs) (cs ++ ds)) :
    DifferOnlyAt ms as cs ∧ DifferOnlyAt ns bs ds := by
  induction ms generalizing as cs with
  | nil =>
    obtain rfl := List.eq_nil_of_length_eq_zero hms.symm
    obtain rfl := List.eq_nil_of_length_eq_zero hcs
    exact ⟨⟨rfl, fun i hi => absurd hi (Nat.not_lt_zero i)⟩, h⟩
  | cons m ms ih =>
    cases as with
    | nil => exact absurd hms (Nat.succ_ne_zero _)
    | cons a as =>
      cases cs with
      | nil => exact absurd hcs.symm (Nat.succ_ne_zero _)
      | cons c cs =>
        obtain ⟨hhead, htail⟩ := differOnlyAt_cons h
        obtain ⟨hfirst, hsecond⟩ := ih (Nat.succ.inj hms) (Nat.succ.inj hcs) htail
        refine ⟨⟨congrArg (· + 1) hfirst.1, ?_⟩, hsecond⟩
        rintro (_ | i) hi hne
        · rcases hhead with rfl | ⟨rfl, ha, hc⟩
          · exact absurd rfl hne
          · exact ⟨rfl, ha, hc⟩
        · exact hfirst.2 i (Nat.lt_of_succ_lt_succ hi) hne

end Pseudoscribe.Text
