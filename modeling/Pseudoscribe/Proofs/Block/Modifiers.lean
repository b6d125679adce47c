import Mathlib.Data.List.DropRight
import Mathlib.Data.List.TakeWhile
import Pseudoscribe.Block.Shape
import Pseudoscribe.Proofs.Scan.Kept

/-!
# Modifiers in front of a line

Modifiers are passed over in one fixed order, each at most once.  So a line keeps its first word behind modifiers exactly
if they stand in that order, and its role if nothing but that word and the end of the line decides on it.
-/

namespace Pseudoscribe

namespace Text

theorem isUpper_iff {c : Char} : c.isUpper = true ↔ 65 ≤ c.toNat ∧ c.toNat ≤ 90 :=
  decide_eq_true_iff.trans (and_congr UInt32.le_iff_toNat_le UInt32.le_iff_toNat_le)

theorem isLower_iff {c : Char} : c.isLower = true ↔ 97 ≤ c.toNat ∧ c.toNat ≤ 122 :=
  Bool.and_eq_true_iff.trans (and_congr (decide_eq_true_iff.trans UInt32.le_iff_toNat_le)
    (decide_eq_true_iff.trans UInt32.le_iff_toNat_le))

theorem isAlpha_iff {c : Char} : c.isAlpha = true ↔ c.isUpper = true ∨ c.isLower = true :=
  Bool.or_eq_true_iff

theorem isWordChar_of_isUpper_toUpper {c : Char} (h : c.toUpper.isUpper = true) : isWordChar c = true := by
  have halpha : c.isAlpha = true := by
    unfold Char.toUpper at h
    rw [isAlpha_iff]
    split at h
    · next hlower => exact .inr (isLower_iff.2 (hlower.imp UInt32.le_iff_toNat_le.1 UInt32.le_iff_toNat_le.1))
    · exact .inl h
  have hascii : c.toNat < 0x80 := by
    have hletter := isAlpha_iff.1 halpha
    rw [isUpper_iff, isLower_iff] at hletter
    omega
  simp [isWordChar, isAlnum, isLetter, hascii, halpha]

theorem toUpper_eq_of_isUpper {c : Char} (h : c.toUpper.isUpper = false) : c.toUpper = c := by
  unfold Char.toUpper at h ⊢
  split at h
  · next hlower =>
    have hbounds : 97 ≤ c.toNat ∧ c.toNat ≤ 122 := hlower.imp UInt32.le_iff_toNat_le.1 UInt32.le_iff_toNat_le.1
    rw [← Bool.not_eq_true, isUpper_iff] at h
    change ¬(65 ≤ (c.val + 4294967264).toNat ∧ (c.val + 4294967264).toNat ≤ 90) at h
    rw [UInt32.toNat_add] at h
    change ¬(65 ≤ (c.toNat + 4294967264) % 4294967296 ∧ (c.toNat + 4294967264) % 4294967296 ≤ 90) at h
    omega
  · next hlower => rw [dif_neg hlower]

theorem toUpper_toUpper (c : Char) : c.toUpper.toUpper = c.toUpper := by
  cases hupper : c.toUpper.isUpper with
  | false => rw [toUpper_eq_of_isUpper hupper, toUpper_eq_of_isUpper hupper]
  | true =>
    generalize c.toUpper = d at hupper ⊢
    have hbounds := isUpper_iff.1 hupper
    unfold Char.toUpper
    rw [dif_neg fun hlower => ?_]
    have hletter : 97 ≤ d.toNat ∧ d.toNat ≤ 122 := hlower.imp UInt32.le_iff_toNat_le.1 UInt32.le_iff_toNat_le.1
    omega

theorem isWordChar_of_isSpace {c : Char} (h : isSpace c = true) : isWordChar c = false := by
  rw [isWordChar, isAlnum_of_isSpace h, Bool.false_or, beq_eq_false_iff_ne]
  rintro rfl
  cases h

theorem isSpace_of_isWordChar {c : Char} (h : isWordChar c = true) : isSpace c = false := by
  cases hspace : isSpace c with
  | false => rfl
  | true =>
    rw [isWordChar_of_isSpace hspace] at h
    cases h

theorem takeWhile_word {w : List Char} (hw : ∀ c ∈ w, isWordChar c = true) {c : Char} (hc : isWordChar c = false)
    (rest : List Char) : (w ++ c :: rest).takeWhile isWordChar = w := by
  rw [List.takeWhile_append_of_pos hw, List.takeWhile_cons_of_neg (by simp [hc]), List.append_nil]

theorem splitWord_word {w : List Char} (hw : ∀ c ∈ w, isWordChar c = true) (hne : w ≠ []) {c : Char}
    (hc : isWordChar c = false) (rest : List Char) : (splitWord (w ++ c :: rest)).1 = w := by
  obtain ⟨d, letters, rfl⟩ := List.exists_cons_of_ne_nil hne
  rw [splitWord, trimStart, List.cons_append,
    List.dropWhile_cons_of_neg (by simp [isSpace_of_isWordChar (hw d List.mem_cons_self)]), ← List.cons_append]
  exact takeWhile_word hw hc rest

/-- Blanks at the end of a text are no part of its first word. -/
theorem takeWhile_append_blank {blanks : List Char} (h : isBlank blanks = true) (cs : List Char) :
    (cs ++ blanks).takeWhile isWordChar = cs.takeWhile isWordChar := by
  cases blanks with
  | nil => rw [List.append_nil]
  | cons c blanks =>
    have hc := isWordChar_of_isSpace (List.all_eq_true.1 h c List.mem_cons_self)
    induction cs with
    | nil => exact List.takeWhile_cons_of_neg (by simp [hc])
    | cons d cs ih => simp only [List.cons_append, List.takeWhile_cons, ih]

/-- A text that is not blank has something visible between blanks. -/
theorem exists_visible {cs : List Char} (h : isBlank cs = false) :
    ∃ lead x ends, cs = lead ++ (x ++ ends) ∧ isBlank lead = true ∧ Visible x ∧ isBlank ends = true := by
  induction cs with
  | nil => cases h
  | cons c cs ih =>
    cases hc : isSpace c with
    | true =>
      obtain ⟨lead, x, ends, rfl, hlead, hx, hends⟩ := ih (by simpa [isBlank, hc] using h)
      exact ⟨c :: lead, x, ends, rfl, by simpa [isBlank, hc] using hlead, hx, hends⟩
    | false =>
      obtain ⟨ends, heq, hends⟩ := exists_dropEndWhile isSpace (c :: cs)
      have hstart := trimEnd_cons_of_visible hc cs
      refine ⟨[], trimEnd (c :: cs), ends, heq, rfl, ⟨⟨c, _, hstart, hc⟩, ?_⟩, List.all_eq_true.2 hends⟩
      have hne : (c :: cs).reverse.dropWhile isSpace ≠ [] := fun hnil => by
        rw [trimEnd, dropEndWhile, hnil] at hstart
        cases hstart
      obtain ⟨d, ds, hlast⟩ := List.exists_cons_of_ne_nil hne
      have hd := List.head_dropWhile_not isSpace hne
      simp only [hlast, List.head_cons] at hd
      exact ⟨ds.reverse, d, by rw [trimEnd, dropEndWhile, hlast, List.reverse_cons], hd⟩

theorem Visible.ne_nil {x : List Char} (hx : Visible x) : x ≠ [] := by
  obtain ⟨c, cs, rfl, -⟩ := hx.head
  exact List.cons_ne_nil c cs

theorem trimStart_visible {x : List Char} (hx : Visible x) {lead : List Char} (hlead : isBlank lead = true) :
    trimStart (lead ++ x) = x := by
  obtain ⟨c, cs, rfl, hc⟩ := hx.head
  exact trimStart_append_cons hlead hc _

theorem splitWord_visible {x : List Char} (hx : Visible x) {lead : List Char} (hlead : isBlank lead = true) :
    (splitWord (lead ++ x)).1 = x.takeWhile isWordChar := by
  rw [splitWord, trimStart_visible hx hlead]

theorem trim_visible {x : List Char} (hx : Visible x) {lead ends : List Char} (hlead : isBlank lead = true)
    (hends : isBlank ends = true) : trim (lead ++ (x ++ ends)) = x := by
  have hwhole := trim_around lead hx []
  rw [List.append_nil, show trimEnd [] = [] from rfl, List.append_nil, trimStart,
    List.dropWhile_eq_nil_iff.2 (List.all_eq_true.1 hlead)] at hwhole
  rw [← List.append_assoc, trim_append_blank hends, hwhole, List.nil_append]

end Text

namespace LineShape

open Text

/-! ## One modifier -/

/-- The modifiers in capitals, without the blanks behind them. -/
def modifierWords : List String := ["ASYNC", "EXPORT", "PUB", "PUBLIC", "PRIVATE", "STATIC"]

/-- A modifier as it is written: its letters, capital or small, and the spaces behind it. -/
structure Modifier where
  name : String
  isModifier : name ∈ modifiers
  letters : List Char
  spelled : isWord name (letters ++ [' ']) = true
  /-- the number of spaces behind the first one -/
  more : Nat

theorem exists_of_isWord {name : String} (hname : name ∈ modifiers) {cs : List Char} (h : isWord name cs = true) :
    ∃ letters, cs = letters ++ [' '] ∧ letters ≠ [] ∧ (∀ c ∈ letters, isWordChar c = true) ∧
      upper letters ∈ modifierWords := by
  obtain ⟨word, hname, hword⟩ : ∃ word, name.toList.map Char.toUpper = word ++ [' '] ∧
      String.ofList word ∈ modifierWords := by
    simp only [modifiers, List.mem_cons, List.not_mem_nil, or_false] at hname
    rcases hname with rfl | rfl | rfl | rfl | rfl | rfl <;>
      exact ⟨_, (List.dropLast_append_getLast (by decide)).symm, by decide⟩
  obtain ⟨letters, last, rfl, hletters, hlast⟩ := List.map_eq_append_iff.1 ((eq_of_beq h).trans hname)
  obtain ⟨c, rfl, hc⟩ := List.map_eq_singleton_iff.1 hlast
  have hspace : c = ' ' := (toUpper_eq_of_isUpper (by rw [hc]; rfl)).symm.trans hc
  have hcapitals : word ≠ [] ∧ ∀ c ∈ word, c.isUpper = true := by
    have hall : ∀ w ∈ modifierWords, w.toList ≠ [] ∧ w.toList.all Char.isUpper = true := by decide
    simpa using hall _ hword
  subst hletters
  refine ⟨letters, by rw [hspace], fun hnil => hcapitals.1 (by rw [hnil]; rfl), fun c hc => ?_, hword⟩
  exact isWordChar_of_isUpper_toUpper (hcapitals.2 _ (List.mem_map_of_mem hc))

namespace Modifier

/-- The text of a modifier. -/
def text (m : Modifier) : List Char := m.letters ++ ' ' :: List.replicate m.more ' '

theorem letters_spec (m : Modifier) : m.letters ≠ [] ∧ (∀ c ∈ m.letters, isWordChar c = true) ∧
    upper m.letters ∈ modifierWords := by
  obtain ⟨letters, heq, hspec⟩ := exists_of_isWord m.isModifier m.spelled
  rwa [List.append_cancel_right heq]

/-- A modifier has three letters or more. -/
theorem exists_letters (m : Modifier) : ∃ a b c rest, m.letters = a :: b :: c :: rest ∧ isWordChar c = true := by
  obtain ⟨-, hword, hupper⟩ := m.letters_spec
  have hall : ∀ word ∈ modifierWords, 3 ≤ word.toList.length := by decide
  have hlength := hall _ hupper
  rw [upper, String.toList_ofList, List.length_map] at hlength
  match hletters : m.letters, hlength with
  | a :: b :: c :: rest, _ => exact ⟨a, b, c, rest, rfl, hword c (by rw [hletters]; simp)⟩

theorem text_append (m : Modifier) (rest : List Char) :
    m.text ++ rest = m.letters ++ ' ' :: (List.replicate m.more ' ' ++ rest) := by
  rw [text, List.append_assoc, List.cons_append]

theorem takeWhile_text (m : Modifier) (rest : List Char) : (m.text ++ rest).takeWhile isWordChar = m.letters := by
  rw [text_append]
  exact takeWhile_word m.letters_spec.2.1 (by decide) _

/-- No blanks stand in front of a modifier. -/
theorem trimStart_text (m : Modifier) (rest : List Char) : trimStart (m.text ++ rest) = m.text ++ rest := by
  obtain ⟨hne, hword, -⟩ := m.letters_spec
  obtain ⟨c, cs, hletters⟩ := List.exists_cons_of_ne_nil hne
  rw [text_append, hletters, List.cons_append]
  exact List.dropWhile_cons_of_neg (by simp [isSpace_of_isWordChar (hword c (by rw [hletters]; exact List.mem_cons_self))])

end Modifier

/-- A text that begins with a modifier has this modifier as its first word. -/
theorem isWord_takeWhile {name : String} (hname : name ∈ modifiers) {cs : List Char}
    (h : isWord name (cs.take name.length) = true) : isWord name (cs.takeWhile isWordChar ++ [' ']) = true := by
  obtain ⟨letters, htake, -, hword, -⟩ := exists_of_isWord hname h
  have hcs : cs = letters ++ ' ' :: cs.drop name.length := by
    rw [List.append_cons, ← htake, List.take_append_drop]
  rw [hcs, takeWhile_word hword (by decide), ← htake]
  exact h

theorem dropModifier_text {name : String} (hname : name ∈ modifiers) (m : Modifier) (rest : List Char) :
    dropModifier (m.text ++ rest) name = if m.name = name then trimStart rest else m.text ++ rest := by
  have hlength : (m.letters ++ [' ']).length = m.name.length := by
    simpa only [List.length_map, String.length_toList] using congrArg List.length (eq_of_beq m.spelled)
  have htext : m.text ++ rest = m.letters ++ [' '] ++ (List.replicate m.more ' ' ++ rest) := by
    rw [m.text_append, List.append_cons]
  unfold dropModifier
  dsimp only
  by_cases hsame : m.name = name
  · subst hsame
    rw [htext, List.take_left' hlength, if_pos m.spelled, if_pos rfl, List.drop_left' hlength]
    exact List.dropWhile_append_of_pos fun c hc => by rw [List.eq_of_mem_replicate hc]; rfl
  · have hother : isWord name ((m.text ++ rest).take name.length) ≠ true := by
      intro h
      have hword := isWord_takeWhile hname h
      rw [m.takeWhile_text] at hword
      have hdistinct : ∀ a ∈ modifiers, ∀ b ∈ modifiers, a.toList.map Char.toUpper = b.toList.map Char.toUpper → a = b := by
        decide
      exact hsame (hdistinct _ m.isModifier _ hname ((eq_of_beq m.spelled).symm.trans (eq_of_beq hword)))
    rw [if_neg hother, if_neg hsame]

/-! ## A row of modifiers -/

/-- The text of modifiers one after the other. -/
def written (ms : List Modifier) : List Char := ms.flatMap Modifier.text

theorem written_cons_append (m : Modifier) (ms : List Modifier) (t : List Char) :
    written (m :: ms) ++ t = m.text ++ (written ms ++ t) := by
  rw [written, List.flatMap_cons, List.append_assoc]
  rfl

/-- The modifiers that are left when each name was looked for once. -/
def left : List String → List Modifier → List Modifier
  | _, [] => []
  | [], m :: ms => m :: ms
  | name :: names, m :: ms => if m.name = name then left names ms else left names (m :: ms)

/-- The modifiers stand in the order in which they are looked for, each at most once. -/
def InOrder (ms : List Modifier) : Prop := (ms.map Modifier.name).Sublist modifiers

instance (ms : List Modifier) : Decidable (InOrder ms) :=
  inferInstanceAs (Decidable ((ms.map Modifier.name).Sublist modifiers))

theorem left_eq_nil_iff (names : List String) (ms : List Modifier) :
    left names ms = [] ↔ (ms.map Modifier.name).Sublist names := by
  induction names generalizing ms with
  | nil => cases ms <;> simp [left]
  | cons name names ih =>
    cases ms with
    | nil => simp [left]
    | cons m ms =>
      rw [left, List.map_cons]
      split
      · next h => rw [ih, h, List.cons_sublist_cons]
      · next h => rw [ih, List.map_cons, List.cons_sublist_cons', or_iff_left fun hboth => h hboth.1]

theorem suffix_left (names : List String) (ms : List Modifier) : left names ms <:+ ms := by
  induction names generalizing ms with
  | nil => cases ms <;> exact List.suffix_refl _
  | cons name names ih =>
    cases ms with
    | nil => exact List.suffix_refl _
    | cons m ms =>
      rw [left]
      split
      · exact (ih ms).trans (List.suffix_cons m ms)
      · exact ih (m :: ms)

/-- One pass takes the first modifier away. -/
theorem suffix_left_cons {names : List String} {m : Modifier} (hm : m.name ∈ names) (ms : List Modifier) :
    left names (m :: ms) <:+ ms := by
  induction names with
  | nil => cases hm
  | cons name names ih =>
    rw [left]
    split
    · exact suffix_left names ms
    · next h => exact ih ((List.mem_cons.1 hm).resolve_left h)

/-- The text does not begin with a modifier and a space. -/
def Unmodified (t : List Char) : Prop := ∀ name ∈ modifiers, isWord name ((trimStart t).take name.length) = false

theorem unmodified_of_splitWord {t : List Char} (h : ∀ name ∈ modifiers, isWord name ((splitWord t).1 ++ [' ']) = false) :
    Unmodified t := by
  intro name hname
  rw [Bool.eq_false_iff]
  exact fun hword => Bool.eq_false_iff.1 (h name hname) (isWord_takeWhile hname hword)

theorem Unmodified.foldl_dropModifier {t : List Char} (ht : Unmodified t) {names : List String} (hnames : names ⊆ modifiers)
    (ms : List Modifier) :
    names.foldl dropModifier (trimStart (written ms ++ t)) = trimStart (written (left names ms) ++ t) := by
  induction names generalizing ms with
  | nil => cases ms <;> rfl
  | cons name names ih =>
    obtain ⟨hname, hrest⟩ := List.cons_subset.1 hnames
    rw [List.foldl_cons]
    cases ms with
    | nil =>
      have hstep : dropModifier (trimStart (written [] ++ t)) name = trimStart (written [] ++ t) :=
        if_neg (Bool.eq_false_iff.1 (ht name hname))
      rw [hstep, ih hrest]
      cases names <;> rfl
    | cons m ms =>
      rw [written_cons_append, m.trimStart_text, dropModifier_text hname, left]
      split
      · exact ih hrest ms
      · rw [← m.trimStart_text, ← written_cons_append]
        exact ih hrest (m :: ms)

theorem Unmodified.dropModifiers_written {t : List Char} (ht : Unmodified t) (ms : List Modifier) :
    dropModifiers (written ms ++ t) = trimStart (written (left modifiers ms) ++ t) :=
  ht.foldl_dropModifier (List.Subset.refl _) ms

theorem Unmodified.leadingWord_written {t : List Char} (ht : Unmodified t) (ms : List Modifier) :
    leadingWord (written ms ++ t) = (left modifiers ms).head?.elim (splitWord t).1 Modifier.letters := by
  rw [leadingWord, ht.dropModifiers_written]
  cases left modifiers ms with
  | nil => rfl
  | cons m ms =>
    rw [written_cons_append, m.trimStart_text, m.takeWhile_text]
    rfl

theorem Unmodified.leadingWord_eq {t : List Char} (ht : Unmodified t) : leadingWord t = (splitWord t).1 := by
  have hnil := ht.leadingWord_written []
  rwa [(left_eq_nil_iff modifiers []).2 (List.nil_sublist _)] at hnil

/-- The rest behind all modifiers is the same again behind one more pass exactly if no modifier is left. -/
theorem Unmodified.dropModifiers_twice_iff {t : List Char} (ht : Unmodified t) (ms : List Modifier) :
    dropModifiers (dropModifiers (written ms ++ t)) = dropModifiers (written ms ++ t) ↔ left modifiers ms = [] := by
  have hagain : dropModifiers (dropModifiers (written ms ++ t)) =
      trimStart (written (left modifiers (left modifiers ms)) ++ t) := by
    have htrim := List.dropWhile_idempotent isSpace (written (left modifiers ms) ++ t)
    rw [← ht.dropModifiers_written (left modifiers ms), ht.dropModifiers_written ms, dropModifiers, trimStart, trimStart,
      htrim]
    rfl
  rw [hagain, ht.dropModifiers_written]
  cases left modifiers ms with
  | nil => exact iff_of_true rfl rfl
  | cons m rest =>
    refine iff_of_false (fun heq => ?_) (List.cons_ne_nil m rest)
    -- the second pass takes one more modifier away, so the text gets shorter
    have hshorter : (written (left modifiers (m :: rest))).length ≤ (written rest).length := by
      obtain ⟨front, hfront⟩ := suffix_left_cons m.isModifier rest
      have hlength := congrArg (fun ms => (written ms).length) hfront
      simp only [written, List.flatMap_append, List.length_append] at hlength ⊢
      omega
    have hlength := (List.dropWhile_sublist isSpace (l := written (left modifiers (m :: rest)) ++ t)).length_le
    rw [trimStart] at heq
    rw [heq, written_cons_append, m.trimStart_text, List.length_append, List.length_append, List.length_append,
      Modifier.text, List.length_append, List.length_cons] at hlength
    omega

/-! ## The role of the line -/

/-- The role of a line with a first word, in capitals. -/
def ofWord (word : String) (trimmed : List Char) : LineShape :=
  match closer? word trimmed with
  | some shape => shape
  | none => if word ∈ continuationWords then .continues (endStyle trimmed) else opener word trimmed

theorem ofLine_eq_ofWord {cs : List Char} {c : Char} {rest : List Char} (htrim : trim cs = c :: rest) (hc : c ≠ '}') :
    ofLine cs = ofWord (upper (leadingWord (trim cs))) (trim cs) := by
  unfold ofLine
  rw [htrim]
  split
  · next heq => exact absurd heq (List.cons_ne_nil c rest)
  · next heq => exact absurd (List.cons.inj heq).1 hc
  · next heq =>
    rw [← heq]
    cases hshape : closer? (upper (leadingWord (c :: rest))) (c :: rest) <;> simp only [ofWord, hshape]

theorem endStyle_append {x : List Char} (hx : x ≠ []) (front : List Char) : endStyle (front ++ x) = endStyle x := by
  rw [endStyle, endStyle, List.getLast?_append_of_ne_nil _ hx]

theorem closer?_of_ne_end {word : String} (h : word ≠ "END") (xs ys : List Char) : closer? word xs = closer? word ys := by
  rw [closer?, closer?, if_neg h, if_neg h]

theorem ofKeyword?_empty : BlockKind.ofKeyword? "" = none := by decide +kernel

/-- A line whose first word is no keyword at all is plain, or it opens a block by its last character. -/
theorem ofWord_of_no_keyword {word : String} (hcloser : closer? word [] = none) (hend : word ≠ "END")
    (hcontinuation : word ∉ continuationWords) (hkind : BlockKind.ofKeyword? word = none) (trimmed : List Char) :
    ofWord word trimmed = opener "" trimmed := by
  rw [ofWord, closer?_of_ne_end hend trimmed [], hcloser]
  dsimp only
  rw [if_neg hcontinuation, opener, opener, hkind, ofKeyword?_empty]

theorem ofWord_empty (trimmed : List Char) : ofWord "" trimmed = opener "" trimmed := by
  have hword : closer? "" [] = none ∧ "" ∉ continuationWords := by decide +kernel
  exact ofWord_of_no_keyword hword.1 (by decide) hword.2 ofKeyword?_empty trimmed

theorem ofWord_modifier {word : String} (hword : word ∈ modifierWords) (trimmed : List Char) :
    ofWord word trimmed = opener "" trimmed := by
  have hall : ∀ word ∈ modifierWords, closer? word [] = none ∧ word ≠ "END" ∧
      word ∉ continuationWords ∧ BlockKind.ofKeyword? word = none := by decide +kernel
  obtain ⟨hcloser, hend, hcontinuation, hkind⟩ := hall word hword
  exact ofWord_of_no_keyword hcloser hend hcontinuation hkind trimmed

/-! ### What is read besides the first word -/

theorem ofKeyword?_upper (cs : List Char) : BlockKind.ofKeyword? (upper cs) = BlockKind.ofKeyword? (String.ofList cs) := by
  have hmap : (upper cs).map Char.toUpper = (String.ofList cs).map Char.toUpper := by
    rw [← String.toList_inj, String.toList_map, String.toList_map, upper, String.toList_ofList, String.toList_ofList,
      List.map_map]
    exact List.map_congr_left fun c _ => toUpper_toUpper c
  rw [BlockKind.ofKeyword?, hmap]
  rfl

theorem cutAt_concat {mark cs : List Char} {c : Char} (h : ¬mark.reverse <+: c :: cs.reverse) :
    (cutAt mark (cs ++ [c])).map Prod.fst = (cutAt mark cs).map Prod.fst := by
  have hne : mark.isEmpty = false := by
    cases mark with
    | nil => exact absurd List.nil_prefix h
    | cons _ _ => rfl
  induction cs with
  | nil =>
    have hstart : mark.isPrefixOf [c] = false := by
      rw [Bool.eq_false_iff]
      intro hstarts
      obtain hnil | hsingle := List.prefix_cons_iff.1 (List.isPrefixOf_iff_prefix.1 hstarts)
      · rw [hnil] at hne
        cases hne
      · obtain ⟨t, rfl, ht⟩ := hsingle
        rw [List.prefix_nil.1 ht] at h
        exact h (List.prefix_refl _)
    rw [List.nil_append, cutAt, cutAt, hstart, hne, cutAt, hne]
    rfl
  | cons d cs ih =>
    have hrest : ¬mark.reverse <+: c :: cs.reverse := by
      intro hstarts
      rw [List.reverse_cons, ← List.cons_append] at h
      exact h (hstarts.trans (List.prefix_append _ _))
    have hstart : mark.isPrefixOf (d :: cs ++ [c]) = mark.isPrefixOf (d :: cs) := by
      rw [Bool.eq_iff_iff, List.isPrefixOf_iff_prefix, List.isPrefixOf_iff_prefix, List.prefix_concat_iff]
      refine or_iff_right ?_
      rintro rfl
      rw [List.reverse_append] at h
      exact h (List.prefix_refl _)
    rw [List.cons_append, cutAt, cutAt, ← List.cons_append, hstart]
    split
    · rfl
    · rw [Option.map_map, Option.map_map]
      have hnext := congrArg (Option.map (d :: ·)) (ih hrest)
      rwa [Option.map_map, Option.map_map] at hnext

/-- The text does not begin with the letter that ` THEN` has behind its blank. -/
def StartsOff (x : List Char) : Prop := ∀ c ∈ x.head?, c.toUpper ≠ 'T'

theorem hasStatementAfterThen_cons {c : Char} {cs : List Char} (h : c = ' ' → StartsOff cs) :
    hasStatementAfterThen (c :: cs) = hasStatementAfterThen cs := by
  have hfirst (x : List Char) : hasStatementAfterThen x =
      ((cutAt " THEN".toList.reverse (x.map Char.toUpper).reverse).map Prod.fst).elim false (!isBlank ·) := by
    unfold hasStatementAfterThen
    cases cutAt " THEN".toList.reverse (x.map Char.toUpper).reverse <;> rfl
  rw [hfirst, hfirst, List.map_cons, List.reverse_cons, cutAt_concat]
  rw [List.reverse_reverse, List.reverse_reverse, show " THEN".toList = [' ', 'T', 'H', 'E', 'N'] from rfl]
  intro hstarts
  obtain ⟨hspace, hstarts⟩ := List.cons_prefix_cons.1 hstarts
  have hc : c = ' ' := (toUpper_eq_of_isUpper (by rw [← hspace]; rfl)).symm.trans hspace.symm
  cases cs with
  | nil => cases List.prefix_nil.1 hstarts
  | cons d cs => exact h hc d rfl (List.cons_prefix_cons.1 hstarts).1.symm

theorem toUpper_of_isSpace {c : Char} (h : isSpace c = true) : c.toUpper = c := by
  refine toUpper_eq_of_isUpper (Bool.eq_false_iff.2 fun hupper => ?_)
  rw [isSpace_of_isWordChar (isWordChar_of_isUpper_toUpper hupper)] at h
  cases h

theorem startsOff_blanks_append {blanks x : List Char} (hblanks : isBlank blanks = true) (hx : StartsOff x) :
    StartsOff (blanks ++ x) := by
  cases blanks with
  | nil => exact hx
  | cons b blanks =>
    intro c hc ht
    obtain rfl : b = c := Option.some.inj hc
    have hspace := List.all_eq_true.1 hblanks b List.mem_cons_self
    rw [toUpper_of_isSpace hspace] at ht
    subst ht
    cases hspace

theorem startsOff_written_append (ms : List Modifier) {x : List Char} (hx : StartsOff x) : StartsOff (written ms ++ x) := by
  cases ms with
  | nil => exact hx
  | cons m ms =>
    obtain ⟨hne, -, hupper⟩ := m.letters_spec
    obtain ⟨d, letters, hletters⟩ := List.exists_cons_of_ne_nil hne
    have hall : ∀ word ∈ modifierWords, word.toList.head? ≠ some 'T' := by decide
    intro c hc ht
    rw [written_cons_append, m.text_append, hletters] at hc
    obtain rfl : d = c := Option.some.inj hc
    refine hall _ hupper ?_
    rw [upper, String.toList_ofList, hletters, List.map_cons, ht]
    rfl

theorem then_blanks_append {blanks x : List Char} (hblanks : isBlank blanks = true) (hx : StartsOff x) :
    hasStatementAfterThen (blanks ++ x) = hasStatementAfterThen x := by
  induction blanks with
  | nil => rfl
  | cons b blanks ih =>
    have hrest : isBlank blanks = true := (Bool.and_eq_true_iff.1 hblanks).2
    exact (hasStatementAfterThen_cons fun _ => startsOff_blanks_append hrest hx).trans (ih hrest)

theorem then_word_append {word : List Char} (hword : ∀ c ∈ word, isWordChar c = true) (x : List Char) :
    hasStatementAfterThen (word ++ x) = hasStatementAfterThen x := by
  induction word with
  | nil => rfl
  | cons c word ih =>
    refine (hasStatementAfterThen_cons ?_).trans (ih fun d hd => hword d (List.mem_cons_of_mem c hd))
    rintro rfl
    cases hword ' ' List.mem_cons_self

theorem then_written_append (ms : List Modifier) {x : List Char} (hx : StartsOff x) :
    hasStatementAfterThen (written ms ++ x) = hasStatementAfterThen x := by
  induction ms with
  | nil => rfl
  | cons m ms ih =>
    have hspaces : isBlank (' ' :: List.replicate m.more ' ') = true :=
      List.all_eq_true.2 fun c hc => by
        rw [← List.replicate_succ] at hc
        rw [List.eq_of_mem_replicate hc]
        rfl
    rw [written_cons_append, m.text_append, then_word_append m.letters_spec.2.1, ← List.cons_append,
      then_blanks_append hspaces (startsOff_written_append ms hx), ih]

theorem isOneLiner_written_append {word : String} {lead x : List Char} (hx : x ≠ []) (hlead : isBlank lead = true)
    (hif : word = "IF" → StartsOff x) (m : Modifier) (ms : List Modifier) :
    isOneLiner word (written (m :: ms) ++ (lead ++ x)) = (isOneLiner word x || word == "DO") := by
  have hlast : (written (m :: ms) ++ (lead ++ x)).getLast? = x.getLast? := by
    rw [List.getLast?_append_of_ne_nil _ (List.append_ne_nil_of_right_ne_nil lead hx), List.getLast?_append_of_ne_nil _ hx]
  have hthen : (word == "IF" && hasStatementAfterThen (written (m :: ms) ++ (lead ++ x))) =
      (word == "IF" && hasStatementAfterThen x) := by
    cases hword : word == "IF" with
    | false => rfl
    | true =>
      have hoff := hif (eq_of_beq hword)
      rw [then_written_append _ (startsOff_blanks_append hlead hoff), then_blanks_append hlead hoff]
  -- at least one letter of the modifier is behind the place where `DO` would end
  have hbehind : isBlank ((written (m :: ms) ++ (lead ++ x)).drop 2) = false := by
    obtain ⟨a, b, c, letters, hletters, hc⟩ := m.exists_letters
    rw [written_cons_append, m.text_append, hletters]
    show (isSpace c && _) = false
    rw [isSpace_of_isWordChar hc, Bool.false_and]
  rw [isOneLiner, isOneLiner, hlast, hthen, hbehind]
  cases word == "DO" <;> simp

/-- Behind modifiers `END` names no kind, since the word behind it is looked for behind three characters of the line. -/
theorem ofKeyword?_behind_end {t : List Char} (ht : Unmodified t) (hend : upper (splitWord t).1 = "END") {m : Modifier}
    {ms : List Modifier} (horder : InOrder (m :: ms)) :
    BlockKind.ofKeyword? (String.ofList (leadingWord ((written (m :: ms) ++ t).drop 3))) = none := by
  obtain ⟨a, b, c, letters, hletters, -⟩ := m.exists_letters
  obtain ⟨-, hword, hupper⟩ := m.letters_spec
  rw [written_cons_append, m.text_append, hletters]
  show BlockKind.ofKeyword? (String.ofList (leadingWord (letters ++ ' ' :: (List.replicate m.more ' ' ++ (written ms ++ t))))) =
    none
  rw [← ofKeyword?_upper]
  cases letters with
  | nil =>
    have hblanks : trimStart (' ' :: (List.replicate m.more ' ' ++ (written ms ++ t))) = trimStart (written ms ++ t) := by
      rw [← List.cons_append, ← List.replicate_succ]
      exact List.dropWhile_append_of_pos fun d hd => by rw [List.eq_of_mem_replicate hd]; rfl
    have hrest : InOrder ms := (List.sublist_cons_self _ _).trans horder
    have hleading : leadingWord ([] ++ ' ' :: (List.replicate m.more ' ' ++ (written ms ++ t))) = (splitWord t).1 := by
      have hwritten := ht.leadingWord_written ms
      rw [(left_eq_nil_iff _ _).2 hrest] at hwritten
      rw [← show leadingWord (written ms ++ t) = (splitWord t).1 from hwritten, List.nil_append, leadingWord, leadingWord,
        dropModifiers, dropModifiers, hblanks]
    rw [hleading, hend]
    decide +kernel
  | cons d letters =>
    have htail : ∀ e ∈ d :: letters, isWordChar e = true := fun e he => hword e (by rw [hletters]; simp [List.mem_cons.1 he])
    have hlookup : upper (d :: letters) ∈ ["NC", "ORT", "LIC", "VATE", "TIC"] := by
      have hall : ∀ word ∈ modifierWords, word.toList.drop 3 = [] ∨
          String.ofList (word.toList.drop 3) ∈ ["NC", "ORT", "LIC", "VATE", "TIC"] := by decide
      have hdrop := hall _ hupper
      rw [hletters, upper, String.toList_ofList] at hdrop
      exact hdrop.resolve_left (List.cons_ne_nil _ _)
    have hfirst := splitWord_word htail (List.cons_ne_nil d letters) (show isWordChar ' ' = false by decide)
      (List.replicate m.more ' ' ++ (written ms ++ t))
    have hunmodified : Unmodified (d :: letters ++ ' ' :: (List.replicate m.more ' ' ++ (written ms ++ t))) := by
      refine unmodified_of_splitWord fun name hname => Bool.eq_false_iff.2 fun hspelled => ?_
      rw [hfirst] at hspelled
      obtain ⟨w, hw, -, -, hmodifier⟩ := exists_of_isWord hname hspelled
      rw [← List.append_cancel_right hw] at hmodifier
      have hdisjoint : ∀ word ∈ ["NC", "ORT", "LIC", "VATE", "TIC"], word ∉ modifierWords := by decide
      exact hdisjoint _ hlookup hmodifier
    have hnone : ∀ word ∈ ["NC", "ORT", "LIC", "VATE", "TIC"], BlockKind.ofKeyword? word = none := by decide +kernel
    rw [hunmodified.leadingWord_eq, hfirst]
    exact hnone _ hlookup

/-- `DO` alone on a line opens a loop, and as soon as something else stands on it, it does not. -/
theorem upper_eq_do_iff {x : List Char} (hx : Visible x) :
    upper x = "DO" ↔ upper (x.takeWhile isWordChar) = "DO" ∧ endStyle x = .keyword ∧ isOneLiner "DO" x = false := by
  constructor
  · intro hdo
    obtain ⟨d, o, rfl⟩ : ∃ d o, x = [d, o] := by
      have hlength := congrArg (·.toList.length) hdo
      rw [upper, String.toList_ofList, List.length_map] at hlength
      exact List.length_eq_two.1 hlength
    have hcapitals : [d.toUpper, o.toUpper] = ['D', 'O'] := String.ofList_inj.1 hdo
    have hd : isWordChar d = true := isWordChar_of_isUpper_toUpper (by rw [(List.cons.inj hcapitals).1]; rfl)
    have ho : isWordChar o = true :=
      isWordChar_of_isUpper_toUpper (by rw [(List.cons.inj (List.cons.inj hcapitals).2).1]; rfl)
    have hmark (c : Char) (hc : isWordChar c = false) : o ≠ c := by
      rintro rfl
      rw [ho] at hc
      cases hc
    refine ⟨?_, ?_, ?_⟩
    · rw [List.takeWhile_cons_of_pos hd, List.takeWhile_cons_of_pos ho]
      exact hdo
    · unfold endStyle
      split
      · next heq => exact absurd (Option.some.inj heq) (hmark '{' (by decide))
      · next heq => exact absurd (Option.some.inj heq) (hmark ':' (by decide))
      · rfl
    · show (some o == some ';' || _ || _ || _) = false
      rw [beq_eq_false_iff_ne.2 fun h => hmark ';' (by decide) (Option.some.inj h)]
      rfl
  · rintro ⟨hword, -, hline⟩
    obtain ⟨d, o, hdo⟩ : ∃ d o, x.takeWhile isWordChar = [d, o] := by
      have hlength := congrArg (·.toList.length) hword
      rw [upper, String.toList_ofList, List.length_map] at hlength
      exact List.length_eq_two.1 hlength
    have hparts : x = d :: o :: x.dropWhile isWordChar := by
      have happend := List.takeWhile_append_dropWhile (p := isWordChar) (l := x)
      rw [hdo] at happend
      exact happend.symm
    have hbehind : isBlank (x.drop 2) = true := by
      rw [isOneLiner] at hline
      simpa using (Bool.or_eq_false_iff.1 (Bool.or_eq_false_iff.1 hline).1).2
    rw [hdo] at hword
    obtain ⟨front, last, hfront, hlast⟩ := hx.last
    obtain hrest | ⟨rest, e, hrest⟩ := List.eq_nil_or_concat' (x.dropWhile isWordChar)
    · rwa [hparts, hrest]
    · rw [hparts, hrest] at hbehind
      have he : isSpace e = true := List.all_eq_true.1 hbehind e List.mem_concat_self
      have hsame : front ++ [last] = d :: o :: rest ++ [e] := by
        rw [← hfront, hparts, hrest]
        rfl
      rw [(List.cons.inj (List.append_inj' hsame rfl).2).1, he] at hlast
      cases hlast

/-- Which roles are read off more of a line than its first word and its end: a brace that it begins with, the word behind
`END`, and whether `DO` stands alone. -/
def ReadsBeginning (trimmed : List Char) : Prop :=
  trimmed.head? = some '}' ∨
    (upper (leadingWord trimmed) = "END" ∧
      (BlockKind.ofKeyword? (String.ofList (leadingWord (trimmed.drop 3)))).isSome = true) ∨
    upper trimmed = "DO"

instance (trimmed : List Char) : Decidable (ReadsBeginning trimmed) :=
  inferInstanceAs (Decidable (_ ∨ (_ ∧ _) ∨ _))

theorem ofWord_written_append_iff {lead x : List Char} (hx : Visible x) (hlead : isBlank lead = true)
    (ht : Unmodified (lead ++ x)) {word : String} (hword : word = upper (x.takeWhile isWordChar)) {m : Modifier}
    {ms : List Modifier} (horder : InOrder (m :: ms)) :
    ofWord word (written (m :: ms) ++ (lead ++ x)) = ofWord word x ↔
      ¬((word = "END" ∧ (BlockKind.ofKeyword? (String.ofList (leadingWord (x.drop 3)))).isSome = true) ∨
        upper x = "DO") := by
  have hdo := upper_eq_do_iff hx
  have hne := hx.ne_nil
  have hstyle : endStyle (written (m :: ms) ++ (lead ++ x)) = endStyle x := by
    rw [endStyle_append (List.append_ne_nil_of_right_ne_nil lead hne), endStyle_append hne]
  rw [← hword] at hdo
  by_cases hend : word = "END"
  · have hnot : upper x ≠ "DO" := fun h => by
      have hsame := (hdo.1 h).1
      rw [hend] at hsame
      exact absurd hsame (by decide)
    have hbehind := ofKeyword?_behind_end ht (by rw [splitWord_visible hx hlead, ← hword, hend]) horder
    have hofWord (y : List Char) : ofWord word y =
        .closes (BlockKind.ofKeyword? (String.ofList (leadingWord (y.drop 3)))) .keyword := by
      rw [hend]
      rfl
    rw [hofWord, hofWord, hbehind]
    cases BlockKind.ofKeyword? (String.ofList (leadingWord (x.drop 3))) <;> simp [hend, hnot]
  · have hif (h : word = "IF") : StartsOff x := by
      intro c hc hupper
      obtain ⟨rest, rfl⟩ : ∃ rest, x = c :: rest := List.head?_eq_some_iff.1 hc
      rw [List.takeWhile_cons_of_pos (isWordChar_of_isUpper_toUpper (by rw [hupper]; rfl)), h] at hword
      have hletters := String.ofList_inj.1 (hword : String.ofList ['I', 'F'] = _)
      rw [List.map_cons, hupper] at hletters
      exact absurd (List.cons.inj hletters).1 (by decide)
    have hline := isOneLiner_written_append hne hlead hif m ms
    rw [ofWord, ofWord, closer?_of_ne_end hend _ x, opener, opener, hstyle, hline]
    by_cases hword' : word = "DO"
    · have hcloser : closer? "DO" x = none := by
        rw [closer?_of_ne_end (by decide) x []]
        decide +kernel
      have hkind : BlockKind.ofKeyword? "DO" = some .loop := by decide +kernel
      have hcontinuation : "DO" ∉ continuationWords := by decide
      rw [hword', hcloser, hkind, hdo, hword']
      cases endStyle x <;> cases isOneLiner "DO" x <;> simp [hcontinuation]
    · have hother : (word == "DO") = false := beq_eq_false_iff_ne.2 hword'
      rw [hother, Bool.or_false]
      exact iff_of_true rfl fun h => h.elim (fun h => hend h.1) fun h => hword' (hdo.1 h).1

theorem trim_written_append {lead x ends : List Char} (hx : Visible x) (hends : isBlank ends = true) (m : Modifier)
    (ms : List Modifier) : trim (written (m :: ms) ++ (lead ++ (x ++ ends))) = written (m :: ms) ++ (lead ++ x) := by
  have hstart : trimStart (written (m :: ms) ++ lead) = written (m :: ms) ++ lead := by
    rw [written_cons_append, m.trimStart_text]
  have hwhole := trim_around (written (m :: ms) ++ lead) hx []
  rw [hstart, List.append_nil, show trimEnd [] = [] from rfl, List.append_nil] at hwhole
  rw [← List.append_assoc lead, ← List.append_assoc, trim_append_blank hends, ← List.append_assoc, hwhole]

theorem head_written_append {m : Modifier} {ms : List Modifier} {y : List Char} {c : Char} {cs : List Char}
    (h : written (m :: ms) ++ y = c :: cs) : c ≠ '}' := by
  obtain ⟨hne, hword, -⟩ := m.letters_spec
  obtain ⟨d, letters, hletters⟩ := List.exists_cons_of_ne_nil hne
  rw [written_cons_append, m.text_append, hletters] at h
  obtain rfl : d = c := (List.cons.inj h).1
  have hd := hword d (by rw [hletters]; exact List.mem_cons_self)
  rintro rfl
  exact absurd hd (by decide)

/-- Without a keyword only the end of a line matters. -/
theorem opener_empty_append {x : List Char} (hx : x ≠ []) (front : List Char) : opener "" (front ++ x) = opener "" x := by
  rw [opener, opener, endStyle_append hx, ofKeyword?_empty]

theorem opener_empty_of_keyword {x : List Char} (h : endStyle x = .keyword) : opener "" x = .plain := by
  rw [opener, ofKeyword?_empty, h]

theorem endStyle_concat {c : Char} (hc : isWordChar c = true) (front : List Char) : endStyle (front ++ [c]) = .keyword := by
  rw [endStyle, List.getLast?_concat]
  split
  · next heq =>
    rw [Option.some.inj heq] at hc
    exact absurd hc (by decide)
  · next heq =>
    rw [Option.some.inj heq] at hc
    exact absurd hc (by decide)
  · rfl

/-- A modifier without its blank is no modifier. -/
theorem Modifier.unmodified_letters (m : Modifier) : Unmodified m.letters := by
  intro name hname
  refine Bool.eq_false_iff.2 fun hword => ?_
  obtain ⟨letters, htake, -⟩ := exists_of_isWord hname hword
  have hmem : ' ' ∈ m.letters := by
    refine trimStart_subset _ (List.take_subset name.length _ ?_)
    rw [htake]
    exact List.mem_concat_self
  exact absurd (m.letters_spec.2.1 ' ' hmem) (by decide)

theorem Modifier.splitWord_letters (m : Modifier) : (splitWord m.letters).1 = m.letters := by
  obtain ⟨hne, hword, -⟩ := m.letters_spec
  obtain ⟨c, letters, hletters⟩ := List.exists_cons_of_ne_nil hne
  have hc : isSpace c = false := isSpace_of_isWordChar (hword c (by rw [hletters]; exact List.mem_cons_self))
  have hstart : trimStart m.letters = m.letters := by
    rw [hletters]
    exact List.dropWhile_cons_of_neg (by simp [hc])
  rw [splitWord, hstart]
  exact List.takeWhile_eq_self_iff.2 hword

/-- Nothing but modifiers is a plain line, though the last of them has no blank behind it and counts as a word. -/
theorem ofLine_written_append_blank (ms : List Modifier) {t : List Char} (ht : isBlank t = true) :
    ofLine (written ms ++ t) = .plain := by
  obtain rfl | ⟨init, last, rfl⟩ := List.eq_nil_or_concat' ms
  · rw [ofLine, show trim (written [] ++ t) = [] from trim_eq_nil ht]
  · obtain ⟨hne, hword, hupper⟩ := last.letters_spec
    obtain ⟨letters, e, hletters⟩ := (List.eq_nil_or_concat' last.letters).resolve_left hne
    have he : isWordChar e = true := hword e (by rw [hletters]; exact List.mem_concat_self)
    have htrim : trim (written (init ++ [last]) ++ t) = written init ++ last.letters := by
      have hstart : trimStart (written (init ++ [last]) ++ t) = written (init ++ [last]) ++ t := by
        obtain ⟨m, ms, hms⟩ := List.exists_cons_of_ne_nil (List.append_ne_nil_of_right_ne_nil init (List.cons_ne_nil last []))
        rw [hms, written_cons_append, m.trimStart_text]
      have htext : written (init ++ [last]) ++ t =
          written init ++ letters ++ [e] ++ (' ' :: List.replicate last.more ' ' ++ t) := by
        rw [written, List.flatMap_append, List.flatMap_singleton, Modifier.text, hletters]
        simp only [written, List.append_assoc]
      have hblank : isBlank (' ' :: List.replicate last.more ' ' ++ t) = true := by
        rw [isBlank, List.all_append, ← List.replicate_succ, List.all_replicate]
        exact Bool.and_eq_true_iff.2 ⟨rfl, ht⟩
      rw [trim, hstart, htext, trimEnd_append_blank hblank, trimEnd,
        dropEndWhile_append_cons (isSpace_of_isWordChar he), hletters, List.append_assoc]
      rfl
    have hleading : upper (leadingWord (written init ++ last.letters)) ∈ modifierWords := by
      rw [last.unmodified_letters.leadingWord_written, last.splitWord_letters]
      cases left modifiers init with
      | nil => exact hupper
      | cons m rest => exact m.letters_spec.2.2
    obtain ⟨c, cs, hcons⟩ := List.exists_cons_of_ne_nil (List.append_ne_nil_of_right_ne_nil (written init) hne)
    have hc : c ≠ '}' := by
      cases init with
      | nil =>
        have hfirst := hword c (by rw [show last.letters = c :: cs from hcons]; exact List.mem_cons_self)
        rintro rfl
        exact absurd hfirst (by decide)
      | cons m ms => exact head_written_append hcons
    rw [ofLine_eq_ofWord (htrim.trans hcons) hc, htrim, ofWord_modifier hleading, opener_empty_append hne, hletters,
      opener_empty_of_keyword (endStyle_concat he letters)]

/-- A line behind modifiers in order keeps its role unless more than its first word and its end is read. -/
theorem ofWord_inOrder_iff {t lead x : List Char} (hx : Visible x) (htrim : trim t = x) (hlead : isBlank lead = true)
    (ht : Unmodified x) {m : Modifier} {ms : List Modifier} (horder : InOrder (m :: ms)) :
    ofWord (upper (x.takeWhile isWordChar)) (written (m :: ms) ++ (lead ++ x)) = ofLine t ↔ ¬ReadsBeginning x := by
  have hleading : leadingWord x = x.takeWhile isWordChar := ht.leadingWord_eq.trans (@splitWord_visible _ hx [] rfl)
  have ht' : Unmodified (lead ++ x) := by
    unfold Unmodified
    rwa [trimStart_visible hx hlead, ← @trimStart_visible _ hx [] rfl]
  obtain ⟨c, cs, hcons, -⟩ := hx.head
  by_cases hc : c = '}'
  · subst hc
    have hword : upper (x.takeWhile isWordChar) = "" := by
      rw [hcons, List.takeWhile_cons_of_neg (by decide)]
      rfl
    refine iff_of_false (fun heq => ?_) (fun hreads => hreads (.inl (by rw [hcons]; rfl)))
    rw [hword, ofWord_empty] at heq
    have hbrace : ofLine t = .continues .brace ∨ ofLine t = .closes none .brace := by
      rw [ofLine, htrim, hcons]
      exact ite_eq_or_eq _ _ _
    have hopener (y : List Char) : opener "" y = .plain ∨ ∃ style, opener "" y = .opens .generic style := by
      rw [opener, ofKeyword?_empty]
      cases endStyle y with
      | keyword => exact .inl rfl
      | brace => exact .inr ⟨_, rfl⟩
      | indent => exact .inr ⟨_, rfl⟩
    rw [← heq] at hbrace
    rcases hopener (written (m :: ms) ++ (lead ++ x)) with hplain | ⟨style, hopens⟩
    · simp [hplain] at hbrace
    · simp [hopens] at hbrace
  · have hhead : x.head? ≠ some '}' := by
      rw [hcons]
      exact fun h => hc (Option.some.inj h)
    rw [ofLine_eq_ofWord (htrim.trans hcons) hc, htrim, hleading, ofWord_written_append_iff hx hlead ht' rfl horder,
      ReadsBeginning, hleading, or_iff_right hhead]

/-- Behind modifiers a line keeps its first word, and loses all of them in one pass, exactly if they stand in order.  It
keeps its role if they do, unless more of the line than this word and the end is read; otherwise its role is that of a line
without a keyword. -/
theorem keeps_role_behind_iff (ms : List Modifier) {t : List Char}
    (h : ∀ name ∈ modifiers, isWord name ((splitWord t).1 ++ [' ']) = false) :
    (leadingWord (written ms ++ t) = leadingWord t ↔ InOrder ms) ∧
      (dropModifiers (dropModifiers (written ms ++ t)) = dropModifiers (written ms ++ t) ↔ InOrder ms) ∧
      (ofLine (written ms ++ t) = ofLine t ↔
        ms = [] ∨ if InOrder ms then ¬ReadsBeginning (trim t) else ofLine t = opener "" (trim t)) := by
  have ht := unmodified_of_splitWord h
  refine ⟨?_, ?_, ?_⟩
  · rw [ht.leadingWord_written, ht.leadingWord_eq, InOrder, ← left_eq_nil_iff]
    cases left modifiers ms with
    | nil => exact iff_of_true rfl rfl
    | cons m rest =>
      refine iff_of_false (fun heq => ?_) (List.cons_ne_nil m rest)
      have hspelled := m.spelled
      rw [show m.letters = (splitWord t).1 from heq, h m.name m.isModifier] at hspelled
      cases hspelled
  · rw [ht.dropModifiers_twice_iff, InOrder, left_eq_nil_iff]
  · cases ms with
    | nil => exact iff_of_true rfl (.inl rfl)
    | cons m ms =>
      rw [or_iff_right (List.cons_ne_nil m ms)]
      cases hblank : isBlank t with
      | true =>
        have hplain : ofLine t = .plain := ofLine_written_append_blank [] hblank
        have hempty : .plain = opener "" [] ∧ ¬ReadsBeginning [] := by decide +kernel
        rw [ofLine_written_append_blank _ hblank, hplain, show trim t = [] from trim_eq_nil hblank]
        split
        · exact iff_of_true rfl hempty.2
        · exact iff_of_true rfl hempty.1
      | false =>
        obtain ⟨lead, x, ends, rfl, hlead, hx, hends⟩ := exists_visible hblank
        have hne := hx.ne_nil
        have hfirst : (splitWord (lead ++ x)).1 = (splitWord (lead ++ (x ++ ends))).1 := by
          obtain ⟨c, cs, hcons, hc⟩ := hx.head
          rw [splitWord_visible hx hlead, ← takeWhile_append_blank hends, splitWord, hcons, List.cons_append,
            trimStart_append_cons hlead hc]
        have hlead' : Unmodified (lead ++ x) := unmodified_of_splitWord (by rwa [hfirst])
        obtain ⟨d, ds, hcons⟩ := List.exists_cons_of_ne_nil
          (List.append_ne_nil_of_right_ne_nil (written (m :: ms)) (List.append_ne_nil_of_right_ne_nil lead hne))
        rw [ofLine_eq_ofWord ((trim_written_append hx hends m ms).trans hcons) (head_written_append hcons),
          trim_written_append hx hends m ms, hlead'.leadingWord_written, trim_visible hx hlead hends]
        split
        · next horder =>
          rw [(left_eq_nil_iff _ _).2 horder]
          show ofWord (upper (splitWord (lead ++ x)).1) _ = _ ↔ _
          have ht' : Unmodified x := unmodified_of_splitWord (by
            rwa [show (splitWord x).1 = _ from @splitWord_visible _ hx [] rfl, ← splitWord_visible hx hlead, hfirst])
          rw [splitWord_visible hx hlead]
          exact ofWord_inOrder_iff hx (trim_visible hx hlead hends) hlead ht' horder
        · next horder =>
          obtain ⟨n, rest, hleft⟩ := List.exists_cons_of_ne_nil (mt (left_eq_nil_iff _ _).1 horder)
          rw [hleft]
          show ofWord (upper n.letters) _ = _ ↔ _
          rw [ofWord_modifier n.letters_spec.2.2, opener_empty_append (List.append_ne_nil_of_right_ne_nil lead hne),
            opener_empty_append hne, eq_comm]

/-- In order a function with a modifier keeps its role, and `END IF` does not. -/
theorem keeps_role_behind_async :
    let async : Modifier := ⟨"async ", by decide, "Async".toList, by decide, 0⟩
    let function := "function go() \x7b".toList
    let closer := "END IF".toList
    (ofLine (written [async] ++ function) = ofLine function ↔ True) ∧
      (ofLine (written [async] ++ closer) = ofLine closer ↔ False) := by
  refine ⟨(keeps_role_behind_iff [⟨"async ", by decide, "Async".toList, by decide, 0⟩] (t := "function go() \x7b".toList)
    (by decide +kernel)).2.2.trans ?_, (keeps_role_behind_iff [⟨"async ", by decide, "Async".toList, by decide, 0⟩]
    (t := "END IF".toList) (by decide +kernel)).2.2.trans ?_⟩
  · decide +kernel
  · decide +kernel

/-- In the usual order of `export` and `async` the second one is taken for the first word, and the function is lost. -/
theorem loses_role_behind_export_async :
    ∃ (ms : List Modifier) (t : List Char), (∀ name ∈ modifiers, isWord name ((splitWord t).1 ++ [' ']) = false) ∧
      written ms ++ t = "export async function go() \x7b".toList ∧
      leadingWord (written ms ++ t) = "async".toList ∧ leadingWord t = "function".toList ∧
      dropModifiers (dropModifiers (written ms ++ t)) ≠ dropModifiers (written ms ++ t) ∧
      ofLine (written ms ++ t) = .opens .generic .brace ∧ ofLine t = .opens .function .brace :=
  ⟨[⟨"export ", by decide, "export".toList, by decide, 0⟩, ⟨"async ", by decide, "async".toList, by decide, 0⟩],
    "function go() \x7b".toList, by decide +kernel⟩

end LineShape

end Pseudoscribe
