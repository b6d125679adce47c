import Pseudoscribe.Code.Header
import Pseudoscribe.Code.Statement
import Pseudoscribe.Proofs.Text.Pieces

/-!
# What a line says is cut out of the line

Headers, continuations and statements keep pieces of the line that they were read from, and nothing else but the
name of a function that has none.
-/

namespace Pseudoscribe

open Text

/-! ## Phrases -/

namespace Phrase

theorem cutOf_splitAtFrom (keyword : List Char) (quote prev : Option Char) (cs : List Char) :
    CutOf cs (splitAtFrom keyword quote prev cs) := by
  -- a character that is passed over stands in front of what the rest is cut into
  have onward {c : Char} {cs : List Char} {sides : Option (List Char × List Char)} (h : CutOf cs sides) :
      CutOf (c :: cs) (sides.map fun r => (c :: r.1, r.2)) := by
    intro r hr
    obtain ⟨s, hs, rfl⟩ := Option.map_eq_some_iff.1 hr
    obtain ⟨hbefore, hbehind⟩ := h s hs
    exact ⟨List.cons_subset_cons c hbefore, List.Subset.trans hbehind (List.subset_cons_self c cs)⟩
  induction cs generalizing quote prev with
  | nil => intro r hr; cases hr
  | cons c cs ih =>
    unfold splitAtFrom
    dsimp only
    split
    · exact onward (ih _ _)
    · split
      · exact onward (ih _ _)
      · split
        · intro r hr
          cases hr
          exact ⟨List.nil_subset _, (List.drop_sublist _ _).subset⟩
        · exact onward (ih _ _)

theorem cutOf_splitAt? (keyword : String) (cs : List Char) : CutOf cs (splitAt? keyword cs) :=
  cutOf_splitAtFrom _ none none cs

theorem dropLastWord_subset (keyword : String) (cs : List Char) : dropLastWord keyword cs ⊆ cs := by
  unfold dropLastWord
  dsimp only
  split
  · exact List.Subset.trans (trimEnd_subset _) (List.Subset.trans (List.take_sublist _ _).subset (trimEnd_subset cs))
  · exact trimEnd_subset cs

theorem cutOf_splitAtEquals (before cs : List Char) : CutOf (before ++ cs) (splitAtEquals before cs) := by
  induction cs generalizing before with
  | nil => intro r hr; cases hr
  | cons c cs ih =>
    unfold splitAtEquals
    split
    · intro r hr
      cases hr
      constructor
      · intro d hd
        exact List.mem_append_left _ (List.mem_reverse.1 hd)
      · intro d hd
        exact List.mem_append_right _ (List.mem_cons_of_mem _ hd)
    · refine (ih (c :: before)).mono fun d hd => ?_
      simp only [List.cons_append, List.mem_cons, List.mem_append] at hd ⊢
      rcases hd with hd | hd | hd
      · exact .inr (.inl hd)
      · exact .inl hd
      · exact .inr (.inr hd)

theorem cutOf_assignment? {cs : List Char} {sides : Option (List Char × List Char)} (h : CutOf cs sides) :
    CutOf cs (assignment? sides) := by
  intro r hr
  unfold assignment? at hr
  split at hr
  · next target value =>
    split at hr
    · cases hr
      obtain ⟨htarget, hvalue⟩ := h _ rfl
      exact ⟨List.Subset.trans (trim_subset _) htarget, List.Subset.trans (trim_subset _) hvalue⟩
    · cases hr
  · cases hr

theorem cutOf_splitAssignment? (cs : List Char) : CutOf cs (splitAssignment? cs) := by
  refine CutOf.mono ?_ (trim_subset cs)
  unfold splitAssignment?
  dsimp only
  refine (cutOf_assignment? (cutOf_splitAt? _ _)).or ?_
  refine (cutOf_assignment? (cutOf_cutAt _ _)).or ?_
  refine (cutOf_assignment? (cutOf_cutAt _ _)).or ?_
  refine (cutOf_assignment? (cutOf_cutAt _ _)).or ?_
  exact cutOf_assignment? (cutOf_splitAtEquals [] _)

theorem subset_of_mem_parameterNames {cs : List Char} {name : String} (h : name ∈ parameterNames cs) :
    name.toList ⊆ cs := by
  unfold parameterNames at h
  obtain ⟨part, hpart, hname⟩ := List.mem_filterMap.1 h
  dsimp only at hname
  split at hname
  · cases hname
  · cases hname
    rw [String.toList_ofList]
    exact List.Subset.trans (splitWord_subset part).1 (subset_of_mem_splitOn hpart)

theorem betweenBrackets_subset (before behind : List Char) : betweenBrackets before behind ⊆ behind := by
  unfold betweenBrackets
  split
  · next inner h =>
    obtain ⟨r, hr, rfl⟩ := Option.map_eq_some_iff.1 h
    intro c hc
    have hmem := (cutOf_cutAt _ _ r hr).2 (List.mem_reverse.1 hc)
    exact List.mem_reverse.1 hmem
  · split
    · exact List.nil_subset _
    · exact List.Subset.refl _

/-- The text in front of the word `RETURNS`. -/
theorem beforeReturns_subset (cs : List Char) :
    (match splitAt? "RETURNS" (trim cs) with
      | some (before, _) => trim before
      | none => trim cs) ⊆ cs := by
  refine List.Subset.trans ?_ (trim_subset cs)
  split
  · next h => exact List.Subset.trans (trim_subset _) (cutOf_splitAt? _ _ _ h).1
  · exact List.Subset.refl _

/-- The text in front of an arrow. -/
theorem beforeArrow_subset (cs : List Char) :
    trim (match cutAt ['-', '>'] cs with
      | some (before, _) => before
      | none => cs) ⊆ cs := by
  refine List.Subset.trans (trim_subset _) ?_
  split
  · next h => exact (cutOf_cutAt _ _ _ h).1
  · exact List.Subset.refl cs

/-- The name and the text with the parameters. -/
theorem nameAndParameters_subset (cs : List Char) :
    let r := match cutAt ['('] cs with
      | some (before, behind) => (trim before, betweenBrackets before behind)
      | none => ((splitWord cs).1, (dropWord? "WITH" (trim (splitWord cs).2)).getD (splitWord cs).2)
    r.1 ⊆ cs ∧ r.2 ⊆ cs := by
  dsimp only
  split
  · next before behind h =>
    obtain ⟨hbefore, hbehind⟩ := cutOf_cutAt _ _ _ h
    exact ⟨List.Subset.trans (trim_subset _) hbefore, List.Subset.trans (betweenBrackets_subset _ _) hbehind⟩
  · obtain ⟨hword, htail⟩ := splitWord_subset cs
    refine ⟨hword, List.Subset.trans ?_ htail⟩
    cases hwith : dropWord? "WITH" (trim (splitWord cs).2) with
    | none => exact List.Subset.refl _
    | some rest => exact List.Subset.trans (dropWord?_subset hwith) (trim_subset _)

theorem nameOr_subset {name cs : List Char} (h : name ⊆ cs) :
    (if name.isEmpty then "anonymous" else String.ofList name) = "anonymous" ∨
      (if name.isEmpty then "anonymous" else String.ofList name).toList ⊆ cs := by
  by_cases hempty : name.isEmpty = true
  · rw [if_pos hempty]
    exact .inl rfl
  · rw [if_neg hempty, String.toList_ofList]
    exact .inr h

theorem splitSignature_subset (cs : List Char) :
    ((splitSignature cs).1 = "anonymous" ∨ (splitSignature cs).1.toList ⊆ cs) ∧
      ∀ p ∈ (splitSignature cs).2, p.toList ⊆ cs := by
  have htext := List.Subset.trans (beforeArrow_subset _) (beforeReturns_subset cs)
  obtain ⟨hname, hparams⟩ := nameAndParameters_subset _
  refine ⟨nameOr_subset (List.Subset.trans hname htext), fun p hp => ?_⟩
  exact List.Subset.trans (subset_of_mem_parameterNames hp) (List.Subset.trans hparams htext)

theorem splitClass_subset (cs : List Char) :
    (splitClass cs).1 ⊆ cs ∧ ∀ base ∈ (splitClass cs).2, base ⊆ cs := by
  unfold splitClass
  dsimp only
  cases hcut : cutAt ['('] (trim cs) with
  | some r =>
    obtain ⟨hbefore, hbehind⟩ := cutOf_cutAt _ _ _ hcut
    refine ⟨List.Subset.trans (trim_subset _) (List.Subset.trans hbefore (trim_subset cs)), fun base hbase => ?_⟩
    obtain ⟨hsome, -⟩ := Option.mem_filter_iff.1 hbase
    cases hsome
    exact List.Subset.trans (trim_subset _) (List.Subset.trans (dropEndWhile_subset _ _)
      (List.Subset.trans hbehind (trim_subset cs)))
  | none =>
    obtain ⟨hword, htail⟩ := splitWord_subset (trim cs)
    refine ⟨List.Subset.trans hword (trim_subset cs), fun base hbase => ?_⟩
    obtain ⟨hsome, -⟩ := Option.mem_filter_iff.1 hbase
    obtain ⟨b, hb, rfl⟩ := Option.map_eq_some_iff.1 hsome
    have hrest : b ⊆ (splitWord (trim cs)).2 := by
      cases hextends : dropWord? "EXTENDS" (splitWord (trim cs)).2 with
      | some rest =>
        rw [hextends, Option.some_or] at hb
        cases hb
        exact dropWord?_subset hextends
      | none =>
        rw [hextends, Option.none_or] at hb
        exact dropWord?_subset hb
    exact List.Subset.trans (trim_subset _) (List.Subset.trans (getD_dropWord?_subset "FROM" b)
      (List.Subset.trans hrest (List.Subset.trans htail (trim_subset cs))))

end Phrase

/-! ## Headers -/

namespace LineShape

theorem dropModifier_subset (cs : List Char) (modifier : String) : dropModifier cs modifier ⊆ cs := by
  unfold dropModifier
  dsimp only
  split
  · exact List.Subset.trans (trimStart_subset _) (List.drop_sublist _ _).subset
  · exact List.Subset.refl cs

theorem dropModifiers_subset (cs : List Char) : dropModifiers cs ⊆ cs := by
  have hstart := trimStart_subset cs
  unfold dropModifiers
  generalize trimStart cs = start at hstart ⊢
  induction modifiers generalizing start with
  | nil => exact hstart
  | cons m ms ih => exact ih _ (List.Subset.trans (dropModifier_subset start m) hstart)

end LineShape

namespace Header

/-- The texts that a header keeps. -/
def texts : Header → List (List Char)
  | function name params => name.toList :: params.map String.toList
  | record name base => name :: base.toList
  | condition test | loopWhile test => [test]
  | loopRange var start stop step => var :: start :: stop :: step.toList
  | loopEach var items => [var, items]
  | loopUntil | loopForever | attempt | group | unknown => []

/-- The header keeps parts of the text only. -/
def PartOf (cs : List Char) (h : Header) : Prop := ∀ t ∈ h.texts, t = "anonymous".toList ∨ t ⊆ cs

theorem PartOf.mono {cs ds : List Char} {h : Header} (hpart : PartOf cs h) (hsub : cs ⊆ ds) :
    PartOf ds h :=
  fun t ht => (hpart t ht).imp_right (List.Subset.trans · hsub)

theorem partOf_of_nil {h : Header} (hnil : h.texts = []) (cs : List Char) : PartOf cs h := by
  intro t ht
  rw [hnil] at ht
  cases ht

theorem partOf_of_subset {h : Header} {cs : List Char} (hsub : ∀ t ∈ h.texts, t ⊆ cs) : PartOf cs h :=
  fun t ht => .inr (hsub t ht)

theorem partOf_each? {cs : List Char} {h : Header} (hh : h ∈ each? cs) : PartOf cs h := by
  unfold each? at hh
  dsimp only at hh
  split at hh
  · cases hh
  · obtain ⟨items, hitems, rfl⟩ := Option.map_eq_some_iff.1 hh
    obtain ⟨hvar, htail⟩ := splitWord_subset cs
    have hbehind := List.Subset.trans (trim_subset (splitWord cs).2) htail
    have hitems : items ⊆ cs := by
      cases hin : dropWord? "IN" (trim (splitWord cs).2) with
      | some rest =>
        rw [hin, Option.some_or] at hitems
        cases hitems
        exact List.Subset.trans (dropWord?_subset hin) hbehind
      | none =>
        rw [hin, Option.none_or] at hitems
        exact List.Subset.trans (dropWord?_subset hitems) hbehind
    refine partOf_of_subset fun t ht => ?_
    simp only [texts, List.mem_cons, List.not_mem_nil, or_false] at ht
    rcases ht with rfl | rfl
    · exact hvar
    · exact hitems

theorem rangeStart?_subset {cs rest : List Char} (h : rest ∈ rangeStart? cs) : rest ⊆ cs := by
  unfold rangeStart? at h
  simp only [Option.mem_def, Option.or_eq_some_iff] at h
  rcases h with h | ⟨-, h | ⟨-, h | ⟨-, h⟩⟩⟩
  · exact dropWord?_subset h
  · exact dropBeginning?_subset h
  · exact dropBeginning?_subset h
  · exact dropBeginning?_subset h

theorem partOf_range? {var cs ds : List Char} {h : Header} (hvar : var ⊆ ds) (hcs : cs ⊆ ds)
    (hh : h ∈ range? var cs) : PartOf ds h := by
  unfold range? at hh
  obtain ⟨⟨start, tail⟩, hto, hh⟩ := Option.bind_eq_some_iff.1 hh
  obtain ⟨hstart, htail⟩ := Phrase.cutOf_splitAt? _ _ _ hto
  refine partOf_of_subset fun t ht => ?_
  cases hstep : Phrase.splitAt? "STEP" tail with
  | none =>
    simp only [hstep] at hh
    cases hh
    simp only [texts, Option.toList_none, List.mem_cons, List.not_mem_nil, or_false] at ht
    rcases ht with rfl | rfl | rfl
    · exact hvar
    · exact List.Subset.trans (trim_subset _) (List.Subset.trans hstart hcs)
    · exact List.Subset.trans (trim_subset _) (List.Subset.trans htail hcs)
  | some r =>
    obtain ⟨hstop, hby⟩ := Phrase.cutOf_splitAt? _ _ _ hstep
    simp only [hstep] at hh
    cases hh
    simp only [texts, Option.toList_some, List.mem_cons, List.not_mem_nil, or_false] at ht
    rcases ht with rfl | rfl | rfl | rfl
    · exact hvar
    · exact List.Subset.trans (trim_subset _) (List.Subset.trans hstart hcs)
    · exact List.Subset.trans (trim_subset _) (List.Subset.trans hstop (List.Subset.trans htail hcs))
    · exact List.Subset.trans (trim_subset _) (List.Subset.trans hby (List.Subset.trans htail hcs))

theorem partOf_for? {cs : List Char} {h : Header} (hh : h ∈ for? cs) : PartOf cs h := by
  unfold for? at hh
  cases heach : dropWord? "EACH" cs with
  | some rest =>
    rw [heach] at hh
    exact (partOf_each? hh).mono (dropWord?_subset heach)
  | none =>
    rw [heach] at hh
    dsimp only at hh
    split at hh
    · cases hh
    · split at hh
      · exact partOf_each? hh
      · obtain ⟨start, hstart, hh⟩ := Option.bind_eq_some_iff.1 hh
        obtain ⟨hvar, htail⟩ := splitWord_subset cs
        exact partOf_range? hvar (List.Subset.trans (rangeStart?_subset hstart)
          (List.Subset.trans (trim_subset _) htail)) hh

theorem partOf_getD {cs : List Char} {h? : Option Header} (h : ∀ h ∈ h?, PartOf cs h) :
    PartOf cs (h?.getD unknown) := by
  cases h? with
  | none => exact partOf_of_nil rfl cs
  | some header => exact h header rfl

/-- A header keeps parts of its line. -/
theorem partOf_ofText (kind : BlockKind) (cs : List Char) : PartOf cs (ofText kind cs) := by
  have hrest : (splitWord (LineShape.dropModifiers cs)).2 ⊆ cs :=
    List.Subset.trans (splitWord_subset _).2 (LineShape.dropModifiers_subset cs)
  unfold ofText
  dsimp only
  generalize (splitWord (LineShape.dropModifiers cs)).2 = rest at hrest ⊢
  cases kind with
  | function =>
    refine PartOf.mono ?_ hrest
    obtain ⟨hname, hparams⟩ := Phrase.splitSignature_subset rest
    intro t ht
    rcases List.mem_cons.1 ht with rfl | ht
    · exact hname.imp_left (congrArg String.toList)
    · obtain ⟨p, hp, rfl⟩ := List.mem_map.1 ht
      exact .inr (hparams p hp)
  | record =>
    refine PartOf.mono (partOf_of_subset fun t ht => ?_) hrest
    obtain ⟨hname, hbase⟩ := Phrase.splitClass_subset rest
    rcases List.mem_cons.1 ht with rfl | ht
    · exact hname
    · exact hbase t (Option.mem_toList.1 ht)
  | conditional =>
    dsimp only
    split
    · refine partOf_of_subset fun t ht => ?_
      obtain rfl := List.mem_singleton.1 ht
      exact List.Subset.trans (Phrase.dropLastWord_subset _ _) hrest
    · exact partOf_of_nil rfl cs
  | loop =>
    dsimp only
    have htrim := List.Subset.trans (trim_subset rest) hrest
    split
    · refine partOf_of_subset fun t ht => ?_
      obtain rfl := List.mem_singleton.1 ht
      exact List.Subset.trans (Phrase.dropLastWord_subset _ _) hrest
    · exact partOf_of_nil rfl cs
    · exact partOf_of_nil rfl cs
    · exact partOf_of_nil rfl cs
    · exact partOf_getD fun h hh => (partOf_for? hh).mono htrim
    · exact partOf_getD fun h hh => (partOf_each? hh).mono htrim
    · exact partOf_of_nil rfl cs
  | generic =>
    dsimp only
    split
    · exact partOf_of_nil rfl cs
    · exact partOf_of_nil rfl cs
    · exact partOf_of_nil rfl cs

theorem strip_subset (cs : List Char) : strip cs ⊆ cs := List.Subset.trans (trim_subset _) (dropEndWhile_subset _ cs)

end Header

/-! ## Continuations and statements -/

namespace Continuation

/-- The texts that a continuation keeps. -/
def texts : Continuation → List (List Char)
  | elseIf test => [test]
  | rescue name => [name]
  | otherwise | always | unknown => []

theorem subset_of_mem_texts {cs t : List Char} (ht : t ∈ (ofCode cs).texts) : t ⊆ cs := by
  have hrest : (splitWord (Header.strip (trim (cs.dropWhile (· == '}'))))).2 ⊆ cs :=
    List.Subset.trans (splitWord_subset _).2 (List.Subset.trans (Header.strip_subset _)
      (List.Subset.trans (trim_subset _) (List.dropWhile_sublist _).subset))
  unfold ofCode at ht
  dsimp only at ht
  generalize (splitWord (Header.strip (trim (cs.dropWhile (· == '}'))))).2 = rest at hrest ht
  split at ht
  · obtain rfl := List.mem_singleton.1 ht
    exact List.Subset.trans (Phrase.dropLastWord_subset _ _) hrest
  · obtain rfl := List.mem_singleton.1 ht
    exact List.Subset.trans (Phrase.dropLastWord_subset _ _) hrest
  · split at ht
    · next test hif =>
      obtain rfl := List.mem_singleton.1 ht
      exact List.Subset.trans (Phrase.dropLastWord_subset _ _) (List.Subset.trans (dropWord?_subset hif) hrest)
    · cases ht
  · cases ht
  · obtain rfl := List.mem_singleton.1 ht
    exact List.Subset.trans (trim_subset _) (List.Subset.trans (dropEndWhile_subset _ _)
      (List.Subset.trans (List.dropWhile_sublist _).subset (List.Subset.trans (trim_subset _) hrest)))
  · obtain rfl := List.mem_singleton.1 ht
    exact List.Subset.trans (trim_subset _) (List.Subset.trans (dropEndWhile_subset _ _)
      (List.Subset.trans (List.dropWhile_sublist _).subset (List.Subset.trans (trim_subset _) hrest)))
  · cases ht
  · cases ht

end Continuation

namespace Statement

/-- The texts that a statement keeps. -/
def texts : Statement → List (List Char)
  | result t | print t | call t | input t | throw t => [t]
  | assign target value => [target, value]
  | count target _ amount => target :: amount.toList
  | leave | next | nothing | unknown => []

theorem withoutBrackets_subset (cs : List Char) : Expression.withoutBrackets cs ⊆ cs := by
  unfold Expression.withoutBrackets
  split
  · exact List.Subset.trans (List.dropLast_sublist _).subset (List.drop_sublist _ _).subset
  · exact List.Subset.refl cs

theorem subset_of_mem_texts {cs t : List Char} (ht : t ∈ (ofCode cs).texts) : t ⊆ cs := by
  obtain ⟨-, htail⟩ := splitWord_subset cs
  have hrest := List.Subset.trans (trim_subset (splitWord cs).2) htail
  have hassign {tail target value : List Char} (htail : tail ⊆ cs)
      (h : Phrase.splitAssignment? tail = some (target, value)) (ht : t ∈ [target, value]) : t ⊆ cs := by
    obtain ⟨htarget, hvalue⟩ := Phrase.cutOf_splitAssignment? tail _ h
    simp only [List.mem_cons, List.not_mem_nil, or_false] at ht
    rcases ht with rfl | rfl
    · exact List.Subset.trans htarget htail
    · exact List.Subset.trans hvalue htail
  unfold ofCode at ht
  dsimp only at ht
  generalize (splitWord cs).2 = tail at htail hrest ht
  split at ht
  · obtain rfl := List.mem_singleton.1 ht
    exact hrest
  iterate 5
    · obtain rfl := List.mem_singleton.1 ht
      exact List.Subset.trans (withoutBrackets_subset _) hrest
  iterate 3
    · split at ht
      · next h => exact hassign htail h ht
      · cases ht
  iterate 2
    · split at ht
      · next target amount h =>
        obtain ⟨htarget, hamount⟩ := Phrase.cutOf_splitAt? _ _ _ h
        simp only [texts, Option.toList_some, List.mem_cons, List.not_mem_nil, or_false] at ht
        rcases ht with rfl | rfl
        · exact List.Subset.trans (trim_subset _) (List.Subset.trans htarget htail)
        · exact List.Subset.trans (trim_subset _) (List.Subset.trans hamount htail)
      · obtain rfl := List.mem_singleton.1 ht
        exact hrest
  iterate 3
    · obtain rfl := List.mem_singleton.1 ht
      exact hrest
  iterate 3
    · cases ht
  iterate 2
    · obtain rfl := List.mem_singleton.1 ht
      exact hrest
  · unfold ofForm at ht
    split at ht
    · next h => exact hassign (List.Subset.refl cs) h ht
    · split at ht
      · obtain rfl := List.mem_singleton.1 ht
        exact List.Subset.refl _
      · cases ht

theorem strip_subset (cs : List Char) : strip cs ⊆ cs := List.Subset.trans (trim_subset _) (dropEndWhile_subset _ cs)

end Statement

end Pseudoscribe
