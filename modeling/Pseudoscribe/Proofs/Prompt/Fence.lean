import Pseudoscribe.Prompt
import Pseudoscribe.Proofs.Text.Pieces

/-!
# Fenced code

A text is cut at the first place where a mark stands, so a block of code is found whatever stands before its fence: back
quotes that stand there move the cut forward, and what is left of the fence counts as part of the name of the language.
The code itself is cut out exactly, because it has no fence and ends with a line.
-/

namespace Pseudoscribe

namespace Text

/-! ## The first place of a mark -/

/-- A mark stands on one side of a character that it does not have. -/
theorem infix_append_cons {mark xs ys : List Char} {c : Char} (hc : c ∉ mark) (h : mark <:+: xs ++ c :: ys) :
    mark <:+: xs ∨ mark <:+: ys := by
  obtain ⟨before, after, h⟩ := h
  rw [List.append_assoc] at h
  rcases List.append_eq_append_iff.1 h with ⟨front, rfl, hrest⟩ | ⟨front, rfl, hrest⟩
  · rcases List.append_eq_append_iff.1 hrest with ⟨behind, rfl, -⟩ | ⟨behind, rfl, hbehind⟩
    · exact .inl ⟨before, behind, List.append_assoc _ _ _⟩
    · cases behind with
      | nil => exact .inl ⟨before, [], by simp⟩
      | cons d ds =>
        obtain ⟨rfl, -⟩ := List.cons.inj hbehind
        exact absurd (List.mem_append_right _ List.mem_cons_self) hc
  · cases front with
    | nil =>
      cases mark with
      | nil => exact .inl (List.nil_infix)
      | cons d ds =>
        obtain ⟨rfl, -⟩ := List.cons.inj hrest
        exact absurd List.mem_cons_self hc
    | cons d ds =>
      obtain ⟨-, rfl⟩ := List.cons.inj hrest
      exact .inr ⟨ds, after, List.append_assoc _ _ _⟩

/-- A text that ends with a line has a mark exactly if it stands in the text or in what follows. -/
theorem infix_append_iff_of_closed {mark xs ys : List Char} (hnewline : '\n' ∉ mark) (h : Closed xs) :
    mark <:+: xs ++ ys ↔ mark <:+: xs ∨ mark <:+: ys := by
  refine ⟨fun hmark => ?_, fun hmark => hmark.elim (·.trans (List.prefix_append _ _).isInfix)
    (·.trans (List.suffix_append _ _).isInfix)⟩
  rcases List.eq_nil_or_concat xs with rfl | ⟨front, c, rfl⟩
  · exact .inr hmark
  · rw [List.concat_eq_append] at h hmark ⊢
    obtain rfl : c = '\n' := h c List.getLast?_concat
    rw [List.append_assoc] at hmark
    exact (infix_append_cons hnewline hmark).imp_left (·.trans (List.prefix_append _ _).isInfix)

section Cut

variable {mark : List Char} (hmark : mark ≠ [])
include hmark

theorem cutAt_eq_none_iff {cs : List Char} : cutAt mark cs = none ↔ ¬ mark <:+: cs := by
  induction cs with
  | nil => simp [cutAt, hmark]
  | cons c cs ih =>
    rw [cutAt, List.infix_cons_iff, ← List.isPrefixOf_iff_prefix]
    split
    · next hhere => simp [hhere]
    · next hhere => simp [hhere, ih]

theorem infix_of_length_lt {a b x y : List Char} (h : a ++ mark ++ b = x ++ mark ++ y) (hlt : a.length < x.length) :
    mark <:+: x ++ mark.dropLast := by
  have hpos := List.length_pos_iff.2 hmark
  have hfront : x ++ mark.dropLast <+: x ++ mark ++ y :=
    ((List.prefix_append_right_inj x).2 (List.dropLast_prefix mark)).trans (List.prefix_append _ _)
  have hmarked : a ++ mark <+: x ++ mark ++ y := ⟨b, h⟩
  have hshorter : (a ++ mark).length ≤ (x ++ mark.dropLast).length := by
    simp only [List.length_append, List.length_dropLast]
    omega
  exact (List.suffix_append a mark).isInfix.trans (List.prefix_of_prefix_length_le hmarked hfront hshorter).isInfix

/-- A cut is made where the mark stands and does not stand before. -/
theorem cutAt_eq_some_iff {cs before after : List Char} : cutAt mark cs = some (before, after) ↔
    cs = before ++ mark ++ after ∧ ¬ mark <:+: before ++ mark.dropLast := by
  have hfirst {cs before after : List Char} (h : cutAt mark cs = some (before, after)) :
      ¬ mark <:+: before ++ mark.dropLast := by
    induction cs generalizing before with
    | nil => simp [cutAt, hmark] at h
    | cons c cs ih =>
      have hwhole := cutAt_eq_some h
      rw [cutAt] at h
      split at h
      · obtain ⟨rfl, -⟩ := Prod.mk.inj (Option.some.inj h)
        intro hmarked
        have hlength := hmarked.length_le
        rw [List.nil_append, List.length_dropLast] at hlength
        have hpos := List.length_pos_iff.2 hmark
        omega
      · next hhere =>
        obtain ⟨⟨front, behind⟩, hcut, hpair⟩ := Option.map_eq_some_iff.1 h
        obtain ⟨rfl, rfl⟩ := Prod.mk.inj hpair
        rw [List.cons_append, List.infix_cons_iff, not_or]
        refine ⟨fun hbegins => hhere ?_, ih hcut⟩
        rw [List.isPrefixOf_iff_prefix, hwhole]
        exact hbegins.trans (((List.prefix_append_right_inj (c :: front)).2 (List.dropLast_prefix mark)).trans
          (List.prefix_append _ _))
  refine ⟨fun h => ⟨cutAt_eq_some h, hfirst h⟩, ?_⟩
  rintro ⟨hwhole, hnot⟩
  have hsome : mark <:+: cs := ⟨before, after, hwhole.symm⟩
  obtain ⟨⟨front, behind⟩, hcut⟩ := Option.ne_none_iff_exists'.1 fun h => (cutAt_eq_none_iff hmark).1 h hsome
  have hsame := (cutAt_eq_some hcut).symm.trans hwhole
  -- neither of the two places comes before the other
  have hlength : front.length = before.length := by
    rcases Nat.lt_trichotomy front.length before.length with hlt | heq | hlt
    · exact absurd (infix_of_length_lt hmark hsame hlt) hnot
    · exact heq
    · exact absurd (infix_of_length_lt hmark hsame.symm hlt) (hfirst hcut)
  obtain ⟨hfront, rfl⟩ := List.append_inj hsame (by simp [hlength])
  obtain ⟨rfl, -⟩ := List.append_inj hfront hlength
  exact hcut

theorem exists_cutAt {cs : List Char} (h : mark <:+: cs) : ∃ before after, cutAt mark cs = some (before, after) := by
  obtain ⟨⟨before, after⟩, hcut⟩ := Option.ne_none_iff_exists'.1 fun hnone => (cutAt_eq_none_iff hmark).1 hnone h
  exact ⟨before, after, hcut⟩

/-- What follows any place of the mark follows the first one, too. -/
theorem suffix_of_cutAt {cs before after x y : List Char} (h : cutAt mark cs = some (before, after))
    (hcs : cs = x ++ mark ++ y) : y <:+ after := by
  obtain ⟨hwhole, hfirst⟩ := (cutAt_eq_some_iff hmark).1 h
  have hle : before.length ≤ x.length :=
    Nat.le_of_not_lt fun hlt => hfirst (infix_of_length_lt hmark (hcs.symm.trans hwhole) hlt)
  have hsuffix : y <:+ cs := hcs ▸ List.suffix_append _ _
  have hlength := congrArg List.length (hwhole.symm.trans hcs)
  simp only [List.length_append] at hlength
  exact List.suffix_of_suffix_length_le hsuffix (hwhole ▸ List.suffix_append _ _) (by omega)

/-- The text before a mark may end like the beginning of the mark; then the cut is made earlier, and the end of the
mark is left over. -/
theorem exists_cutAt_append {before : List Char} (h : ¬ mark <:+: before) (rest : List Char) :
    ∃ front left, cutAt mark (before ++ mark ++ rest) = some (front, left ++ rest) ∧ left <:+ mark := by
  obtain ⟨front, left, hcut⟩ := exists_cutAt hmark (List.suffix_append before mark).isInfix
  obtain ⟨hwhole, hfirst⟩ := (cutAt_eq_some_iff hmark).1 hcut
  refine ⟨front, left, (cutAt_eq_some_iff hmark).2 ⟨by rw [hwhole, List.append_assoc], hfirst⟩, ?_⟩
  have hlong : before.length < (front ++ mark).length := by
    refine Nat.lt_of_not_le fun hshort => h ?_
    have hwithin : front ++ mark <+: before :=
      List.prefix_of_prefix_length_le ⟨left, hwhole.symm⟩ (List.prefix_append _ _) hshort
    exact (List.suffix_append front mark).isInfix.trans hwithin.isInfix
  have hlength := congrArg List.length hwhole
  simp only [List.length_append] at hlength hlong
  exact List.suffix_of_suffix_length_le (hwhole ▸ List.suffix_append _ _) (List.suffix_append before mark) (by omega)

end Cut

theorem cutAt_newline {line : List Char} (h : '\n' ∉ line) (rest : List Char) :
    cutAt ['\n'] (line ++ '\n' :: rest) = some (line, rest) := by
  refine (cutAt_eq_some_iff (List.cons_ne_nil _ _)).2 ⟨by simp, fun hmarked => h ?_⟩
  have hmem : '\n' ∈ line ++ ['\n'].dropLast := hmarked.subset List.mem_cons_self
  simpa using hmem

end Text

namespace Prompt

open Text

/-! ## The first block -/

theorem fence_ne_nil : fence ≠ [] := by decide

theorem newline_notMem_fence : '\n' ∉ fence := by decide

/-- Lines in which no fence stands do not begin one. -/
theorem not_fence_infix_append {code : List Char} (hcode : ¬ fence <:+: code) (hclosed : Closed code) :
    ¬ fence <:+: code ++ fence.dropLast := by
  rw [infix_append_iff_of_closed newline_notMem_fence hclosed]
  exact not_or.2 ⟨hcode, by decide⟩

theorem fenced?_eq_some_iff {response code : List Char} : fenced? response = some code ↔
    ∃ before behind tag body after, cutAt fence response = some (before, behind) ∧
      cutAt ['\n'] behind = some (tag, body) ∧ cutAt fence body = some (code, after) := by
  simp only [fenced?, Option.bind_eq_bind, Option.bind_eq_some_iff, Option.pure_def, Option.some.injEq, Prod.exists]
  constructor
  · rintro ⟨before, behind, hfence, tag, body, hline, _, after, hend, rfl⟩
    exact ⟨before, behind, tag, body, after, hfence, hline, hend⟩
  · rintro ⟨before, behind, tag, body, after, hfence, hline, hend⟩
    exact ⟨before, behind, hfence, tag, body, hline, code, after, hend, rfl⟩

/-- A text has a block where a fence ends a text that begins on a line behind another fence. -/
def HasBlock (response : List Char) : Prop :=
  ∃ before tag code after, response = before ++ fence ++ (tag ++ '\n' :: (code ++ fence ++ after))

theorem isSome_fenced?_iff {response : List Char} : (fenced? response).isSome = true ↔ HasBlock response := by
  rw [Option.isSome_iff_exists]
  constructor
  · rintro ⟨code, h⟩
    obtain ⟨before, behind, tag, body, after, hfence, hline, hend⟩ := fenced?_eq_some_iff.1 h
    refine ⟨before, tag, code, after, ?_⟩
    rw [cutAt_eq_some hfence, cutAt_eq_some hline, cutAt_eq_some hend]
    simp
  · rintro ⟨before, tag, code, after, h⟩
    -- each cut leaves all that follows the place given
    have hfirst : fence <:+: response := ⟨before, _, h.symm⟩
    obtain ⟨x, behind, hfence⟩ := exists_cutAt fence_ne_nil hfirst
    obtain ⟨front, rfl⟩ := suffix_of_cutAt fence_ne_nil hfence h
    have hbehind : front ++ (tag ++ '\n' :: (code ++ fence ++ after)) =
        (front ++ tag) ++ ['\n'] ++ (code ++ fence ++ after) := by simp
    obtain ⟨y, body, hline⟩ := exists_cutAt (List.cons_ne_nil '\n' []) ⟨front ++ tag, _, hbehind.symm⟩
    obtain ⟨lead, rfl⟩ := suffix_of_cutAt (List.cons_ne_nil '\n' []) hline hbehind
    have hlast : fence <:+: lead ++ (code ++ fence ++ after) := ⟨lead ++ code, after, by simp⟩
    obtain ⟨z, rest, hend⟩ := exists_cutAt fence_ne_nil hlast
    exact ⟨z, fenced?_eq_some_iff.2 ⟨x, _, y, _, rest, hfence, hline, hend⟩⟩

/-! ## Reading a block back -/

/-- Code that is put between fences is read back, whatever stands before and behind it: the text before it may hold
lines of the prompt and may end with back quotes, and the text behind it may hold other blocks. -/
theorem extract_fenced {before tag code : List Char} (hbefore : ¬ fence <:+: before) (htag : '\n' ∉ tag)
    (hcode : ¬ fence <:+: code) (hclosed : Closed code) (after : List Char) :
    extract (before ++ fence ++ (tag ++ '\n' :: (code ++ fence ++ after))) = code := by
  obtain ⟨front, left, hfence, hleft⟩ :=
    exists_cutAt_append fence_ne_nil hbefore (tag ++ '\n' :: (code ++ fence ++ after))
  have hline : '\n' ∉ left ++ tag :=
    List.not_mem_append (fun h => newline_notMem_fence (hleft.subset h)) htag
  have hbody : cutAt ['\n'] (left ++ (tag ++ '\n' :: (code ++ fence ++ after))) =
      some (left ++ tag, code ++ fence ++ after) := by
    rw [← List.append_assoc]
    exact cutAt_newline hline _
  have hend : cutAt fence (code ++ fence ++ after) = some (code, after) :=
    (cutAt_eq_some_iff fence_ne_nil).2 ⟨rfl, not_fence_infix_append hcode hclosed⟩
  rw [extract, fenced?_eq_some_iff.2 ⟨front, _, _, _, after, hfence, hbody, hend⟩, Option.getD_some]

/-- A line of the prompt and two back quotes before the block, and another block behind it. -/
theorem extract_fenced_of_two : ¬ fence <:+: "# Task: go\n\x60\x60".toList ∧ '\n' ∉ "python".toList ∧
    ¬ fence <:+: "print(1)\n".toList ∧ Closed "print(1)\n".toList ∧
    extract ("# Task: go\n\x60\x60".toList ++ fence ++ ("python".toList ++ '\n' ::
      ("print(1)\n".toList ++ fence ++ "\n\x60\x60\x60\nprint(2)\n\x60\x60\x60\n".toList))) = "print(1)\n".toList := by
  have hbefore : ¬ fence <:+: "# Task: go\n\x60\x60".toList := by decide +kernel
  have htag : '\n' ∉ "python".toList := by decide
  have hcode : ¬ fence <:+: "print(1)\n".toList := by decide +kernel
  have hclosed : Closed "print(1)\n".toList := closed_line "print(1)".toList
  exact ⟨hbefore, htag, hcode, hclosed, extract_fenced hbefore htag hcode hclosed _⟩

end Prompt

end Pseudoscribe
