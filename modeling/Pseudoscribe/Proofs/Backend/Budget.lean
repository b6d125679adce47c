import Pseudoscribe.Proofs.Backend.Coverage
import Pseudoscribe.Proofs.Text.Pieces

/-!
# The budget of a local model

The tokens of a text are its words.  A newline parts words, so the tokens of lines add up to those of the text that they
make, and a beginning of a text has no more tokens than a longer one.  A source that is too long is cut at the first line
that the budget does not allow any more, and so what is kept is the longest beginning in whole lines that it allows.
-/

namespace Pseudoscribe

namespace Text

/-! ## Words -/

/-- The words of a text: what stands between its blanks. -/
def words (cs : List Char) : List (List Char) := (cs.splitOnP isSpace).filter (!·.isEmpty)

theorem words_append_cons (xs ys : List Char) {c : Char} (hc : isSpace c = true) :
    words (xs ++ c :: ys) = words xs ++ words ys := by
  rw [words, List.splitOnP_append_cons xs ys hc, List.filter_append]
  rfl

/-- No word goes on behind the end of a line. -/
theorem words_append {xs : List Char} (h : Closed xs) (ys : List Char) : words (xs ++ ys) = words xs ++ words ys := by
  have hnewline : isSpace '\n' = true := by decide
  rcases List.eq_nil_or_concat xs with rfl | ⟨front, c, rfl⟩
  · rfl
  · rw [List.concat_eq_append] at h ⊢
    obtain rfl : c = '\n' := h c List.getLast?_concat
    rw [List.append_assoc, List.singleton_append, words_append_cons front ys hnewline,
      words_append_cons front [] hnewline]
    simp [words]

/-- A character that is no blank begins a word if a blank or nothing stands behind it, and else belongs to the next. -/
theorem length_words_cons (c : Char) (cs : List Char) : (words (c :: cs)).length =
    (if isSpace c = false ∧ cs.head?.all isSpace = true then 1 else 0) + (words cs).length := by
  unfold words
  rw [List.splitOnP_cons_eq_if_modifyHead]
  cases hc : isSpace c with
  | true => simp
  | false =>
    rw [if_neg Bool.false_ne_true]
    cases cs with
    | nil => rfl
    | cons d ds =>
      rw [List.splitOnP_cons_eq_if_modifyHead]
      cases hd : isSpace d with
      | true => simp [hd, Nat.add_comm]
      | false =>
        obtain ⟨first, rest, hsplit⟩ := List.exists_cons_of_ne_nil (List.splitOnP_ne_nil isSpace ds)
        simp [hd, hsplit]

/-! ## Beginnings in whole lines -/

/-- A beginning of a text that breaks off at the end of a line. -/
structure IsLinePrefix (front cs : List Char) : Prop where
  isPrefix : front <+: cs
  closed : front = cs ∨ Closed front

/-- The lines of a text before its last one end with a newline. -/
theorem closed_flatten_take {cs : List Char} {k : Nat} (hk : k < (pieces cs).length) :
    Closed ((pieces cs).take k).flatten := by
  cases k with
  | zero => exact closed_nil
  | succ k =>
    have hdrop := pieces_flatten_drop cs k
    have hline : (pieces cs).drop k = (pieces cs)[k] :: (pieces cs)[k + 1] :: (pieces cs).drop (k + 2) := by
      rw [List.drop_eq_getElem_cons (Nat.lt_of_succ_lt hk), List.drop_eq_getElem_cons hk]
    rw [hline] at hdrop
    rw [← List.take_concat_get' (pieces cs) k (Nat.lt_of_succ_lt hk), List.flatten_append, List.flatten_singleton]
    exact closed_append_of_ne_nil (ne_nil_of_mem_pieces (List.getElem_mem _)) (closed_of_pieces_eq_cons hdrop)

/-- The beginnings in whole lines are those that the first lines make up. -/
theorem isLinePrefix_iff {front cs : List Char} :
    IsLinePrefix front cs ↔ ∃ k, front = ((pieces cs).take k).flatten := by
  constructor
  · rintro ⟨⟨rest, hrest⟩, hwhole | hclosed⟩
    · exact ⟨(pieces cs).length, by rw [List.take_length, flatten_pieces, hwhole]⟩
    · refine ⟨(pieces front).length, ?_⟩
      rw [← hrest, pieces_append hclosed, List.take_left, flatten_pieces]
  · rintro ⟨k, rfl⟩
    have hwhole := flatten_pieces cs
    refine ⟨?_, ?_⟩
    · refine ⟨((pieces cs).drop k).flatten, ?_⟩
      rw [← List.flatten_append, List.take_append_drop, hwhole]
    · by_cases hk : k < (pieces cs).length
      · exact .inr (closed_flatten_take hk)
      · left
        rw [List.take_of_length_le (Nat.le_of_not_lt hk), hwhole]

end Text

namespace Budget

open Text

/-! ## Tokens -/

/-- The tokens of a text are its words. -/
theorem countTokens_eq (cs : List Char) : countTokens cs = (words cs).length := by
  induction cs with
  | nil => rfl
  | cons c cs ih =>
    rw [length_words_cons, ← ih]
    cases cs with
    | nil => cases hc : isSpace c <;> simp [countTokens, hc]
    | cons d ds => cases hc : isSpace c <;> simp [countTokens, hc]

theorem countTokens_append {xs : List Char} (h : Closed xs) (ys : List Char) :
    countTokens (xs ++ ys) = countTokens xs + countTokens ys := by
  rw [countTokens_eq, countTokens_eq, countTokens_eq, words_append h, List.length_append]

/-- The tokens of lines add up to those of the text that the lines make. -/
theorem countTokens_flatten {ls : List (List Char)} (h : pieces ls.flatten = ls) :
    countTokens ls.flatten = total (ls.map countTokens) := by
  induction ls with
  | nil => rfl
  | cons line rest ih =>
    cases rest with
    | nil => simp
    | cons next behind =>
      obtain ⟨-, hrest⟩ := @pieces_flatten_append [line] _ h
      rw [List.flatten_cons, countTokens_append (closed_of_pieces_eq_cons h), ih hrest]
      rfl

theorem countTokens_take (source : List Char) (k : Nat) :
    countTokens ((pieces source).take k).flatten = total (((pieces source).take k).map countTokens) :=
  countTokens_flatten (pieces_flatten_take source k)

/-! ## Lines within a budget -/

theorem total_takeLines_le (budget : Nat) (ls : List (List Char)) :
    total ((takeLines budget ls).map countTokens) ≤ budget := by
  fun_induction takeLines budget ls with
  | case1 => exact Nat.zero_le _
  | case2 budget line rest hfits ih =>
    rw [List.map_cons, total_cons]
    omega
  | case3 => exact Nat.zero_le _

/-- The first lines that have no more tokens together than allowed are all taken. -/
theorem take_prefix_takeLines {budget k : Nat} {ls : List (List Char)}
    (h : total ((ls.take k).map countTokens) ≤ budget) : ls.take k <+: takeLines budget ls := by
  induction ls generalizing budget k with
  | nil => rw [List.take_nil]; exact List.nil_prefix
  | cons line rest ih =>
    cases k with
    | zero => exact List.nil_prefix
    | succ k =>
      rw [List.take_succ_cons, List.map_cons, total_cons] at h
      have hfits : countTokens line ≤ budget := Nat.le_of_add_right_le h
      rw [List.take_succ_cons, takeLines, if_pos hfits, List.prefix_cons_inj]
      exact ih (Nat.le_sub_of_add_le' h)

/-- The longest beginning in whole lines that a budget allows. -/
structure Longest (budget : Nat) (source kept : List Char) : Prop where
  isLinePrefix : IsLinePrefix kept source
  affordable : countTokens kept ≤ budget
  longest : ∀ front, IsLinePrefix front source → countTokens front ≤ budget → front <+: kept

theorem longest_takeLines (budget : Nat) (source : List Char) :
    Longest budget source (takeLines budget (pieces source)).flatten := by
  have htaken := List.prefix_iff_eq_take.1 (prefix_takeLines budget (pieces source))
  refine ⟨isLinePrefix_iff.2 ⟨_, congrArg List.flatten htaken⟩, ?_, ?_⟩
  · have htokens := countTokens_take source (takeLines budget (pieces source)).length
    rw [← htaken] at htokens
    exact htokens ▸ total_takeLines_le budget (pieces source)
  · intro front hfront hcost
    obtain ⟨k, rfl⟩ := isLinePrefix_iff.1 hfront
    rw [countTokens_take] at hcost
    obtain ⟨rest, hrest⟩ := take_prefix_takeLines hcost
    exact ⟨rest.flatten, by rw [← List.flatten_append, hrest]⟩

theorem Longest.length_lt {budget : Nat} {source kept : List Char} (h : Longest budget source kept)
    (htoo : budget < countTokens source) : kept.length < source.length := by
  refine Nat.lt_of_le_of_ne h.isLinePrefix.isPrefix.length_le fun heq => ?_
  have hall := h.affordable
  rw [h.isLinePrefix.isPrefix.eq_of_length heq] at hall
  exact Nat.not_le.2 htoo hall

/-- A source stays whole exactly if it has no more tokens than the budget allows; else the longest beginning in whole
lines that the budget allows is left of it.  Tokens are words, and those of the first lines add up to those of the text
that these lines make. -/
theorem truncate_longest (budget : Nat) (source : List Char) :
    (∀ cs, countTokens cs = (words cs).length) ∧
    (∀ k, countTokens ((pieces source).take k).flatten = total (((pieces source).take k).map countTokens)) ∧
    (truncate budget source = (source, false) ↔ countTokens source ≤ budget) ∧
    (budget < countTokens source → ∃ kept, truncate budget source = (kept, true) ∧ Longest budget source kept ∧
      kept.length < source.length) := by
  refine ⟨countTokens_eq, countTokens_take source, ⟨fun hwhole => ?_, fun hfits => ?_⟩, fun htoo => ?_⟩
  · by_contra htoo
    rw [truncate, if_neg htoo] at hwhole
    cases (Prod.mk.inj hwhole).2
  · rw [truncate, if_pos hfits]
  · have hlongest := longest_takeLines budget source
    exact ⟨_, by rw [truncate, if_neg (Nat.not_le.2 htoo)], hlongest, hlongest.length_lt htoo⟩

/-- A blank line costs nothing, so it is kept even where no token is left for the line behind it. -/
theorem truncate_longest_blank_line : 2 < countTokens "SET a\n\nTO 1\n".toList ∧
    ∃ kept, truncate 2 "SET a\n\nTO 1\n".toList = (kept, true) ∧ kept = "SET a\n\n".toList ∧
      Longest 2 "SET a\n\nTO 1\n".toList kept := by
  have htoo : 2 < countTokens "SET a\n\nTO 1\n".toList := by decide
  obtain ⟨kept, hkept, hlongest, -⟩ := (truncate_longest 2 "SET a\n\nTO 1\n".toList).2.2.2 htoo
  refine ⟨htoo, kept, hkept, ?_, hlongest⟩
  have hcomputed : (truncate 2 "SET a\n\nTO 1\n".toList).1 = "SET a\n\n".toList := by decide
  rw [← hcomputed, hkept]

end Budget

end Pseudoscribe
