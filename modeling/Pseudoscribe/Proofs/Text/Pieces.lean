import Pseudoscribe.Text.Lines

/-!
# Pieces of a part of a text

Whatever is cut out of a text holds no character that the text does not hold.  A part of a text that consists of whole
lines has just these lines, and behind a newline the lines begin anew.
-/

namespace Pseudoscribe.Text

/-! ## The characters of a part -/

theorem dropEndWhile_subset (p : Char → Bool) (cs : List Char) : dropEndWhile p cs ⊆ cs := by
  intro c hc
  have hmem := (List.dropWhile_sublist p).subset (List.mem_reverse.1 hc)
  exact List.mem_reverse.1 hmem

theorem trimStart_subset (cs : List Char) : trimStart cs ⊆ cs := (List.dropWhile_sublist isSpace).subset

theorem trimEnd_subset (cs : List Char) : trimEnd cs ⊆ cs := dropEndWhile_subset isSpace cs

theorem trim_subset (cs : List Char) : trim cs ⊆ cs := List.Subset.trans (trimEnd_subset _) (trimStart_subset cs)

theorem trim_eq_nil {cs : List Char} (h : isBlank cs = true) : trim cs = [] := by
  have hstart : trimStart cs = [] := by
    rw [trimStart, ← List.append_nil cs, List.dropWhile_append_of_pos (List.all_eq_true.1 h)]
    rfl
  rw [trim, hstart]
  rfl

theorem dropEndWhile_append_cons {p : Char → Bool} {c : Char} (hc : p c = false) (xs ys : List Char) :
    dropEndWhile p (xs ++ c :: ys) = xs ++ c :: dropEndWhile p ys := by
  unfold dropEndWhile
  rw [List.reverse_append, List.reverse_cons, List.append_assoc, List.dropWhile_append]
  split
  · next h =>
    rw [List.isEmpty_iff.1 h, List.singleton_append, List.dropWhile_cons_of_neg (by simp [hc])]
    simp
  · simp

theorem trimStart_append_cons {lead : List Char} (hlead : isBlank lead = true) {c : Char}
    (hc : isSpace c = false) (cs : List Char) : trimStart (lead ++ c :: cs) = c :: cs := by
  rw [trimStart, List.dropWhile_append_of_pos (List.all_eq_true.1 hlead)]
  exact List.dropWhile_cons_of_neg (by simp [hc])

theorem trim_append_cons {lead : List Char} (hlead : isBlank lead = true) {c : Char}
    (hc : isSpace c = false) (cs : List Char) : trim (lead ++ c :: cs) = c :: trimEnd cs := by
  rw [trim, trimStart_append_cons hlead hc]
  exact dropEndWhile_append_cons hc [] cs

theorem splitWord_subset (cs : List Char) : (splitWord cs).1 ⊆ cs ∧ (splitWord cs).2 ⊆ cs :=
  ⟨List.Subset.trans (List.takeWhile_sublist isWordChar).subset (trimStart_subset cs),
    List.Subset.trans (List.dropWhile_sublist isWordChar).subset (trimStart_subset cs)⟩

theorem dropBeginning?_subset {mark cs rest : List Char} (h : rest ∈ dropBeginning? mark cs) :
    rest ⊆ cs := by
  unfold dropBeginning? at h
  split at h
  · cases h
    exact (List.drop_sublist _ _).subset
  · cases h

theorem dropWord?_subset {keyword : String} {cs rest : List Char} (h : rest ∈ dropWord? keyword cs) :
    rest ⊆ cs := by
  unfold dropWord? at h
  dsimp only at h
  split at h
  · cases h
    exact List.Subset.trans (trimStart_subset _) (splitWord_subset cs).2
  · cases h

theorem getD_dropWord?_subset (keyword : String) (cs : List Char) :
    (dropWord? keyword cs).getD cs ⊆ cs := by
  cases h : dropWord? keyword cs with
  | none => exact List.Subset.refl cs
  | some rest => exact dropWord?_subset h

/-- Both sides of a cut are parts of the text. -/
def CutOf (cs : List Char) (sides : Option (List Char × List Char)) : Prop :=
  ∀ r ∈ sides, r.1 ⊆ cs ∧ r.2 ⊆ cs

theorem cutOf_cutAt (mark cs : List Char) : CutOf cs (cutAt mark cs) := by
  rintro ⟨before, after⟩ h
  rw [cutAt_eq_some h]
  constructor
  · intro c hc
    exact List.mem_append_left _ (List.mem_append_left _ hc)
  · intro c hc
    exact List.mem_append_right _ hc

theorem CutOf.mono {cs ds : List Char} {sides : Option (List Char × List Char)} (h : CutOf cs sides)
    (hsub : cs ⊆ ds) : CutOf ds sides :=
  fun r hr => ⟨List.Subset.trans (h r hr).1 hsub, List.Subset.trans (h r hr).2 hsub⟩

theorem CutOf.or {cs : List Char} {xs ys : Option (List Char × List Char)} (hx : CutOf cs xs)
    (hy : CutOf cs ys) : CutOf cs (xs.or ys) := by
  cases xs with
  | none => exact hy
  | some _ => exact hx

theorem subset_of_mem_splitOn {sep : Char} {cs part : List Char} (h : part ∈ splitOn sep cs) :
    part ⊆ cs := by
  fun_induction splitOn sep cs generalizing part with
  | case1 => simp_all
  | case2 c cs hc ih =>
    rcases List.mem_cons.1 h with rfl | h
    · exact List.nil_subset _
    · exact List.Subset.trans (ih h) (List.subset_cons_self _ _)
  | case3 c cs hc hnil ih =>
    obtain rfl := List.mem_singleton.1 h
    exact List.cons_subset_cons c (List.nil_subset _)
  | case4 c cs hc p ps hsplit ih =>
    rw [hsplit] at ih
    rcases List.mem_cons.1 h with rfl | h
    · exact List.cons_subset_cons c (ih List.mem_cons_self)
    · exact List.Subset.trans (ih (List.mem_cons_of_mem _ h)) (List.subset_cons_self _ _)

theorem chomp_subset (piece : List Char) : chomp piece ⊆ piece := by
  unfold chomp
  split
  · next rest h =>
    intro c hc
    have hmem : c ∈ piece.reverse := by
      rw [h]
      exact List.mem_cons_of_mem _ (List.mem_cons_of_mem _ (List.mem_reverse.1 hc))
    exact List.mem_reverse.1 hmem
  · next rest _ h =>
    intro c hc
    have hmem : c ∈ piece.reverse := by
      rw [h]
      exact List.mem_cons_of_mem _ (List.mem_reverse.1 hc)
    exact List.mem_reverse.1 hmem
  · exact List.Subset.refl piece

theorem subset_of_mem_pieces {cs piece : List Char} (h : piece ∈ pieces cs) : piece ⊆ cs := by
  intro c hc
  rw [← flatten_pieces cs]
  exact List.mem_flatten_of_mem h hc

theorem subset_of_mem_lines {cs line : List Char} (h : line ∈ lines cs) : line ⊆ cs := by
  obtain ⟨piece, hpiece, rfl⟩ := List.mem_map.1 h
  exact List.Subset.trans (chomp_subset piece) (subset_of_mem_pieces hpiece)

/-! ## The lines of a part -/

theorem pieces_newline_cons (cs : List Char) : pieces ('\n' :: cs) = ['\n'] :: pieces cs := by
  simp [pieces]

theorem pieces_cons {c : Char} {cs p : List Char} {ps : List (List Char)} (hc : (c == '\n') = false)
    (h : pieces cs = p :: ps) : pieces (c :: cs) = (c :: p) :: ps := by
  simp [pieces, hc, h]

theorem pieces_flatten_take (cs : List Char) (k : Nat) :
    pieces ((pieces cs).take k).flatten = (pieces cs).take k := by
  fun_induction pieces cs generalizing k with
  | case1 => simp [pieces]
  | case2 c cs hc ih =>
    obtain rfl : c = '\n' := by simpa using hc
    cases k with
    | zero => simp [pieces]
    | succ k =>
      rw [List.take_succ_cons, List.flatten_cons]
      show pieces ('\n' :: ((pieces cs).take k).flatten) = _
      rw [pieces_newline_cons, ih]
  | case3 c cs hc hp ih =>
    cases k with
    | zero => simp [pieces]
    | succ k => simp [pieces, hc]
  | case4 c cs hc p ps hp ih =>
    cases k with
    | zero => simp [pieces]
    | succ k =>
      have hk := ih (k + 1)
      rw [hp, List.take_succ_cons, List.flatten_cons] at hk
      rw [List.take_succ_cons, List.flatten_cons]
      exact pieces_cons (Bool.eq_false_iff.2 hc) hk

theorem pieces_flatten_drop (cs : List Char) (k : Nat) :
    pieces ((pieces cs).drop k).flatten = (pieces cs).drop k := by
  fun_induction pieces cs generalizing k with
  | case1 => simp [pieces]
  | case2 c cs hc ih =>
    cases k with
    | zero =>
      obtain rfl : c = '\n' := by simpa using hc
      show pieces ('\n' :: (pieces cs).flatten) = _
      rw [pieces_newline_cons, flatten_pieces, List.drop_zero]
    | succ k => exact ih k
  | case3 c cs hc hp ih =>
    cases k with
    | zero => simp [pieces, hc]
    | succ k => simp [pieces]
  | case4 c cs hc p ps hp ih =>
    cases k with
    | zero =>
      have h0 := ih 0
      rw [hp, List.drop_zero, List.flatten_cons] at h0
      rw [List.drop_zero, List.flatten_cons]
      exact pieces_cons (Bool.eq_false_iff.2 hc) h0
    | succ k =>
      have hk := ih (k + 1)
      rwa [hp, List.drop_succ_cons] at hk

/-- Lines of a text that are cut into two parts are the lines of either part. -/
theorem pieces_flatten_append {xs ys : List (List Char)} (h : pieces (xs ++ ys).flatten = xs ++ ys) :
    pieces xs.flatten = xs ∧ pieces ys.flatten = ys := by
  have htake := pieces_flatten_take (xs ++ ys).flatten xs.length
  have hdrop := pieces_flatten_drop (xs ++ ys).flatten xs.length
  rw [h] at htake hdrop
  rw [List.take_left] at htake
  rw [List.drop_left] at hdrop
  exact ⟨htake, hdrop⟩

/-- The text is empty or ends with a newline, so that what follows it begins a line. -/
def Closed (cs : List Char) : Prop := ∀ c ∈ cs.getLast?, c = '\n'

theorem closed_nil : Closed [] := fun _ h => by cases h

theorem closed_cons {c d : Char} {cs : List Char} : Closed (c :: d :: cs) ↔ Closed (d :: cs) := by
  rw [Closed, Closed, List.getLast?_cons_cons]

theorem Closed.tail {c : Char} {cs : List Char} (h : Closed (c :: cs)) : Closed cs := by
  cases cs with
  | nil => exact closed_nil
  | cons d cs => exact closed_cons.1 h

theorem closed_append_of_ne_nil {xs ys : List Char} (hys : ys ≠ []) (h : Closed ys) : Closed (xs ++ ys) := by
  have hlast := List.getLast?_eq_some_getLast hys
  intro c hc
  rw [List.getLast?_append, hlast, Option.some_or, ← hlast] at hc
  exact h c hc

theorem pieces_append {xs : List Char} (h : Closed xs) (ys : List Char) :
    pieces (xs ++ ys) = pieces xs ++ pieces ys := by
  fun_induction pieces xs with
  | case1 => rfl
  | case2 c cs hc ih =>
    obtain rfl : c = '\n' := beq_iff_eq.1 hc
    rw [List.cons_append, pieces_newline_cons, ih h.tail, List.cons_append]
  | case3 c cs hc hp ih =>
    -- without a piece there is nothing behind `c`, so that it is the newline at the end
    obtain rfl : cs = [] := by rw [← flatten_pieces cs, hp, List.flatten_nil]
    exact absurd (beq_iff_eq.2 (h c rfl)) hc
  | case4 c cs hc p ps hp ih =>
    have hrest : pieces (cs ++ ys) = p :: (ps ++ pieces ys) := by rw [ih h.tail, hp, List.cons_append]
    exact pieces_cons (Bool.eq_false_iff.2 hc) hrest

theorem lines_append {xs : List Char} (h : Closed xs) (ys : List Char) : lines (xs ++ ys) = lines xs ++ lines ys := by
  rw [lines, pieces_append h, List.map_append]
  rfl

theorem pieces_line {line : List Char} (h : '\n' ∉ line) : pieces (line ++ ['\n']) = [line ++ ['\n']] := by
  induction line with
  | nil => rfl
  | cons c cs ih =>
    rw [List.mem_cons, not_or] at h
    exact pieces_cons (by simpa using Ne.symm h.1) (ih h.2)

theorem closed_line (line : List Char) : Closed (line ++ ['\n']) := by
  intro c hc
  simpa [eq_comm] using hc

theorem lines_line_append {line : List Char} (h : '\n' ∉ line) (rest : List Char) :
    lines (line ++ '\n' :: rest) = chomp (line ++ ['\n']) :: lines rest := by
  have hsplit : line ++ '\n' :: rest = (line ++ ['\n']) ++ rest := by simp
  rw [hsplit, lines_append (closed_line line), lines, pieces_line h]
  rfl

/-- A line that another one follows ends with a newline. -/
theorem closed_of_pieces_eq_cons {cs p q : List Char} {ps : List (List Char)} (h : pieces cs = p :: q :: ps) :
    Closed p := by
  fun_induction pieces cs generalizing p with
  | case1 => cases h
  | case2 c cs hc ih =>
    obtain ⟨rfl, -⟩ := List.cons.inj h
    intro d hd
    rw [← beq_iff_eq.1 hc]
    exact (Option.some.inj hd).symm
  | case3 c cs hc hp ih =>
    obtain ⟨-, hnil⟩ := List.cons.inj h
    cases hnil
  | case4 c cs hc p' ps' hp ih =>
    obtain ⟨rfl, rfl⟩ := List.cons.inj h
    have hne : p' ≠ [] := ne_nil_of_mem_pieces (by rw [hp]; exact List.mem_cons_self)
    obtain ⟨d, ds, rfl⟩ := List.exists_cons_of_ne_nil hne
    exact closed_cons.2 (ih hp)

/-- Lines of a text that are picked out are the lines of what they make up. -/
theorem pieces_flatten_of_sublist {xs ls : List (List Char)} (hxs : pieces xs.flatten = xs) (h : ls.Sublist xs) :
    pieces ls.flatten = ls := by
  induction h with
  | slnil => rfl
  | cons p _ ih => exact ih (@pieces_flatten_append [p] _ hxs).2
  | @cons_cons ls xs p hsub ih =>
    obtain ⟨hp, hrest⟩ := @pieces_flatten_append [p] _ hxs
    cases ls with
    | nil => exact hp
    | cons q qs =>
      cases xs with
      | nil => cases hsub
      | cons x xs =>
        have hp : pieces p = [p] := by rwa [List.flatten_singleton] at hp
        rw [List.flatten_cons, pieces_append (closed_of_pieces_eq_cons hxs), hp, ih hrest]
        rfl

/-- Lines that are put under one another, each with a newline, and what follows them. -/
theorem pieces_flatten_map_append {ls : List (List Char)} (h : ∀ l ∈ ls, '\n' ∉ l) (rest : List Char) :
    pieces ((ls.map (· ++ ['\n'])).flatten ++ rest) = ls.map (· ++ ['\n']) ++ pieces rest := by
  induction ls with
  | nil => rfl
  | cons l ls ih =>
    rw [List.map_cons, List.flatten_cons, List.append_assoc, pieces_append (closed_line l),
      pieces_line (h l List.mem_cons_self), ih fun m hm => h m (List.mem_cons_of_mem l hm)]
    rfl

theorem unlines_append_newline {ls : List (List Char)} (h : ls ≠ []) :
    unlines ls ++ ['\n'] = (ls.map (· ++ ['\n'])).flatten := by
  induction ls with
  | nil => exact absurd rfl h
  | cons l ls ih =>
    cases ls with
    | nil => simp [unlines, joinWith]
    | cons m ms =>
      rw [List.map_cons, List.flatten_cons, ← ih (List.cons_ne_nil m ms)]
      simp [unlines, joinWith]

/-- A newline is the last character of a line. -/
theorem newline_notMem_dropLast {cs p : List Char} (h : p ∈ pieces cs) : '\n' ∉ p.dropLast := by
  fun_induction pieces cs generalizing p with
  | case1 => cases h
  | case2 c cs hc ih =>
    rcases List.mem_cons.1 h with rfl | h
    · exact List.not_mem_nil
    · exact ih h
  | case3 c cs hc hp ih =>
    rw [List.mem_singleton.1 h]
    exact List.not_mem_nil
  | case4 c cs hc q ps hp ih =>
    rw [hp] at ih
    rcases List.mem_cons.1 h with rfl | h
    · have hne : q ≠ [] := ne_nil_of_mem_pieces (by rw [hp]; exact List.mem_cons_self)
      rw [List.dropLast_cons_of_ne_nil hne, List.mem_cons, not_or]
      exact ⟨fun heq => hc (beq_iff_eq.2 heq.symm), ih List.mem_cons_self⟩
    · exact ih (List.mem_cons_of_mem q h)

/-- The end of a line takes a carriage return with it, which blanks at the end of a text are no matter for. -/
theorem exists_chomp (xs : List Char) (c : Char) (ys : List Char) (hc : c ≠ '\r') :
    ∃ ys', chomp (xs ++ c :: ys ++ ['\n']) = xs ++ c :: ys' ∧ trimEnd ys' = trimEnd ys := by
  obtain ⟨rev, rfl⟩ : ∃ rev, ys = rev.reverse := ⟨ys.reverse, ys.reverse_reverse.symm⟩
  have hreverse : (xs ++ c :: rev.reverse ++ ['\n']).reverse = '\n' :: (rev ++ c :: xs.reverse) := by simp
  unfold chomp
  rw [hreverse]
  by_cases hr : rev.head? = some '\r'
  · obtain ⟨rest, rfl⟩ : ∃ rest, rev = '\r' :: rest := by
      cases rev with
      | nil => cases hr
      | cons d rest => exact ⟨rest, by rw [Option.some.inj hr]⟩
    refine ⟨rest.reverse, by simp, ?_⟩
    have hspace : isSpace '\r' = true := by decide
    unfold trimEnd dropEndWhile
    simp [hspace]
  · refine ⟨rev.reverse, ?_, rfl⟩
    cases rev with
    | nil => simp [hc]
    | cons d rest =>
      have hd : d ≠ '\r' := fun h => hr (by rw [h]; rfl)
      simp [hd]

end Pseudoscribe.Text
