import Mathlib.Data.List.Nodup
import Pseudoscribe.Proofs.Assembly.Ownership
import Pseudoscribe.Proofs.Text.Pieces

/-!
# Moving imports loses nothing

When imports are moved to the head of a result, its lines are those of the head, at most one empty line, and then all
other lines as they stood, but for blank ones with which they would begin.  The lines behind the head keep their
owners and those of the head have none, so that no import is left that may be moved: moving them once more changes
nothing.
-/

namespace Pseudoscribe

namespace Text

theorem newline_notMem_trimEnd {cs p : List Char} (h : p ∈ pieces cs) : '\n' ∉ trimEnd p := by
  have hinit := newline_notMem_dropLast h
  obtain ⟨c, hc⟩ := Option.ne_none_iff_exists'.1 (mt List.getLast?_eq_none_iff.1 (ne_nil_of_mem_pieces h))
  have hp : p.dropLast ++ [c] = p := List.dropLast_append_getLast? c hc
  cases hspace : isSpace c with
  | true =>
    have htrim : trimEnd p = trimEnd p.dropLast := by
      rw [← hp]
      unfold trimEnd dropEndWhile
      simp [hspace]
    rw [htrim]
    exact fun hmem => hinit (trimEnd_subset _ hmem)
  | false =>
    intro hmem
    have hboth := trimEnd_subset _ hmem
    rw [← hp] at hboth
    rcases List.mem_append.1 hboth with hmem | hmem
    · exact hinit hmem
    · rw [← List.mem_singleton.1 hmem] at hspace
      exact absurd hspace (by decide)

end Text

namespace Assembly

open Text

/-! ## New numbers for lines -/

/-- How many of the first lines are left. -/
def leftBefore (ls : List HoistLine) (k : Nat) : Nat := (ls.take k).countP (!·.removed)

theorem leftBefore_mono (ls : List HoistLine) {k k' : Nat} (h : k ≤ k') : leftBefore ls k ≤ leftBefore ls k' :=
  (List.take_sublist_take_left h).countP_le

theorem leftBefore_lt {ls : List HoistLine} {k k' : Nat} {l : HoistLine} (hl : ls[k]? = some l)
    (hleft : l.removed = false) (h : k < k') : leftBefore ls k < leftBefore ls k' := by
  have hnext : leftBefore ls (k + 1) = leftBefore ls k + 1 := by
    unfold leftBefore
    rw [List.take_add_one, hl, List.countP_append]
    simp [hleft]
  have hmono : leftBefore ls (k + 1) ≤ leftBefore ls k' := leftBefore_mono ls h
  omega

/-- A line that is left has a number among those that are left. -/
theorem exists_leftBefore {ls : List HoistLine} {j : Nat} {l : HoistLine}
    (h : (ls.filter (!·.removed))[j]? = some l) : ∃ k, ls[k]? = some l ∧ l.removed = false ∧ leftBefore ls k = j := by
  induction ls generalizing j with
  | nil => cases h
  | cons m ms ih =>
    cases hm : m.removed with
    | true =>
      rw [List.filter_cons_of_neg (by simp [hm])] at h
      obtain ⟨k, hk, hleft, hcount⟩ := ih h
      refine ⟨k + 1, hk, hleft, ?_⟩
      unfold leftBefore at hcount ⊢
      rw [List.take_succ_cons, List.countP_cons_of_neg (by simp [hm]), hcount]
    | false =>
      rw [List.filter_cons_of_pos (by simp [hm])] at h
      cases j with
      | zero =>
        cases h
        exact ⟨0, rfl, hm, rfl⟩
      | succ j =>
        obtain ⟨k, hk, hleft, hcount⟩ := ih h
        refine ⟨k + 1, hk, hleft, ?_⟩
        unfold leftBefore at hcount ⊢
        rw [List.take_succ_cons, List.countP_cons_of_pos (by simp [hm]), hcount]

theorem take_renumber (next k : Nat) (ls : List HoistLine) : (renumber next ls).take k = renumber next (ls.take k) := by
  induction ls generalizing next k with
  | nil => simp [renumber]
  | cons l ls ih =>
    cases k with
    | zero => rfl
    | succ k =>
      rw [List.take_succ_cons, renumber, renumber]
      split
      · rw [List.take_succ_cons, ih]
      · rw [List.take_succ_cons, ih]

theorem drop_renumber (next k : Nat) (ls : List HoistLine) :
    (renumber next ls).drop k = renumber (next + leftBefore ls k) (ls.drop k) := by
  induction ls generalizing next k with
  | nil => simp [renumber]
  | cons l ls ih =>
    cases k with
    | zero => rfl
    | succ k =>
      unfold leftBefore at ih ⊢
      rw [List.drop_succ_cons, List.take_succ_cons, renumber]
      cases hl : l.removed with
      | true => rw [if_pos rfl, List.drop_succ_cons, ih, List.countP_cons_of_neg (by simp [hl])]
      | false =>
        rw [if_neg Bool.false_ne_true, List.drop_succ_cons, ih, List.countP_cons_of_pos (by simp [hl]),
          Nat.add_assoc, Nat.add_comm 1]

/-- The new numbers are counted on. -/
theorem filterMap_renumber (next : Nat) (ls : List HoistLine) :
    (renumber next ls).filterMap (fun n => n) = List.range' (next + 1) (ls.countP (!·.removed)) := by
  induction ls generalizing next with
  | nil => rfl
  | cons l ls ih =>
    rw [renumber]
    cases hl : l.removed with
    | true => rw [if_pos rfl, List.filterMap_cons_none rfl, ih, List.countP_cons_of_neg (by simp [hl])]
    | false =>
      rw [if_neg Bool.false_ne_true, List.countP_cons_of_pos (by simp [hl]), List.range'_succ, ← ih]
      rfl

/-- The new numbers of the lines from one to another. -/
theorem filterMap_renumber_between (next : Nat) (ls : List HoistLine) (first last : Nat) :
    (((renumber next ls).take last).drop first).filterMap (fun n => n) =
      List.range' (next + leftBefore ls first + 1) (leftBefore ls last - leftBefore ls first) := by
  rw [take_renumber, drop_renumber, filterMap_renumber]
  rcases Nat.le_total first last with h | h
  · have hfirst : leftBefore (ls.take last) first = leftBefore ls first := by
      rw [leftBefore, List.take_take, Nat.min_eq_left h, leftBefore]
    have hsum : leftBefore ls last =
        leftBefore ls first + ((ls.take last).drop first).countP (!·.removed) := by
      rw [← hfirst, leftBefore, leftBefore, ← List.countP_append, List.take_append_drop]
    rw [hfirst, hsum, Nat.add_sub_cancel_left]
  · have hnone : (ls.take last).drop first = [] :=
      List.drop_eq_nil_of_le (Nat.le_trans (List.length_take_le last ls) h)
    rw [hnone, Nat.sub_eq_zero_of_le (leftBefore_mono ls h)]
    rfl

/-- A range goes from the first of its lines that is left to the last. -/
theorem moveRange_renumber (next : Nat) (ls : List HoistLine) (first last : Nat) :
    moveRange (renumber next ls) (first, last) =
      if leftBefore ls (first - 1) < leftBefore ls last then
        some (next + leftBefore ls (first - 1) + 1, next + leftBefore ls last)
      else none := by
  unfold moveRange
  dsimp only
  rw [filterMap_renumber_between, List.head?_range', List.getLast?_range']
  by_cases h : leftBefore ls (first - 1) < leftBefore ls last
  · have hpos : leftBefore ls last - leftBefore ls (first - 1) ≠ 0 := Nat.sub_ne_zero_of_lt h
    have hlast : next + leftBefore ls (first - 1) + 1 + (leftBefore ls last - leftBefore ls (first - 1)) - 1 =
        next + leftBefore ls last := by omega
    rw [if_pos h, if_neg hpos, if_neg hpos, hlast]
  · have hnone : leftBefore ls last - leftBefore ls (first - 1) = 0 := Nat.sub_eq_zero_of_le (Nat.le_of_not_lt h)
    rw [if_neg h, if_pos hnone, if_pos hnone]

/-- The report with the new numbers of its lines. -/
def renumbered (next : Nat) (ls : List HoistLine) (r : ChunkReport) : ChunkReport :=
  { r with outputLines := r.outputLines.bind (moveRange (renumber next ls)) }

theorem owns_renumbered_of_le {next line : Nat} (h : line ≤ next) (ls : List HoistLine) (r : ChunkReport) :
    (renumbered next ls r).owns line = false := by
  unfold ChunkReport.owns renumbered
  dsimp only
  cases r.outputLines with
  | none => rfl
  | some range =>
    obtain ⟨first, last⟩ := range
    rw [Option.bind_some, moveRange_renumber]
    split
    · rw [Option.any_some, decide_eq_false (by omega), Bool.false_and]
    · rfl

/-- A line that is left keeps its owner. -/
theorem owns_renumbered (next : Nat) {ls : List HoistLine} {k : Nat} {l : HoistLine} (hl : ls[k]? = some l)
    (hleft : l.removed = false) (r : ChunkReport) :
    (renumbered next ls r).owns (next + leftBefore ls k + 1) = r.owns (k + 1) := by
  unfold ChunkReport.owns renumbered
  dsimp only
  cases r.outputLines with
  | none => rfl
  | some range =>
    obtain ⟨first, last⟩ := range
    have hfirst : leftBefore ls (first - 1) ≤ leftBefore ls k ↔ first ≤ k + 1 := by
      constructor
      · intro hle
        by_contra hbehind
        have hbefore : k < first - 1 := by omega
        exact absurd hle (Nat.not_le_of_lt (leftBefore_lt hl hleft hbefore))
      · intro hle
        exact leftBefore_mono ls (by omega)
    have hlast : leftBefore ls k < leftBefore ls last ↔ k + 1 ≤ last := by
      constructor
      · intro hlt
        by_contra hbefore
        have hbehind : last ≤ k := by omega
        exact absurd hlt (Nat.not_lt_of_le (leftBefore_mono ls hbehind))
      · intro hle
        exact leftBefore_lt hl hleft hle
    rw [Option.bind_some, moveRange_renumber, Option.any_some, Bool.eq_iff_iff]
    simp only [Bool.and_eq_true, decide_eq_true_eq, ← hfirst, ← hlast]
    split
    · rw [Option.any_some]
      simp only [Bool.and_eq_true, decide_eq_true_eq]
      omega
    · rw [Option.any_none]
      exact iff_of_false Bool.false_ne_true (by omega)

theorem owner?_map_renumbered_of_le {next line : Nat} (h : line ≤ next) (ls : List HoistLine)
    (reports : List ChunkReport) : owner? (reports.map (renumbered next ls)) line = none := by
  unfold owner?
  rw [List.find?_map, List.find?_eq_none.2]
  · rfl
  · intro r _
    rw [Function.comp_apply, owns_renumbered_of_le h]
    exact Bool.false_ne_true

theorem owner?_map_renumbered (next : Nat) {ls : List HoistLine} {k : Nat} {l : HoistLine} (hl : ls[k]? = some l)
    (hleft : l.removed = false) (reports : List ChunkReport) :
    owner? (reports.map (renumbered next ls)) (next + leftBefore ls k + 1) = owner? reports (k + 1) := by
  have howns : ((·.owns (next + leftBefore ls k + 1)) ∘ renumbered next ls) = (·.owns (k + 1)) :=
    funext (owns_renumbered next hl hleft)
  unfold owner?
  rw [List.find?_map, howns, Option.map_map]
  rfl

/-! ## The code -/

/-- The lines of the code, marked if they are imports that may be moved. -/
def marked (a : Assembly) (language : Language) : List HoistLine :=
  (pieces a.code.toList).mapIdx fun i text => ⟨text, a.isMovable language (i + 1) text⟩

/-- The statements on lines that are moved, blanks at their ends disregarded: each once and in the order in which they
are first seen, but those first that have to come before all others. -/
def headOf (language : Language) (moved : List (List Char)) : List (List Char) :=
  let statements := (moved.map trimEnd).eraseDups
  statements.filter (ImportLine.isLeading language) ++ statements.filter (!ImportLine.isLeading language ·)

/-- The head for marked lines. -/
def headOfMarked (language : Language) (ls : List HoistLine) : List (List Char) :=
  headOf language ((ls.filter (·.removed)).map HoistLine.text)

/-- The lines that are left of marked ones. -/
def restOf (ls : List HoistLine) : List (List Char) :=
  ((ls.filter (!·.removed)).map HoistLine.text).dropWhile isBlank

/-- The lines of the head, and an empty one if anything follows. -/
def headLines (language : Language) (ls : List HoistLine) : List (List Char) :=
  (headOfMarked language ls).map (· ++ ['\n']) ++ if (restOf ls).isEmpty then [] else [['\n']]

theorem nodup_eraseDups {α : Type} [BEq α] [LawfulBEq α] (xs : List α) : xs.eraseDups.Nodup := by
  induction h : xs.length using Nat.strongRecOn generalizing xs with
  | ind n ih =>
    cases xs with
    | nil => exact List.nodup_nil
    | cons x xs =>
      rw [List.eraseDups_cons, List.nodup_cons, List.mem_eraseDups]
      refine ⟨by simp, ih _ ?_ _ rfl⟩
      rw [← h, List.length_cons]
      exact Nat.lt_succ_of_le (List.length_filter_le _ xs)

theorem nodup_headOf (language : Language) (moved : List (List Char)) : (headOf language moved).Nodup := by
  have hnodup := nodup_eraseDups (moved.map trimEnd)
  refine List.Nodup.append (hnodup.filter _) (hnodup.filter _) fun s hs hs' => ?_
  have hnot := (List.mem_filter.1 hs').2
  rw [(List.mem_filter.1 hs).2] at hnot
  cases hnot

theorem mem_headOf {language : Language} {moved : List (List Char)} {s : List Char} :
    s ∈ headOf language moved ↔ ∃ t ∈ moved, trimEnd t = s := by
  have hboth : s ∈ headOf language moved ↔ s ∈ (moved.map trimEnd).eraseDups := by
    unfold headOf
    rw [List.mem_append, List.mem_filter, List.mem_filter]
    cases ImportLine.isLeading language s <;> simp
  rw [hboth, List.mem_eraseDups, List.mem_map]

theorem headOf_eq_nil_iff {language : Language} {moved : List (List Char)} : headOf language moved = [] ↔ moved = [] := by
  constructor
  · intro h
    rw [List.eq_nil_iff_forall_not_mem] at h ⊢
    exact fun t ht => h _ (mem_headOf.2 ⟨t, ht, rfl⟩)
  · rintro rfl
    rfl

theorem headOfMarked_eq_nil_iff {language : Language} {ls : List HoistLine} :
    headOfMarked language ls = [] ↔ ls.filter (·.removed) = [] := by
  rw [headOfMarked, headOf_eq_nil_iff, List.map_eq_nil_iff]

theorem isBlank_flatten_restOf (ls : List HoistLine) : isBlank (restOf ls).flatten = (restOf ls).isEmpty := by
  cases h : restOf ls with
  | nil => rfl
  | cons t ts =>
    have hfirst : isBlank t = false := by
      have hne : restOf ls ≠ [] := h ▸ List.cons_ne_nil t ts
      have hhead : (restOf ls).head hne = t := by simp [h]
      rw [← hhead]
      exact List.head_dropWhile_not isBlank hne
    rw [List.flatten_cons, isBlank_append, hfirst]
    rfl

theorem newline_notMem_of_mem_head {a : Assembly} {language : Language} {s : List Char}
    (h : s ∈ headOfMarked language (a.marked language)) : '\n' ∉ s := by
  obtain ⟨t, ht, rfl⟩ := mem_headOf.1 h
  obtain ⟨l, hl, rfl⟩ := List.mem_map.1 ht
  obtain ⟨i, hi, rfl⟩ := List.mem_mapIdx.1 (List.mem_filter.1 hl).1
  exact newline_notMem_trimEnd (List.getElem_mem hi)

theorem pieces_headLines_append (a : Assembly) (language : Language) (body : List Char) :
    pieces ((headLines language (a.marked language)).flatten ++ body) =
      headLines language (a.marked language) ++ pieces body := by
  unfold headLines
  rw [List.flatten_append, List.append_assoc,
    pieces_flatten_map_append fun s hs => newline_notMem_of_mem_head hs, List.append_assoc]
  split
  · rfl
  · exact congrArg (_ ++ ·) (pieces_newline_cons body)

/-- The lines that are left are lines of the code. -/
theorem pieces_flatten_restOf (a : Assembly) (language : Language) :
    pieces (restOf (a.marked language)).flatten = restOf (a.marked language) := by
  have htext : (a.marked language).map HoistLine.text = pieces a.code.toList := by
    refine List.ext_getElem? fun i => ?_
    rw [List.getElem?_map, marked, List.getElem?_mapIdx, Option.map_map]
    exact congrFun Option.map_id _
  have hall : pieces (pieces a.code.toList).flatten = pieces a.code.toList := by rw [flatten_pieces]
  refine pieces_flatten_of_sublist hall ?_
  rw [← htext]
  exact (List.dropWhile_sublist _).trans (List.filter_sublist.map _)

theorem hoist_of_eq_nil {a : Assembly} {language : Language} (h : (a.marked language).filter (·.removed) = []) :
    a.hoist language = (a, 0) := by
  unfold hoist
  rw [← marked]
  dsimp only
  rw [h]
  rfl

/-- The head as it is written. -/
theorem flatten_headLines {language : Language} {ls : List HoistLine} (h : headOfMarked language ls ≠ []) :
    (headLines language ls).flatten = unlines (headOfMarked language ls) ++
      (if isBlank (restOf ls).flatten then ['\n'] else ['\n', '\n']) := by
  unfold headLines
  rw [List.flatten_append, ← unlines_append_newline h, isBlank_flatten_restOf, List.append_assoc]
  split <;> rfl

/-- What becomes of a result when some import is moved. -/
theorem hoist_of_ne_nil {a : Assembly} {language : Language} (h : (a.marked language).filter (·.removed) ≠ []) :
    a.hoist language =
      ({ a with
        code := String.ofList ((headLines language (a.marked language)).flatten ++ (restOf (a.marked language)).flatten)
        chunks := a.chunks.map (renumbered (headLines language (a.marked language)).length
          (dropLeadingBlanks (a.marked language))) },
        ((a.marked language).filter (·.removed)).length) := by
  have hhead : countLines (headLines language (a.marked language)).flatten =
      (headLines language (a.marked language)).length := by
    have hpieces := pieces_headLines_append a language []
    rw [pieces, List.append_nil, List.append_nil] at hpieces
    rw [countLines_eq_length_pieces, hpieces]
  have hsome : (((a.marked language).filter (·.removed)).map fun l => trimEnd l.text).eraseDups ≠ [] := by
    obtain ⟨l, ls, hcons⟩ := List.exists_cons_of_ne_nil h
    rw [hcons, List.map_cons, List.eraseDups_cons]
    exact List.cons_ne_nil _ _
  have hmap : (((a.marked language).filter (·.removed)).map HoistLine.text).map trimEnd =
      ((a.marked language).filter (·.removed)).map fun l => trimEnd l.text := List.map_map
  unfold hoist
  rw [← marked]
  dsimp only
  rw [if_neg (mt List.isEmpty_iff.1 hsome), List.partition_eq_filter_filter, left_dropLeadingBlanks, ← restOf]
  dsimp only
  rw [← hhead, flatten_headLines (mt headOfMarked_eq_nil_iff.1 h), headOfMarked, headOf, hmap]
  rfl

theorem hoist_snd (a : Assembly) (language : Language) :
    (a.hoist language).2 = ((a.marked language).filter (·.removed)).length := by
  by_cases h : (a.marked language).filter (·.removed) = []
  · rw [hoist_of_eq_nil h, h]
    rfl
  · rw [hoist_of_ne_nil h]

theorem pieces_code_hoist {a : Assembly} {language : Language} (h : (a.marked language).filter (·.removed) ≠ []) :
    pieces (a.hoist language).1.code.toList =
      headLines language (a.marked language) ++ restOf (a.marked language) := by
  rw [hoist_of_ne_nil h]
  dsimp only
  rw [String.toList_ofList, pieces_headLines_append, pieces_flatten_restOf]

/-! ## Once is enough -/

theorem getElem?_marked {a : Assembly} {language : Language} {i : Nat} {l : HoistLine}
    (h : (a.marked language)[i]? = some l) :
    (pieces a.code.toList)[i]? = some l.text ∧ l.removed = a.isMovable language (i + 1) l.text := by
  unfold marked at h
  rw [List.getElem?_mapIdx] at h
  obtain ⟨t, ht, rfl⟩ := Option.map_eq_some_iff.1 h
  exact ⟨ht, rfl⟩

/-- Only blank lines are dropped besides those that are moved. -/
theorem getElem?_of_dropLeadingBlanks {ls : List HoistLine} {k : Nat} {l : HoistLine}
    (h : (dropLeadingBlanks ls)[k]? = some l) (hleft : l.removed = false) : ls[k]? = some l := by
  induction ls generalizing k with
  | nil => exact h
  | cons m ms ih =>
    rw [dropLeadingBlanks] at h
    split at h
    · cases k with
      | zero => exact h
      | succ k => exact ih h
    · split at h
      · cases k with
        | zero =>
          cases h
          cases hleft
        | succ k => exact ih h
      · exact h

/-- Moving imports once more changes nothing. -/
theorem hoist_hoist (a : Assembly) (language : Language) :
    (a.hoist language).1.hoist language = ((a.hoist language).1, 0) := by
  by_cases h : (a.marked language).filter (·.removed) = []
  · rw [hoist_of_eq_nil h, hoist_of_eq_nil h]
  · refine hoist_of_eq_nil (List.filter_eq_nil_iff.2 fun l hl => Bool.eq_false_iff.1 ?_)
    obtain ⟨i, hi⟩ := List.mem_iff_getElem?.1 hl
    obtain ⟨htext, hmovable⟩ := getElem?_marked hi
    rw [pieces_code_hoist h] at htext
    rw [hmovable, isMovable_eq, hoist_of_ne_nil h]
    dsimp only
    by_cases hhead : i + 1 ≤ (headLines language (a.marked language)).length
    · rw [owner?_map_renumbered_of_le hhead]
      rfl
    · -- a line behind the head was not marked where it stood before
      rw [List.getElem?_append_right (by omega), restOf, ← left_dropLeadingBlanks, List.getElem?_map] at htext
      obtain ⟨m, hm, hmtext⟩ := Option.map_eq_some_iff.1 htext
      obtain ⟨k, hk, hleft, hcount⟩ := exists_leftBefore hm
      have hold := (getElem?_marked (getElem?_of_dropLeadingBlanks hk hleft)).2
      rw [hleft, isMovable_eq, ← owner?_map_renumbered (headLines language (a.marked language)).length hk hleft,
        hcount, hmtext, Nat.add_sub_cancel' (by omega)] at hold
      exact hold.symm

/-! ## The lines of the chunks -/

/-- The line with its mark. -/
def Line.mark (language : Language) (l : Line) : HoistLine := ⟨l.text, l.moves language⟩

/-- The lines that are moved. -/
def leaving (language : Language) (lines : List Line) : List Line := lines.filter (·.moves language)

/-- The lines that stay where they are, without blank ones with which they begin. -/
def remaining (language : Language) (lines : List Line) : List Line :=
  (lines.filter (!·.moves language)).dropWhile (isBlank ·.text)

/-- The lines of the head: the imports, and an empty line if anything follows. -/
def headFor (language : Language) (lines : List Line) : List (List Char) :=
  (headOf language ((leaving language lines).map Line.text)).map (· ++ ['\n']) ++
    if (remaining language lines).isEmpty then [] else [['\n']]

theorem marked_eq_map_mark {a : Assembly} {parts : List Part}
    (htext : pieces a.code.toList = (linesOf parts).map Line.text) (hchunks : a.chunks = reportsOf 0 parts)
    (language : Language) : a.marked language = (linesOf parts).map (Line.mark language) := by
  refine List.ext_getElem? fun i => ?_
  rw [marked, List.getElem?_mapIdx, htext, List.getElem?_map, List.getElem?_map]
  cases hl : (linesOf parts)[i]? with
  | none => rfl
  | some l =>
    dsimp only [Option.map_some]
    rw [isMovable_of_reports hchunks language hl]
    rfl

theorem filter_map_mark (language : Language) (lines : List Line) :
    (lines.map (Line.mark language)).filter (·.removed) = (leaving language lines).map (Line.mark language) :=
  List.filter_map

theorem restOf_map_mark (language : Language) (lines : List Line) :
    restOf (lines.map (Line.mark language)) = (remaining language lines).map Line.text := by
  unfold restOf remaining
  rw [List.filter_map, List.map_map, List.dropWhile_map]
  rfl

/-- Nothing of the lines is lost but blank ones at the beginning. -/
theorem exists_append_remaining (language : Language) (lines : List Line) :
    ∃ blanks, (∀ l ∈ blanks, isBlank l.text = true) ∧
      lines.filter (!·.moves language) = blanks ++ remaining language lines :=
  ⟨(lines.filter (!·.moves language)).takeWhile (isBlank ·.text),
    fun _ hl => List.mem_takeWhile_imp (p := fun l : Line => isBlank l.text) hl,
    List.takeWhile_append_dropWhile.symm⟩

/-- The line is one of a chunk that was not converted. -/
def Line.isSource (l : Line) : Bool := l.part.final.status != .succeeded

theorem Line.moves_of_isSource {l : Line} (h : l.isSource = true) (language : Language) : l.moves language = false := by
  have hnot : (l.part.final.status == .succeeded) = false := by simpa [Line.isSource] using h
  rw [Line.moves, hnot, Bool.false_and]

/-- No line of source text is moved. -/
theorem filter_isSource (language : Language) (lines : List Line) :
    lines.filter Line.isSource = (lines.filter (!·.moves language)).filter Line.isSource := by
  rw [List.filter_filter]
  refine List.filter_congr fun l _ => ?_
  cases h : l.isSource with
  | false => rfl
  | true =>
    rw [Line.moves_of_isSource h]
    rfl

theorem Part.text_of_source {p : Part} (h : p.final.status ≠ .succeeded) : p.text = p.chunk.text.toList := by
  cases hfinal : p.final with
  | converted => exact absurd (by rw [hfinal]; rfl) h
  | abandoned | cancelled =>
    rw [Part.text, hfinal]
    rfl

/-- What moving imports makes of a result with these lines. -/
structure Hoisted (language : Language) (lines : List Line) (a : Assembly) (b : Assembly) (moved : Nat) : Prop where
  before : pieces a.code.toList = lines.map Line.text
  /-- all lines are counted that are moved -/
  count : moved = (leaving language lines).length
  unchanged : moved = 0 → b = a
  after : moved ≠ 0 → pieces b.code.toList = headFor language lines ++ (remaining language lines).map Line.text
  /-- each statement stands at the head once -/
  nodup : (headOf language ((leaving language lines).map Line.text)).Nodup
  statements : ∀ s, s ∈ headOf language ((leaving language lines).map Line.text) ↔
    ∃ l ∈ lines, l.moves language = true ∧ trimEnd l.text = s
  /-- of the other lines only blank ones at the beginning are dropped -/
  others : ∃ blanks, (∀ l ∈ blanks, isBlank l.text = true) ∧
    lines.filter (!·.moves language) = blanks ++ remaining language lines
  /-- so are those of source text that is kept, and no line of it is moved -/
  source : ∃ blanks, (∀ l ∈ blanks, isBlank l.text = true) ∧
    lines.filter Line.isSource = blanks ++ (remaining language lines).filter Line.isSource
  verbatim : ∀ l ∈ lines, l.isSource = true → l.part.text = l.part.chunk.text.toList
  /-- nothing is changed besides the code and who owns its lines -/
  fields : b = { a with code := b.code, chunks := b.chunks }
  again : b.hoist language = (b, 0)

/-- Moving imports conserves the lines of a result: those that are moved stand at its head, each statement once, all
others follow as they were but for blank ones at the beginning, and then nothing is left to be moved. -/
theorem hoist_conserves (id : RequestId) (chunks : List Chunk) (finals : List (Nat × ChunkEnd)) (cancelled : Bool)
    (language : Language) :
    Hoisted language (linesOf (partsOf finals chunks)) (ofChunks id chunks finals cancelled)
      ((ofChunks id chunks finals cancelled).hoist language).1
      ((ofChunks id chunks finals cancelled).hoist language).2 := by
  obtain ⟨htext, hchunks⟩ := layout_ofChunks id chunks finals cancelled
  have hmarked := marked_eq_map_mark htext hchunks language
  generalize ofChunks id chunks finals cancelled = a at htext hmarked ⊢
  generalize linesOf (partsOf finals chunks) = lines at htext hmarked ⊢
  have hcount : (a.hoist language).2 = (leaving language lines).length := by
    rw [hoist_snd, hmarked, filter_map_mark, List.length_map]
  have hhead : headOfMarked language (a.marked language) =
      headOf language ((leaving language lines).map Line.text) := by
    rw [headOfMarked, hmarked, filter_map_mark, List.map_map]
    rfl
  have hrest : restOf (a.marked language) = (remaining language lines).map Line.text := by
    rw [hmarked, restOf_map_mark]
  obtain ⟨blanks, hblank, hothers⟩ := exists_append_remaining language lines
  refine ⟨htext, hcount, fun hzero => ?_, fun hmoved => ?_, nodup_headOf language _, fun s => ?_,
    ⟨blanks, hblank, hothers⟩, ⟨blanks.filter Line.isSource, fun l hl => hblank l (List.mem_filter.1 hl).1, ?_⟩,
    fun l _ hsource => Part.text_of_source (by simpa [Line.isSource] using hsource), hoist_fst a language,
    hoist_hoist a language⟩
  · rw [hoist_snd, List.length_eq_zero_iff] at hzero
    rw [hoist_of_eq_nil hzero]
  · rw [hoist_snd, ne_eq, List.length_eq_zero_iff] at hmoved
    rw [pieces_code_hoist hmoved, headLines, hhead, hrest, List.isEmpty_map, headFor]
  · rw [mem_headOf]
    constructor
    · rintro ⟨t, ht, rfl⟩
      obtain ⟨l, hl, rfl⟩ := List.mem_map.1 ht
      exact ⟨l, (List.mem_filter.1 hl).1, (List.mem_filter.1 hl).2, rfl⟩
    · rintro ⟨l, hl, hmoves, rfl⟩
      exact ⟨l.text, List.mem_map_of_mem (List.mem_filter.2 ⟨hl, hmoves⟩), rfl⟩
  · rw [filter_isSource language, hothers, List.filter_append]

end Assembly

end Pseudoscribe
