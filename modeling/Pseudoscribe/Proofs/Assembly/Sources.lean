import Pseudoscribe.Proofs.Assembly.Hoisting

/-!
# Which chunk a line comes from

A result tells of each chunk which lines of the code are its own.  The lines from the first part on lie in the order of
the parts, so that the lines of a part are those behind the lines of all parts before it.  When imports are moved to
the head, the lines that are left stay in this order behind those of the head, which come from no part; so however often
and for whatever languages this is done, the ranges of lines are right.
-/

namespace Pseudoscribe.Assembly

open Text

/-! ## Lines and where they come from -/

/-- A line of the code, and the place of the part that it comes from; a line of a head comes from none. -/
structure SourcedLine where
  source : Option Nat
  text : List Char

/-- The part owns its lines, was converted, and this line of it is an import, which is moved to the head. -/
def Part.gives (p : Part) (language : Language) (line : List Char) : Bool :=
  !isBlank p.text && p.final.status == .succeeded && ImportLine.isTopLevel language line

/-- What a part is called by when it owns lines; a blank part owns none. -/
def Part.owner? (p : Part) : Option (Nat × ChunkStatus) :=
  if isBlank p.text then none else some (p.chunk.index, p.final.status)

namespace SourcedLine

def part? (parts : List Part) (l : SourcedLine) : Option Part := l.source.bind (parts[·]?)

/-- The line is moved to the head. -/
def moves (parts : List Part) (language : Language) (l : SourcedLine) : Bool :=
  (l.part? parts).any (·.gives language l.text)

/-- The line is one of a head or of the first `k` parts. -/
def isWithin (k : Nat) (l : SourcedLine) : Bool := l.source.all (· < k)

end SourcedLine

/-- The lines of the parts, of which the first has the place `k`. -/
def sourcedFrom (k : Nat) : List Part → List SourcedLine
  | [] => []
  | p :: ps => (pieces (p.share ps.isEmpty)).map (⟨some k, ·⟩) ++ sourcedFrom (k + 1) ps

/-- The lines after imports were moved to the head. -/
def moveImports (parts : List Part) (language : Language) (lines : List SourcedLine) : List SourcedLine :=
  let statements := headOf language ((lines.filter (·.moves parts language)).map SourcedLine.text)
  let left := (lines.filter (!·.moves parts language)).dropWhile (isBlank ·.text)
  if statements.isEmpty then lines
  else (statements.map (· ++ ['\n']) ++ if left.isEmpty then [] else [['\n']]).map (⟨none, ·⟩) ++ left

/-- The texts of the lines that come from the part at this place. -/
def linesFrom (i : Nat) (lines : List SourcedLine) : List (List Char) :=
  (lines.filter (·.source == some i)).map SourcedLine.text

theorem map_text_mk (source : Option Nat) (texts : List (List Char)) :
    (texts.map (SourcedLine.mk source)).map SourcedLine.text = texts := by
  rw [List.map_map]
  exact List.map_id texts

/-! ## Lines in the order of the parts -/

/-- Lines of a head come first, then those of the parts, in the order of the parts. -/
def InOrder (lines : List SourcedLine) : Prop :=
  lines.Pairwise fun l m => ∀ k, m.isWithin k = true → l.isWithin k = true

/-- How many lines are those of a head and of the first `k` parts. -/
def countWithin (lines : List SourcedLine) (k : Nat) : Nat := lines.countP (·.isWithin k)

theorem isWithin_succ (l : SourcedLine) (k : Nat) :
    l.isWithin (k + 1) = (l.isWithin k || l.source == some k) := by
  unfold SourcedLine.isWithin
  cases l.source with
  | none => rfl
  | some i =>
    rw [Bool.eq_iff_iff]
    simp
    omega

theorem isWithin_mono {l : SourcedLine} {j k : Nat} (h : j ≤ k) (hl : l.isWithin j = true) :
    l.isWithin k = true := by
  unfold SourcedLine.isWithin at hl ⊢
  cases hs : l.source with
  | none => rfl
  | some i =>
    rw [hs] at hl
    simp at hl ⊢
    omega

theorem countWithin_mono (lines : List SourcedLine) {j k : Nat} (h : j ≤ k) :
    countWithin lines j ≤ countWithin lines k :=
  List.countP_mono_left fun _ _ hl => isWithin_mono h hl

/-- The lines behind a line come from parts that are not before its own. -/
theorem InOrder.isWithin_eq_false {l : SourcedLine} {ls : List SourcedLine} (h : InOrder (l :: ls)) {k : Nat}
    (hk : l.isWithin k = false) : ∀ m ∈ l :: ls, m.isWithin k = false := by
  obtain ⟨hl, -⟩ := List.pairwise_cons.1 h
  intro m hm
  rcases List.mem_cons.1 hm with rfl | hm
  · exact hk
  · by_contra hin
    rw [hl m hm k (by simpa using hin)] at hk
    cases hk

/-- Of lines in order those of the first parts come first. -/
theorem InOrder.take_append_drop {lines : List SourcedLine} (h : InOrder lines) (k : Nat) :
    lines.take (countWithin lines k) = lines.filter (·.isWithin k) ∧
      lines.drop (countWithin lines k) = lines.filter (!·.isWithin k) := by
  induction lines with
  | nil => exact ⟨rfl, rfl⟩
  | cons l ls ih =>
    obtain ⟨htake, hdrop⟩ := ih (List.pairwise_cons.1 h).2
    unfold countWithin at htake hdrop ⊢
    cases hk : l.isWithin k with
    | true =>
      rw [List.countP_cons_of_pos (by simpa using hk)]
      constructor
      · rw [List.take_succ_cons, htake, List.filter_cons_of_pos (by simpa using hk)]
      · rw [List.drop_succ_cons, hdrop, List.filter_cons_of_neg (by simp [hk])]
    | false =>
      have hnone := h.isWithin_eq_false hk
      have hcount : (l :: ls).countP (·.isWithin k) = 0 := by
        rw [List.countP_eq_zero]
        intro m hm
        rw [hnone m hm]
        exact Bool.false_ne_true
      rw [hcount]
      constructor
      · rw [List.take_zero, List.filter_eq_nil_iff.2 fun m hm => by simp [hnone m hm]]
      · rw [List.drop_zero, List.filter_eq_self.2 fun m hm => by simp [hnone m hm]]

theorem InOrder.isWithin_iff {lines : List SourcedLine} (h : InOrder lines) {j : Nat} {l : SourcedLine}
    (hl : lines[j]? = some l) (k : Nat) : l.isWithin k = true ↔ j < countWithin lines k := by
  obtain ⟨htake, hdrop⟩ := h.take_append_drop k
  constructor
  · intro hin
    by_contra hge
    have hmem : l ∈ lines.drop (countWithin lines k) := by
      apply List.mem_of_getElem? (i := j - countWithin lines k)
      rw [List.getElem?_drop, Nat.add_sub_cancel' (by omega), hl]
    rw [hdrop] at hmem
    have hnot := (List.mem_filter.1 hmem).2
    simp [hin] at hnot
  · intro hlt
    have hmem : l ∈ lines.take (countWithin lines k) := by
      apply List.mem_of_getElem? (i := j)
      rw [List.getElem?_take, if_pos hlt, hl]
    rw [htake] at hmem
    exact (List.mem_filter.1 hmem).2

theorem source_eq_iff (l : SourcedLine) (i : Nat) :
    l.source = some i ↔ l.isWithin (i + 1) = true ∧ l.isWithin i = false := by
  unfold SourcedLine.isWithin
  cases l.source with
  | none => simp
  | some j =>
    simp
    omega

/-- The lines of a part are those behind the lines of all parts before it. -/
theorem InOrder.linesFrom_eq {lines : List SourcedLine} (h : InOrder lines) (i : Nat) :
    linesFrom i lines =
      ((lines.map SourcedLine.text).take (countWithin lines (i + 1))).drop (countWithin lines i) := by
  have hcount : countWithin (lines.filter (·.isWithin (i + 1))) i = countWithin lines i := by
    unfold countWithin
    rw [List.countP_filter]
    apply List.countP_congr
    intro l _
    rw [isWithin_succ]
    cases l.isWithin i <;> simp
  have hdrop := (InOrder.take_append_drop (List.Pairwise.filter (·.isWithin (i + 1)) h) i).2
  rw [hcount, ← (h.take_append_drop (i + 1)).1] at hdrop
  rw [← List.map_take, ← List.map_drop, hdrop, (h.take_append_drop (i + 1)).1, List.filter_filter, linesFrom]
  congr 1
  apply List.filter_congr
  intro l _
  rw [Bool.eq_iff_iff, beq_iff_eq, source_eq_iff]
  simp [and_comm]

theorem InOrder.length_linesFrom {lines : List SourcedLine} (h : InOrder lines) (i : Nat) :
    countWithin lines (i + 1) = countWithin lines i + (linesFrom i lines).length := by
  have hmono : countWithin lines i ≤ countWithin lines (i + 1) := countWithin_mono lines (Nat.le_succ i)
  have hle : countWithin lines (i + 1) ≤ lines.length := List.countP_le_length
  rw [h.linesFrom_eq, List.length_drop, List.length_take, List.length_map, Nat.min_eq_left hle]
  omega

/-! ## A result with its lines -/

/-- The report on a part whose lines are those behind the first `before`, up to the one with the number `last`. -/
def Part.reportOn (p : Part) (before last : Nat) : ChunkReport where
  chunk := p.chunk.index
  startLine := p.chunk.startLine
  endLine := p.chunk.endLine
  status := p.final.status
  attempts := p.final.attempts
  confidence := p.final.confidence
  outputLines := if isBlank p.text || decide (last ≤ before) then none else some (before + 1, last)

theorem Part.outputLines_reportOn (p : Part) (before last : Nat) (range : Nat × Nat) :
    (p.reportOn before last).outputLines = some range ↔
      isBlank p.text = false ∧ before < last ∧ range = (before + 1, last) := by
  unfold Part.reportOn
  dsimp only
  cases isBlank p.text with
  | true => simp
  | false =>
    by_cases h : last ≤ before
    · simp [h]
    · simp [h, eq_comm]
      omega

/-- The result consists of these lines, and reports of each part which of them are its own. -/
structure Laid (parts : List Part) (lines : List SourcedLine) (a : Assembly) : Prop where
  text : pieces a.code.toList = lines.map SourcedLine.text
  inOrder : InOrder lines
  reports : a.chunks = parts.mapIdx fun i p => p.reportOn (countWithin lines i) (countWithin lines (i + 1))

namespace Laid

variable {parts : List Part} {lines : List SourcedLine} {a : Assembly}

theorem getElem?_chunks (h : Laid parts lines a) (i : Nat) : a.chunks[i]? =
    parts[i]?.map fun p => p.reportOn (countWithin lines i) (countWithin lines (i + 1)) := by
  rw [h.reports, List.getElem?_mapIdx]

theorem length_lines (h : Laid parts lines a) : (pieces a.code.toList).length = lines.length := by
  rw [h.text, List.length_map]

theorem owns_iff (h : Laid parts lines a) {j : Nat} {l : SourcedLine} (hl : lines[j]? = some l) (i : Nat) (p : Part) :
    (p.reportOn (countWithin lines i) (countWithin lines (i + 1))).owns (j + 1) = true ↔
      isBlank p.text = false ∧ l.source = some i := by
  have hfirst := h.inOrder.isWithin_iff hl i
  have hlast := h.inOrder.isWithin_iff hl (i + 1)
  have hnot : l.isWithin i = false ↔ countWithin lines i ≤ j := by
    rw [← Bool.not_eq_true, hfirst]
    omega
  unfold ChunkReport.owns
  rw [source_eq_iff, hlast, hnot, Option.any_eq_true]
  simp only [Part.outputLines_reportOn, Bool.and_eq_true, decide_eq_true_eq]
  constructor
  · rintro ⟨range, ⟨hblank, -, rfl⟩, hge, hle⟩
    exact ⟨hblank, by omega, by omega⟩
  · rintro ⟨hblank, hlt, hge⟩
    exact ⟨_, ⟨hblank, by omega, rfl⟩, by omega, by omega⟩

theorem owns_iff_of_getElem? (h : Laid parts lines a) {j : Nat} {l : SourcedLine} (hl : lines[j]? = some l) {i : Nat}
    {r : ChunkReport} (hr : a.chunks[i]? = some r) : r.owns (j + 1) = true ↔
      ∃ p, parts[i]? = some p ∧ isBlank p.text = false ∧ l.source = some i := by
  rw [h.getElem?_chunks] at hr
  obtain ⟨p, hp, rfl⟩ := Option.map_eq_some_iff.1 hr
  rw [h.owns_iff hl]
  simp [hp]

theorem owner?_eq_none (h : Laid parts lines a) {j : Nat} {l : SourcedLine} (hl : lines[j]? = some l)
    (hno : ∀ i p, parts[i]? = some p → l.source = some i → isBlank p.text = true) : owner? a.chunks (j + 1) = none := by
  unfold owner?
  rw [List.find?_eq_none.2, Option.map_none]
  intro r hr hown
  obtain ⟨i, hi⟩ := List.mem_iff_getElem?.1 hr
  obtain ⟨p, hp, hblank, hs⟩ := (h.owns_iff_of_getElem? hl hi).1 hown
  rw [hno i p hp hs] at hblank
  cases hblank

theorem owner?_eq_some (h : Laid parts lines a) {i j : Nat} {l : SourcedLine} (hl : lines[j]? = some l) {p : Part}
    (hs : l.source = some i) (hp : parts[i]? = some p) (hblank : isBlank p.text = false) :
    owner? a.chunks (j + 1) = some (p.chunk.index, p.final.status) := by
  have hr := h.getElem?_chunks i
  rw [hp, Option.map_some] at hr
  -- no report before that on the part owns the line
  have hfind : a.chunks.find? (·.owns (j + 1)) =
      some (p.reportOn (countWithin lines i) (countWithin lines (i + 1))) := by
    rw [List.find?_eq_some_iff_getElem]
    obtain ⟨hlt, heq⟩ := List.getElem?_eq_some_iff.1 hr
    refine ⟨(h.owns_iff hl i p).2 ⟨hblank, hs⟩, i, hlt, heq, ?_⟩
    intro k hk
    rw [Bool.not_eq_true', ← Bool.not_eq_true, h.owns_iff_of_getElem? hl (List.getElem?_eq_getElem _)]
    rintro ⟨q, -, -, hk'⟩
    rw [hs] at hk'
    cases hk'
    omega
  unfold owner?
  rw [hfind]
  rfl

/-- A line belongs to the part that it comes from. -/
theorem owner?_eq (h : Laid parts lines a) {j : Nat} {l : SourcedLine} (hl : lines[j]? = some l) :
    owner? a.chunks (j + 1) = (l.part? parts).bind Part.owner? := by
  unfold SourcedLine.part?
  cases hs : l.source with
  | none =>
    apply h.owner?_eq_none hl
    intro i p _ hi
    rw [hs] at hi
    cases hi
  | some i =>
    rw [Option.bind_some]
    cases hp : parts[i]? with
    | none =>
      apply h.owner?_eq_none hl
      intro k p hk hi
      rw [hs] at hi
      cases hi
      rw [hp] at hk
      cases hk
    | some p =>
      rw [Option.bind_some, Part.owner?]
      cases hblank : isBlank p.text with
      | true =>
        apply h.owner?_eq_none hl
        intro k q hk hi
        rw [hs] at hi
        cases hi
        rw [hp] at hk
        cases hk
        exact hblank
      | false => exact h.owner?_eq_some hl hs hp hblank

theorem marked_eq (h : Laid parts lines a) (language : Language) :
    a.marked language = lines.map fun l => ⟨l.text, l.moves parts language⟩ := by
  apply List.ext_getElem?
  intro i
  rw [marked, List.getElem?_mapIdx, h.text, List.getElem?_map, List.getElem?_map]
  cases hl : lines[i]? with
  | none => rfl
  | some l =>
    simp only [Option.map_some, Option.some.injEq, HoistLine.mk.injEq, true_and]
    rw [isMovable_eq, h.owner?_eq hl, SourcedLine.moves]
    cases l.part? parts with
    | none => rfl
    | some p =>
      rw [Option.bind_some, Part.owner?, Option.any_some, Part.gives]
      cases isBlank p.text <;> rfl

end Laid

/-! ## Moving imports -/

theorem take_dropLeadingBlanks (k : Nat) (ls : List HoistLine) :
    (dropLeadingBlanks ls).take k = dropLeadingBlanks (ls.take k) := by
  induction ls generalizing k with
  | nil => simp [dropLeadingBlanks]
  | cons l ls ih =>
    cases k with
    | zero => simp [dropLeadingBlanks]
    | succ k =>
      rw [List.take_succ_cons, dropLeadingBlanks, dropLeadingBlanks]
      split
      · rw [List.take_succ_cons, ih]
      · split
        · rw [List.take_succ_cons, ih]
        · rw [List.take_succ_cons]

theorem InOrder.filter_dropWhile {lines : List SourcedLine} (h : InOrder lines) (p : SourcedLine → Bool) (k : Nat) :
    (lines.filter (·.isWithin k)).dropWhile p = (lines.dropWhile p).filter (·.isWithin k) := by
  induction lines with
  | nil => rfl
  | cons l ls ih =>
    have hrest := ih (List.pairwise_cons.1 h).2
    cases hp : p l with
    | true =>
      rw [List.dropWhile_cons_of_pos hp, ← hrest]
      cases hk : l.isWithin k with
      | true => rw [List.filter_cons_of_pos (by simpa using hk), List.dropWhile_cons_of_pos hp]
      | false => rw [List.filter_cons_of_neg (by simp [hk])]
    | false =>
      rw [List.dropWhile_cons_of_neg (by simp [hp])]
      cases hk : l.isWithin k with
      | true => rw [List.filter_cons_of_pos (by simpa using hk), List.dropWhile_cons_of_neg (by simp [hp])]
      | false =>
        have hnone : (l :: ls).filter (·.isWithin k) = [] := by
          rw [List.filter_eq_nil_iff]
          intro m hm
          rw [h.isWithin_eq_false hk m hm]
          exact Bool.false_ne_true
        rw [hnone]
        rfl

/-- Of the lines of the first parts as many are left as stand behind the head and come from these parts. -/
theorem InOrder.leftBefore_eq {lines : List SourcedLine} (h : InOrder lines) (moves : SourcedLine → Bool) (k : Nat) :
    leftBefore (dropLeadingBlanks (lines.map fun l => ⟨l.text, moves l⟩)) (countWithin lines k) =
      countWithin ((lines.filter (!moves ·)).dropWhile (isBlank ·.text)) k := by
  have hleft := congrArg List.length (left_dropLeadingBlanks ((lines.filter (·.isWithin k)).map
    fun l => ⟨l.text, moves l⟩))
  have hordered : InOrder (lines.filter (!moves ·)) := List.Pairwise.filter _ h
  rw [List.length_map] at hleft
  unfold leftBefore
  rw [take_dropLeadingBlanks, ← List.map_take, (h.take_append_drop k).1, List.countP_eq_length_filter, hleft,
    List.filter_map, List.map_map, List.dropWhile_map, List.length_map, countWithin, List.countP_eq_length_filter,
    ← hordered.filter_dropWhile, List.filter_filter, List.filter_filter]
  congr 2
  apply List.filter_congr
  intro l _
  exact Bool.and_comm _ _

theorem countWithin_head_append (head : List (List Char)) (lines : List SourcedLine) (k : Nat) :
    countWithin (head.map (⟨none, ·⟩) ++ lines) k = head.length + countWithin lines k := by
  unfold countWithin
  rw [List.countP_append, Nat.add_right_cancel_iff, List.countP_map, List.countP_eq_length]
  intro t _
  rfl

theorem InOrder.head_append {lines : List SourcedLine} (h : InOrder lines) (head : List (List Char)) :
    InOrder (head.map (⟨none, ·⟩) ++ lines) := by
  unfold InOrder
  rw [List.pairwise_append]
  have hhead : ∀ l ∈ head.map (SourcedLine.mk none), ∀ k, l.isWithin k = true := by
    intro l hl k
    obtain ⟨t, -, rfl⟩ := List.mem_map.1 hl
    rfl
  refine ⟨?_, h, ?_⟩
  · apply List.pairwise_of_forall_mem_list
    intro l hl m _ k _
    exact hhead l hl k
  · intro l hl m _ k _
    exact hhead l hl k

/-- A range of lines goes on from the lines that are left before it to those that are left up to its end. -/
theorem renumbered_reportOn (p : Part) (next : Nat) (ls : List HoistLine) {before last : Nat} (h : before ≤ last) :
    renumbered next ls (p.reportOn before last) =
      p.reportOn (next + leftBefore ls before) (next + leftBefore ls last) := by
  unfold renumbered Part.reportOn
  dsimp only
  congr 1
  cases isBlank p.text with
  | true => rfl
  | false =>
    rw [Bool.false_or, Bool.false_or]
    by_cases hle : last ≤ before
    · obtain rfl : last = before := Nat.le_antisymm hle h
      simp
    · rw [decide_eq_false hle, if_neg Bool.false_ne_true, Option.bind_some, moveRange_renumber, Nat.add_sub_cancel]
      simp only [decide_eq_true_eq, Nat.add_le_add_iff_left]
      split
      · rw [if_neg (by omega)]
      · rw [if_pos (by omega)]

/-- The ranges go with the lines when imports are moved. -/
theorem Laid.hoist {parts : List Part} {lines : List SourcedLine} {a : Assembly} (h : Laid parts lines a)
    (language : Language) : Laid parts (moveImports parts language lines) (a.hoist language).1 := by
  have hmarked := h.marked_eq language
  have hstatements : headOfMarked language (a.marked language) =
      headOf language ((lines.filter (·.moves parts language)).map SourcedLine.text) := by
    rw [headOfMarked, hmarked, List.filter_map, List.map_map]
    rfl
  have hleft : restOf (a.marked language) =
      ((lines.filter (!·.moves parts language)).dropWhile (isBlank ·.text)).map SourcedLine.text := by
    rw [restOf, hmarked, List.filter_map, List.map_map, List.dropWhile_map]
    rfl
  unfold moveImports
  dsimp only
  rw [← hstatements]
  by_cases hnone : (a.marked language).filter (·.removed) = []
  · rw [headOfMarked_eq_nil_iff.2 hnone, List.isEmpty_nil, if_pos rfl, hoist_of_eq_nil hnone]
    exact h
  · have hsome : (headOfMarked language (a.marked language)).isEmpty = false := by
      rw [List.isEmpty_eq_false_iff]
      exact mt headOfMarked_eq_nil_iff.1 hnone
    have hhead : headLines language (a.marked language) =
        (headOfMarked language (a.marked language)).map (· ++ ['\n']) ++
          if ((lines.filter (!·.moves parts language)).dropWhile (isBlank ·.text)).isEmpty then []
          else [['\n']] := by
      rw [headLines, hleft, List.isEmpty_map]
    rw [hsome, if_neg Bool.false_ne_true, ← hhead]
    have hordered : InOrder ((lines.filter (!·.moves parts language)).dropWhile (isBlank ·.text)) :=
      List.Pairwise.sublist ((List.dropWhile_sublist _).trans List.filter_sublist) h.inOrder
    refine ⟨?_, hordered.head_append _, ?_⟩
    · rw [pieces_code_hoist hnone, hleft, List.map_append, map_text_mk]
    · have hcount := fun k => h.inOrder.leftBefore_eq (·.moves parts language) k
      rw [← hmarked] at hcount
      rw [hoist_of_ne_nil hnone]
      dsimp only
      rw [h.reports]
      apply List.ext_getElem?
      intro i
      rw [List.getElem?_map, List.getElem?_mapIdx, List.getElem?_mapIdx, Option.map_map]
      refine congrArg (Option.map · parts[i]?) (funext fun p => ?_)
      rw [Function.comp_apply, renumbered_reportOn _ _ _ (countWithin_mono lines (Nat.le_succ i)), hcount, hcount,
        countWithin_head_append, countWithin_head_append]

end Pseudoscribe.Assembly
