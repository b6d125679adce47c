import Pseudoscribe.Proofs.Assembly.Sources

/-!
# The ranges of lines in a result

The reports of a result give each chunk the range of the lines that come from it.  This is so when chunks are put
together, and stays so however often imports are moved: the ranges lie within the code and one behind the other, and
the lines of a range are those of the chunk's piece but for the imports that were moved and for blank lines with which
the code would begin.  A line that is in no range is one of the head or of a blank piece.
-/

namespace Pseudoscribe.Assembly

open Text

/-! ## The lines at first -/

theorem map_text_sourcedFrom (k : Nat) (parts : List Part) :
    (sourcedFrom k parts).map SourcedLine.text = (linesOf parts).map Line.text := by
  induction parts generalizing k with
  | nil => rfl
  | cons p ps ih =>
    rw [sourcedFrom, linesOf, List.map_append, List.map_append, ih, Part.map_text_lines, map_text_mk]

theorem le_of_mem_sourcedFrom {k : Nat} {parts : List Part} {l : SourcedLine} (h : l ∈ sourcedFrom k parts) :
    ∃ i, l.source = some i ∧ k ≤ i := by
  induction parts generalizing k with
  | nil => cases h
  | cons p ps ih =>
    rcases List.mem_append.1 h with h | h
    · obtain ⟨t, -, rfl⟩ := List.mem_map.1 h
      exact ⟨k, rfl, Nat.le_refl k⟩
    · obtain ⟨i, hi, hle⟩ := ih h
      exact ⟨i, hi, by omega⟩

theorem inOrder_sourcedFrom (k : Nat) (parts : List Part) : InOrder (sourcedFrom k parts) := by
  induction parts generalizing k with
  | nil => exact List.Pairwise.nil
  | cons p ps ih =>
    refine List.pairwise_append.2 ⟨?_, ih (k + 1), ?_⟩
    · apply List.pairwise_of_forall_mem_list
      intro l hl m hm j hj
      obtain ⟨s, -, rfl⟩ := List.mem_map.1 hl
      obtain ⟨t, -, rfl⟩ := List.mem_map.1 hm
      exact hj
    · intro l hl m hm j hj
      obtain ⟨s, -, rfl⟩ := List.mem_map.1 hl
      obtain ⟨i, hi, hle⟩ := le_of_mem_sourcedFrom hm
      unfold SourcedLine.isWithin at hj ⊢
      rw [hi] at hj
      simp at hj ⊢
      omega

theorem countWithin_sourcedFrom_of_le {j k : Nat} (h : j ≤ k) (parts : List Part) :
    countWithin (sourcedFrom k parts) j = 0 := by
  unfold countWithin
  rw [List.countP_eq_zero]
  intro l hl hin
  obtain ⟨i, hi, hle⟩ := le_of_mem_sourcedFrom hl
  unfold SourcedLine.isWithin at hin
  rw [hi] at hin
  simp at hin
  omega

theorem countWithin_sourcedFrom_cons {j k : Nat} (h : k < j) (p : Part) (ps : List Part) :
    countWithin (sourcedFrom k (p :: ps)) j =
      (p.lines ps.isEmpty).length + countWithin (sourcedFrom (k + 1) ps) j := by
  unfold countWithin
  rw [sourcedFrom, List.countP_append, Nat.add_right_cancel_iff, Part.length_lines, List.countP_map,
    List.countP_eq_length]
  intro t _
  simpa [SourcedLine.isWithin] using h

theorem Part.report_eq_reportOn (p : Part) (before : Nat) (isLast : Bool) :
    p.report before isLast = p.reportOn before (before + (p.lines isLast).length) := by
  unfold Part.report Part.reportOn
  congr 1
  cases hblank : isBlank p.text with
  | true => rfl
  | false =>
    have hpos := Part.length_lines_pos isLast hblank
    have hsome : ¬before + (p.lines isLast).length ≤ before := by omega
    rw [Bool.false_or, decide_eq_false hsome]

/-- The reports speak of the lines of the parts. -/
theorem reportsOf_eq_mapIdx (before k : Nat) (parts : List Part) :
    reportsOf before parts = parts.mapIdx fun i p =>
      p.reportOn (before + countWithin (sourcedFrom k parts) (k + i))
        (before + countWithin (sourcedFrom k parts) (k + i + 1)) := by
  induction parts generalizing before k with
  | nil => rfl
  | cons p ps ih =>
    have hnone : countWithin (sourcedFrom k (p :: ps)) (k + 0) = 0 :=
      countWithin_sourcedFrom_of_le (Nat.le_refl k) _
    have hfirst : countWithin (sourcedFrom k (p :: ps)) (k + 0 + 1) = (p.lines ps.isEmpty).length := by
      rw [countWithin_sourcedFrom_cons (by omega), countWithin_sourcedFrom_of_le (Nat.le_refl (k + 1)), Nat.add_zero]
    have hrest : ∀ i, countWithin (sourcedFrom k (p :: ps)) (k + (i + 1)) =
        (p.lines ps.isEmpty).length + countWithin (sourcedFrom (k + 1) ps) (k + 1 + i) := by
      intro i
      rw [countWithin_sourcedFrom_cons (by omega), Nat.add_right_comm k 1 i, Nat.add_assoc k i 1]
    rw [reportsOf, List.mapIdx_cons, ih _ (k + 1), hnone, hfirst, Part.report_eq_reportOn, Nat.add_zero]
    refine congrArg (_ :: ·) (congrArg (List.mapIdx · ps) ?_)
    funext i q
    have hnext := hrest (i + 1)
    rw [hrest i, ← Nat.add_assoc before, Nat.add_assoc k (i + 1) 1, hnext, ← Nat.add_assoc before]
    rfl

theorem laid_ofChunks (id : RequestId) (chunks : List Chunk) (finals : List (Nat × ChunkEnd)) (cancelled : Bool) :
    Laid (partsOf finals chunks) (sourcedFrom 0 (partsOf finals chunks)) (ofChunks id chunks finals cancelled) := by
  obtain ⟨htext, hchunks⟩ := layout_ofChunks id chunks finals cancelled
  refine ⟨?_, inOrder_sourcedFrom 0 _, ?_⟩
  · rw [htext, map_text_sourcedFrom]
  · rw [hchunks, reportsOf_eq_mapIdx 0 0]
    simp only [Nat.zero_add]

theorem linesFrom_sourcedFrom {parts : List Part} (k : Nat) {i : Nat} {p : Part} (h : parts[i]? = some p) :
    linesFrom (k + i) (sourcedFrom k parts) = pieces (p.share (i + 1 == parts.length)) := by
  induction parts generalizing k i with
  | nil => cases h
  | cons q ps ih =>
    unfold linesFrom at ih ⊢
    rw [sourcedFrom, List.filter_append, List.map_append]
    cases i with
    | zero =>
      cases h
      have hlast : (0 + 1 == (p :: ps).length) = ps.isEmpty := by cases ps <;> rfl
      have hrest : (sourcedFrom (k + 1) ps).filter (·.source == some (k + 0)) = [] := by
        rw [List.filter_eq_nil_iff]
        intro l hl hs
        obtain ⟨j, hj, hle⟩ := le_of_mem_sourcedFrom hl
        rw [hj] at hs
        simp at hs
        omega
      rw [hrest, hlast, List.filter_eq_self.2, List.map_nil, List.append_nil, map_text_mk]
      intro l hl
      obtain ⟨t, -, rfl⟩ := List.mem_map.1 hl
      simp
    | succ i =>
      have hfirst : ((pieces (q.share ps.isEmpty)).map (SourcedLine.mk (some k))).filter
          (·.source == some (k + (i + 1))) = [] := by
        rw [List.filter_eq_nil_iff]
        intro l hl hs
        obtain ⟨t, -, rfl⟩ := List.mem_map.1 hl
        simp at hs
      have hlast : (i + 1 + 1 == (q :: ps).length) = (i + 1 == ps.length) := by
        rw [List.length_cons, Bool.eq_iff_iff, beq_iff_eq, beq_iff_eq, Nat.add_right_cancel_iff]
      rw [hfirst, hlast, List.map_nil, List.nil_append, ← ih (k + 1) h, Nat.add_right_comm k 1, Nat.add_assoc k i 1]

/-! ## What is left of a part -/

/-- Of the lines of a part those are missing that are moved, and blank ones with which the code would begin. -/
theorem exists_dropped (parts : List Part) (language : Language) (lines : List SourcedLine) {i : Nat} {p : Part}
    (h : parts[i]? = some p) : ∃ dropped, (∀ t ∈ dropped, isBlank t = true) ∧
      (linesFrom i lines).filter (!p.gives language ·) =
        dropped ++ linesFrom i (moveImports parts language lines) := by
  have hfrom : (linesFrom i lines).filter (!p.gives language ·) =
      linesFrom i (lines.filter (!·.moves parts language)) := by
    unfold linesFrom
    rw [List.filter_map, List.filter_filter, List.filter_filter]
    congr 1
    apply List.filter_congr
    intro l _
    cases hs : l.source == some i with
    | false => simp
    | true =>
      have hpart : l.part? parts = some p := by rw [SourcedLine.part?, beq_iff_eq.1 hs, Option.bind_some, h]
      simp [SourcedLine.moves, hpart]
  rw [hfrom]
  unfold moveImports
  dsimp only
  split
  · next hnone =>
    -- nothing is moved
    have hall : lines.filter (·.moves parts language) = [] :=
      List.map_eq_nil_iff.1 (headOf_eq_nil_iff.1 (List.isEmpty_iff.1 hnone))
    refine ⟨[], by simp, ?_⟩
    rw [List.nil_append, List.filter_eq_self.2]
    intro l hl
    rw [Bool.not_eq_true', ← Bool.not_eq_true]
    exact List.filter_eq_nil_iff.1 hall l hl
  · refine ⟨linesFrom i ((lines.filter (!·.moves parts language)).takeWhile (isBlank ·.text)), ?_, ?_⟩
    · intro t ht
      obtain ⟨l, hl, rfl⟩ := List.mem_map.1 ht
      exact List.mem_takeWhile_imp (p := fun l : SourcedLine => isBlank l.text) (List.mem_filter.1 hl).1
    · unfold linesFrom
      rw [List.filter_append, List.map_append, ← List.append_assoc, ← List.map_append]
      generalize lines.filter (!·.moves parts language) = left
      have hhead : ∀ head : List (List Char), (head.map (SourcedLine.mk none)).filter (·.source == some i) = [] := by
        intro head
        rw [List.filter_eq_nil_iff]
        intro l hl hs
        obtain ⟨t, -, rfl⟩ := List.mem_map.1 hl
        cases hs
      rw [hhead, List.append_nil, ← List.map_append, ← List.filter_append, List.takeWhile_append_dropWhile]

/-! ## Moving imports any number of times -/

/-- Move imports for one language after the other. -/
def hoistAll (languages : List Language) (a : Assembly) : Assembly :=
  languages.foldl (fun a language => (a.hoist language).1) a

/-- The lines after imports were moved for one language after the other. -/
def moveAll (parts : List Part) (languages : List Language) (lines : List SourcedLine) : List SourcedLine :=
  languages.foldl (fun lines language => moveImports parts language lines) lines

theorem Laid.hoistAll {parts : List Part} {lines : List SourcedLine} {a : Assembly} (h : Laid parts lines a)
    (languages : List Language) :
    Laid parts (moveAll parts languages lines) (Assembly.hoistAll languages a) := by
  induction languages generalizing lines a with
  | nil => exact h
  | cons language languages ih => exact ih (h.hoist language)

theorem exists_dropped_moveAll (parts : List Part) (languages : List Language) (lines : List SourcedLine) {i : Nat}
    {p : Part} (h : parts[i]? = some p) : ∃ dropped, (∀ t ∈ dropped, isBlank t = true) ∧
      (linesFrom i lines).filter (fun t => languages.all (!p.gives · t)) =
        dropped ++ linesFrom i (moveAll parts languages lines) := by
  induction languages generalizing lines with
  | nil => exact ⟨[], by simp, List.filter_eq_self.2 fun _ _ => rfl⟩
  | cons language languages ih =>
    obtain ⟨first, hfirst, hleft⟩ := exists_dropped parts language lines h
    obtain ⟨second, hsecond, hrest⟩ := ih (moveImports parts language lines)
    refine ⟨first.filter (fun t => languages.all (!p.gives · t)) ++ second, ?_, ?_⟩
    · intro t ht
      rcases List.mem_append.1 ht with ht | ht
      · exact hfirst t (List.mem_filter.1 ht).1
      · exact hsecond t ht
    · have hsplit : (linesFrom i lines).filter (fun t => (language :: languages).all (!p.gives · t)) =
          ((linesFrom i lines).filter (!p.gives language ·)).filter (fun t => languages.all (!p.gives · t)) := by
        rw [List.filter_filter]
        apply List.filter_congr
        intro t _
        rw [List.all_cons, Bool.and_comm]
      rw [hsplit, hleft, List.filter_append, hrest, List.append_assoc]
      rfl

/-! ## Ranges -/

/-- The lines of a result are traced back to the parts that they come from. -/
structure Traced (parts : List Part) (languages : List Language) (lines : List SourcedLine) (a : Assembly) : Prop where
  code : pieces a.code.toList = lines.map SourcedLine.text
  chunks : a.chunks.map ChunkReport.chunk = parts.map (·.chunk.index)
  within : ∀ r ∈ a.chunks, ∀ range ∈ r.outputLines,
    0 < range.1 ∧ range.1 ≤ range.2 ∧ range.2 ≤ (pieces a.code.toList).length
  increasing : a.chunks.Pairwise fun r s => ∀ x ∈ r.outputLines, ∀ y ∈ s.outputLines, x.2 < y.1
  /-- a part that is blank, or of which no line is left, has no range, and any other has one -/
  without : ∀ i p r, parts[i]? = some p → a.chunks[i]? = some r →
    (r.outputLines = none ↔ isBlank p.text = true ∨ linesFrom i lines = [])
  own : ∀ i r, a.chunks[i]? = some r → ∀ range ∈ r.outputLines,
    ((pieces a.code.toList).take range.2).drop (range.1 - 1) = linesFrom i lines
  /-- besides the lines that are moved only blank ones at the beginning are missing -/
  left : ∀ i p, parts[i]? = some p → ∃ dropped, (∀ t ∈ dropped, isBlank t = true) ∧
    (pieces (p.share (i + 1 == parts.length))).filter (fun t => languages.all (!p.gives · t)) =
      dropped ++ linesFrom i lines
  owner : ∀ j l, lines[j]? = some l →
    a.ownerOf? (j + 1) = ((l.part? parts).filter (!isBlank ·.text)).map (·.chunk.index)
  outside : ∀ line, line = 0 ∨ lines.length < line → a.ownerOf? line = none

section Ranges

variable {parts : List Part} {lines : List SourcedLine} {a : Assembly} (h : Laid parts lines a)
include h

theorem Laid.exists_part {i : Nat} {r : ChunkReport} (hr : a.chunks[i]? = some r) : ∃ p, parts[i]? = some p ∧
    r = p.reportOn (countWithin lines i) (countWithin lines (i + 1)) := by
  rw [h.getElem?_chunks] at hr
  obtain ⟨p, hp, rfl⟩ := Option.map_eq_some_iff.1 hr
  exact ⟨p, hp, rfl⟩

theorem Laid.range_eq {i : Nat} {r : ChunkReport} (hr : a.chunks[i]? = some r) {range : Nat × Nat}
    (hrange : range ∈ r.outputLines) :
    countWithin lines i < countWithin lines (i + 1) ∧
      range = (countWithin lines i + 1, countWithin lines (i + 1)) := by
  obtain ⟨p, -, rfl⟩ := h.exists_part hr
  exact ((p.outputLines_reportOn _ _ _).1 hrange).2

theorem Laid.increasing :
    a.chunks.Pairwise fun r s => ∀ x ∈ r.outputLines, ∀ y ∈ s.outputLines, x.2 < y.1 := by
  rw [List.pairwise_iff_getElem]
  intro i j hi hj hij x hx y hy
  obtain ⟨-, rfl⟩ := h.range_eq (List.getElem?_eq_getElem hi) hx
  obtain ⟨-, rfl⟩ := h.range_eq (List.getElem?_eq_getElem hj) hy
  exact Nat.lt_succ_of_le (countWithin_mono lines hij)

theorem Laid.without {i : Nat} {p : Part} {r : ChunkReport} (hp : parts[i]? = some p) (hr : a.chunks[i]? = some r) :
    r.outputLines = none ↔ isBlank p.text = true ∨ linesFrom i lines = [] := by
  have hlength := h.inOrder.length_linesFrom i
  obtain ⟨q, hq, rfl⟩ := h.exists_part hr
  obtain rfl : p = q := Option.some.inj (hp.symm.trans hq)
  rw [Option.eq_none_iff_forall_ne_some, ← List.length_eq_zero_iff]
  simp only [ne_eq, Part.outputLines_reportOn]
  constructor
  · intro hnone
    by_contra hsome
    rw [not_or, Bool.not_eq_true] at hsome
    exact hnone _ ⟨hsome.1, by omega, rfl⟩
  · rintro (hblank | hempty) range ⟨hsome, hlt, -⟩
    · rw [hblank] at hsome
      cases hsome
    · omega

omit h in
theorem ownerOf?_eq (line : Nat) : a.ownerOf? line = (owner? a.chunks line).map Prod.fst := by
  unfold ownerOf? owner?
  rw [Option.map_map]
  rfl

theorem Laid.outside {line : Nat} (hline : line = 0 ∨ lines.length < line) : a.ownerOf? line = none := by
  unfold ownerOf?
  rw [List.find?_eq_none.2, Option.map_none]
  intro r hr hown
  obtain ⟨i, hi⟩ := List.mem_iff_getElem?.1 hr
  unfold ChunkReport.owns at hown
  rw [Option.any_eq_true] at hown
  obtain ⟨range, hrange, hin⟩ := hown
  obtain ⟨-, rfl⟩ := h.range_eq hi hrange
  have hle : countWithin lines (i + 1) ≤ lines.length := List.countP_le_length
  simp at hin
  omega

end Ranges

/-- However often imports are moved after chunks were put together, and for whatever languages, the ranges of lines tell
which chunk each line comes from. -/
theorem traced_hoistAll (id : RequestId) (chunks : List Chunk) (finals : List (Nat × ChunkEnd)) (cancelled : Bool)
    (languages : List Language) :
    Traced (partsOf finals chunks) languages
      (moveAll (partsOf finals chunks) languages (sourcedFrom 0 (partsOf finals chunks)))
      (hoistAll languages (ofChunks id chunks finals cancelled)) := by
  have hfirst := laid_ofChunks id chunks finals cancelled
  generalize partsOf finals chunks = parts at hfirst ⊢
  have h := hfirst.hoistAll languages
  refine ⟨h.text, ?_, ?_, h.increasing, ?_, ?_, ?_, ?_, fun line => h.outside⟩
  · rw [h.reports]
    apply List.ext_getElem?
    intro i
    rw [List.getElem?_map, List.getElem?_mapIdx, List.getElem?_map, Option.map_map]
    rfl
  · intro r hr range hrange
    obtain ⟨i, hi⟩ := List.mem_iff_getElem?.1 hr
    obtain ⟨hlt, rfl⟩ := h.range_eq hi hrange
    refine ⟨Nat.succ_pos _, hlt, ?_⟩
    rw [h.length_lines]
    exact List.countP_le_length
  · intro i p r hp hr
    exact h.without hp hr
  · intro i r hr range hrange
    obtain ⟨-, rfl⟩ := h.range_eq hr hrange
    rw [h.text, h.inOrder.linesFrom_eq, Nat.add_sub_cancel]
  · intro i p hp
    obtain ⟨dropped, hblank, hleft⟩ := exists_dropped_moveAll parts languages (sourcedFrom 0 parts) hp
    have hlines := linesFrom_sourcedFrom 0 hp
    rw [Nat.zero_add] at hlines
    rw [hlines] at hleft
    exact ⟨dropped, hblank, hleft⟩
  · intro j l hl
    rw [ownerOf?_eq, h.owner?_eq hl]
    cases l.part? parts with
    | none => rfl
    | some p =>
      rw [Option.bind_some, Part.owner?, Option.filter_some]
      cases isBlank p.text <;> rfl

end Pseudoscribe.Assembly
