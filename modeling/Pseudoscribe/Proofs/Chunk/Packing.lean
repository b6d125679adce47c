import Pseudoscribe.Proofs.Block.Intervals
import Pseudoscribe.Proofs.Chunk.Seam

/-!
# The units of a text and how they are packed

The units of a text lie one after the other: they are its outermost blocks and the gaps between them.  So a line is in
one unit only, and the first line of a unit is inside of no block.

Packing carries along the lines of the chunk that is being filled.  What comes of it can be said without them: a chunk
takes whole units as long as they fit and one more would not, and a unit that does not fit by itself is cut.  A text
without blocks is one unit, which is cut in any case.
-/

namespace Pseudoscribe

open Text

/-! ## Lines by their numbers -/

namespace Row

/-- The number of the first of these lines. -/
def firstNumber (rows : List Row) : Nat := (rows.head?.map number).getD 1

/-- The number of the last of these lines. -/
def lastNumber (rows : List Row) : Nat := (rows.getLast?.map number).getD (firstNumber rows)

theorem NumberedFrom.firstNumber {first : Nat} {rows : List Row} (h : NumberedFrom first rows) (hne : rows ≠ []) :
    Row.firstNumber rows = first := by
  obtain ⟨r, hr⟩ := Option.ne_none_iff_exists'.1 (mt List.head?_eq_none_iff.1 hne)
  rw [Row.firstNumber, hr, Option.map_some, Option.getD_some]
  exact h.head hr

theorem NumberedFrom.lastNumber {first : Nat} {rows : List Row} (h : NumberedFrom first rows) (hne : rows ≠ []) :
    Row.lastNumber rows + 1 = first + rows.length := by
  obtain ⟨r, hr⟩ := Option.ne_none_iff_exists'.1 (mt List.getLast?_eq_none_iff.1 hne)
  rw [Row.lastNumber, hr, Option.map_some, Option.getD_some]
  exact h.getLast hr

theorem NumberedFrom.firstNumber_eq_lastNumber {first : Nat} {rows : List Row} (h : NumberedFrom first rows)
    (hne : rows ≠ []) : Row.firstNumber rows = Row.lastNumber rows ↔ rows.length = 1 := by
  have hfirst := h.firstNumber hne
  have hlast := h.lastNumber hne
  omega

/-- The numbers of consecutive lines. -/
theorem NumberedFrom.exists_number_iff {first : Nat} {rows : List Row} (h : NumberedFrom first rows) {line : Nat} :
    (∃ r ∈ rows, r.number = line) ↔ first ≤ line ∧ line < first + rows.length := by
  rw [← List.mem_map, h, List.mem_range'_1]

/-- Every number but the last is that of a line before the last one. -/
theorem NumberedFrom.exists_mem_dropLast {first line : Nat} {rows : List Row} (h : NumberedFrom first rows)
    (hne : rows ≠ []) (hfirst : Row.firstNumber rows ≤ line) (hlast : line < Row.lastNumber rows) :
    ∃ r ∈ rows.dropLast, r.number = line := by
  have hnumber := h.firstNumber hne
  have hlength := h.lastNumber hne
  have htake : NumberedFrom first rows.dropLast := List.dropLast_eq_take ▸ h.take (rows.length - 1)
  rw [htake.exists_number_iff, List.length_dropLast]
  omega

/-- Lines that are put together of parts are numbered on from part to part. -/
theorem NumberedFrom.of_mem_flatMap {α : Type} {f : α → List Row} {first : Nat} {xs : List α}
    (h : NumberedFrom first (xs.flatMap f)) {x : α} (hx : x ∈ xs) : ∃ n, NumberedFrom n (f x) := by
  obtain ⟨before, behind, rfl⟩ := List.append_of_mem hx
  rw [List.flatMap_append, List.flatMap_cons] at h
  exact ⟨_, (numberedFrom_append.1 (numberedFrom_append.1 h).2).1⟩

theorem total_append (xs ys : List Row) : total (xs ++ ys) = total xs + total ys := by
  rw [total, List.map_append, Pseudoscribe.total_append, total, total]

theorem length_join (rows : List Row) : (join rows).length = total rows := by
  induction rows with
  | nil => rfl
  | cons r rs ih =>
    unfold join total at ih ⊢
    rw [List.map_cons, List.flatten_cons, List.length_append, ih, List.map_cons, total_cons, length]

/-- The first and the last line, and the lines between them. -/
theorem NumberedFrom.exists_number_iff_between {first line : Nat} {rows : List Row} (h : NumberedFrom first rows)
    (hne : rows ≠ []) :
    (∃ r ∈ rows, r.number = line) ↔ Row.firstNumber rows ≤ line ∧ line ≤ Row.lastNumber rows := by
  have hfirst := h.firstNumber hne
  have hlast := h.lastNumber hne
  rw [h.exists_number_iff]
  omega

theorem NumberedFrom.firstNumber_le_lastNumber {first : Nat} {rows : List Row} (h : NumberedFrom first rows)
    (hne : rows ≠ []) : Row.firstNumber rows ≤ Row.lastNumber rows := by
  have hfirst := h.firstNumber hne
  have hlast := h.lastNumber hne
  have hpos := List.length_pos_iff.2 hne
  omega

end Row

/-! ## The lines of a unit -/

namespace ChunkUnit

def firstLine (u : ChunkUnit) : Nat := Row.firstNumber u.rows

def lastLine (u : ChunkUnit) : Nat := Row.lastNumber u.rows

/-- Length in characters. -/
def length (u : ChunkUnit) : Nat := Row.total u.rows

/-- The line is one of the unit's. -/
def Holds (u : ChunkUnit) (line : Nat) : Prop := u.firstLine ≤ line ∧ line ≤ u.lastLine

end ChunkUnit

namespace ChunkPlan

/-! ## The units of a text -/

/-- The units of lines with an outline. -/
def unitsFor (outline : Option Outline) (rows : List Row) : List ChunkUnit :=
  match outline with
  | some o => unitsOf o.innerEnds o.spans rows
  | none => unitsOf (fun _ _ => []) [] rows

/-- The units of a text: its outermost blocks and the lines between them, or all lines of a text without blocks. -/
def unitsIn (text : List Char) : List ChunkUnit :=
  unitsFor (Outline.ofText text).1 (rowsOf (Outline.ofText text).1 text)

theorem exists_unitsIn_eq (text : List Char) : ∃ innerEnds, unitsIn text =
    unitsOf innerEnds (Outline.boundaries text) (rowsOf (Outline.ofText text).1 text) := by
  unfold unitsIn unitsFor Outline.boundaries
  cases (Outline.ofText text).1 with
  | none => exact ⟨_, rfl⟩
  | some o => exact ⟨_, rfl⟩

theorem within_rowsOf (text : List Char) :
    Span.Within 0 (0 + (rowsOf (Outline.ofText text).1 text).length) (Outline.boundaries text) := by
  have hlength : 0 + (rowsOf (Outline.ofText text).1 text).length = (pieces text).length := by simp [rowsOf]
  rw [hlength]
  exact within_boundaries text

theorem rows_unitsIn (text : List Char) :
    (unitsIn text).flatMap ChunkUnit.rows = rowsOf (Outline.ofText text).1 text := by
  obtain ⟨innerEnds, heq⟩ := exists_unitsIn_eq text
  rw [heq]
  exact rows_unitsOf _ _ _

theorem numberedFrom_unitsIn (text : List Char) : Row.NumberedFrom 1 ((unitsIn text).flatMap ChunkUnit.rows) := by
  rw [rows_unitsIn]
  exact numberedFrom_rowsOf _ text

theorem rows_ne_nil_of_mem_unitsIn {text : List Char} : ∀ u ∈ unitsIn text, u.rows ≠ [] := by
  obtain ⟨innerEnds, heq⟩ := exists_unitsIn_eq text
  rw [heq]
  exact ne_nil_of_mem_unitsOf innerEnds (numberedFrom_rowsOf _ text) (within_rowsOf text)

/-- Units that hold consecutive lines lie one after the other. -/
theorem pairwise_units {first : Nat} {units : List ChunkUnit}
    (hrows : Row.NumberedFrom first (units.flatMap ChunkUnit.rows)) (hne : ∀ u ∈ units, u.rows ≠ []) :
    units.Pairwise fun u v => u.lastLine < v.firstLine := by
  induction units generalizing first with
  | nil => exact .nil
  | cons u units ih =>
    obtain ⟨hu, hunits⟩ := List.forall_mem_cons.1 hne
    rw [List.flatMap_cons] at hrows
    obtain ⟨hhead, hrest⟩ := Row.numberedFrom_append.1 hrows
    refine .cons (fun v hv => ?_) (ih hrest hunits)
    -- the first line of a later unit is one of the lines behind the first unit
    obtain ⟨n, hvrows⟩ := hrest.of_mem_flatMap hv
    obtain ⟨r, hr, hnumber⟩ := (hvrows.exists_number_iff_between (hunits v hv)).2
      ⟨Nat.le_refl _, hvrows.firstNumber_le_lastNumber (hunits v hv)⟩
    have hbehind := (hrest.exists_number_iff).1 ⟨r, List.mem_flatMap.2 ⟨v, hv, hr⟩, hnumber⟩
    have hlast := hhead.lastNumber hu
    unfold ChunkUnit.lastLine ChunkUnit.firstLine
    omega

section Units

variable {text : List Char} {u v : ChunkUnit}

theorem exists_number_iff_holds (hu : u ∈ unitsIn text) {line : Nat} :
    (∃ r ∈ u.rows, r.number = line) ↔ u.Holds line := by
  obtain ⟨n, hrows⟩ := (numberedFrom_unitsIn text).of_mem_flatMap hu
  exact hrows.exists_number_iff_between (rows_ne_nil_of_mem_unitsIn u hu)

theorem firstLine_le_lastLine (hu : u ∈ unitsIn text) : u.firstLine ≤ u.lastLine := by
  obtain ⟨n, hrows⟩ := (numberedFrom_unitsIn text).of_mem_flatMap hu
  exact hrows.firstNumber_le_lastNumber (rows_ne_nil_of_mem_unitsIn u hu)

/-- A line is in one unit only. -/
theorem eq_of_holds (hu : u ∈ unitsIn text) (hv : v ∈ unitsIn text) {line : Nat} (h : u.Holds line)
    (h' : v.Holds line) : u = v := by
  have hpairwise := pairwise_units (numberedFrom_unitsIn text) rows_ne_nil_of_mem_unitsIn
  have hrel := List.Pairwise.forall_of_forall_of_flip (R := fun u v => u.Holds line → v.Holds line → u = v)
    (fun w _ _ _ => rfl)
    (hpairwise.imp fun {a b} hlt ha hb => absurd (Nat.le_trans hb.1 ha.2) (Nat.not_le.2 hlt))
    (hpairwise.imp fun {a b} hlt hb ha => absurd (Nat.le_trans hb.1 ha.2) (Nat.not_le.2 hlt))
  exact hrel hu hv h h'

end Units

end ChunkPlan

/-! ## Blocks and gaps -/

/-- A range of lines, and whether it is a block. -/
structure Extent where
  first : Nat
  last : Nat
  isBlock : Bool
deriving DecidableEq, Repr

namespace Extent

/-- The lines between two others, if there are any. -/
def between (before behind : Nat) : List Extent :=
  if before + 1 < behind then [⟨before + 1, behind - 1, false⟩] else []

/-- Blocks, the gaps before each of them and the gap behind the last one; the lines before them go up to the line
`before`, and `count` is the last line. -/
def ofSpans (count before : Nat) : List Span → List Extent
  | [] => between before (count + 1)
  | s :: ss => between before s.startLine ++ ⟨s.startLine, s.endLine, true⟩ :: ofSpans count s.endLine ss

theorem not_mem_between_block {before behind first last : Nat} : ⟨first, last, true⟩ ∉ between before behind := by
  unfold between
  split
  · simp
  · simp

theorem block_mem_ofSpans {count before first last : Nat} {spans : List Span} :
    ⟨first, last, true⟩ ∈ ofSpans count before spans ↔ ∃ s ∈ spans, s.startLine = first ∧ s.endLine = last := by
  induction spans generalizing before with
  | nil => simp [ofSpans, not_mem_between_block]
  | cons s ss ih =>
    rw [ofSpans, List.mem_append, or_iff_right not_mem_between_block, List.mem_cons, ih]
    simp only [Extent.mk.injEq, and_true, @eq_comm _ first, @eq_comm _ last, List.mem_cons, or_and_right, exists_or,
      exists_eq_left]

end Extent

def ChunkUnit.extent (u : ChunkUnit) : Extent := ⟨u.firstLine, u.lastLine, u.isBlock⟩

namespace ChunkPlan

theorem extent_gap {before : Nat} {rows : List Row} (h : Row.NumberedFrom (before + 1) rows) :
    (if rows.isEmpty then [] else [(⟨rows, false, []⟩ : ChunkUnit)]).map ChunkUnit.extent =
      Extent.between before (before + 1 + rows.length) := by
  unfold Extent.between
  by_cases hempty : rows = []
  · subst hempty
    simp
  · have hfirst := h.firstNumber hempty
    have hlast := h.lastNumber hempty
    have hpos := List.length_pos_iff.2 hempty
    have hsub : before + 1 + rows.length - 1 = Row.lastNumber rows := by omega
    rw [if_neg (by simpa using hempty), if_pos (by omega), hsub, ← hfirst]
    rfl

theorem extent_unitsOf (innerEnds : Nat → Nat → List Nat) {before : Nat} {spans : List Span} {rows : List Row}
    (hrows : Row.NumberedFrom (before + 1) rows) (hspans : Span.Within before (before + rows.length) spans) :
    (unitsOf innerEnds spans rows).map ChunkUnit.extent = Extent.ofSpans (before + rows.length) before spans := by
  induction spans generalizing before rows with
  | nil =>
    have hgap := extent_gap hrows
    rwa [Nat.add_right_comm] at hgap
  | cons s ss ih =>
    obtain ⟨xs, ys, zs, heq, hsplit, ⟨hxs, hstart⟩, ⟨hys, hend⟩, hzs⟩ := exists_unitsOf_cons innerEnds hrows hspans
    obtain ⟨hlo, hse, hss⟩ := hspans
    have hlength : before + rows.length = s.endLine + zs.length := by
      rw [hsplit, List.length_append, List.length_append]
      omega
    have hyne : ys ≠ [] := by
      rintro rfl
      rw [List.length_nil] at hend
      omega
    have hblock : (⟨ys, true, innerEnds s.startLine s.endLine⟩ : ChunkUnit).extent = ⟨s.startLine, s.endLine, true⟩ := by
      have hfirst := hys.firstNumber hyne
      have hlast := hys.lastNumber hyne
      have hlast : Row.lastNumber ys = s.endLine := by omega
      rw [← hlast, ← hfirst]
      rfl
    rw [heq, List.map_append, List.map_cons, extent_gap hxs, ← hstart, hblock, ih hzs (hlength ▸ hss), hlength]
    rfl

/-- The units of a text are its outermost blocks and the gaps between them. -/
theorem extent_unitsIn (text : List Char) :
    (unitsIn text).map ChunkUnit.extent = Extent.ofSpans (pieces text).length 0 (Outline.boundaries text) := by
  obtain ⟨innerEnds, heq⟩ := exists_unitsIn_eq text
  have hlength : (pieces text).length = 0 + (rowsOf (Outline.ofText text).1 text).length := by simp [rowsOf]
  rw [heq, hlength]
  exact extent_unitsOf innerEnds (numberedFrom_rowsOf _ text) (within_rowsOf text)

theorem exists_block_iff {text : List Char} {first last : Nat} :
    (∃ u ∈ unitsIn text, u.isBlock = true ∧ u.firstLine = first ∧ u.lastLine = last) ↔
      ∃ s ∈ Outline.boundaries text, s.startLine = first ∧ s.endLine = last := by
  rw [← Extent.block_mem_ofSpans, ← extent_unitsIn, List.mem_map]
  simp only [ChunkUnit.extent, Extent.mk.injEq]
  refine exists_congr fun u => and_congr_right fun _ => ?_
  rw [and_comm, and_assoc]

/-! ## How deep the lines of a unit lie -/

theorem depth_chunkOf_pos_iff (text : List Char) (i : Nat) (d : ChunkDraft) :
    0 < (chunkOf (Outline.ofText text).1 i d).depth ↔
      ∃ s ∈ Outline.boundaries text, s.startLine < Row.firstNumber d.rows ∧ Row.firstNumber d.rows ≤ s.endLine := by
  unfold Outline.boundaries
  have hdepth : (chunkOf (Outline.ofText text).1 i d).depth =
      ((Outline.ofText text).1.map (·.depthAt (Row.firstNumber d.rows))).getD 0 := rfl
  rw [hdepth]
  cases ho : (Outline.ofText text).1 with
  | none => simp
  | some o =>
    simp only [Option.map_some, Option.getD_some, Outline.depthAt, (Outline.forestWithin_ofText ho).depthAt_pos_iff,
      Outline.spans, List.mem_map, exists_exists_and_eq_and, Block.span, Block.isInside, Bool.and_eq_true,
      decide_eq_true_eq]

/-- A chunk is inside of a block exactly if it begins with a line of a block that is not the block's first. -/
theorem depth_pos_iff (text : List Char) (i : Nat) (d : ChunkDraft) :
    0 < (chunkOf (Outline.ofText text).1 i d).depth ↔ ∃ u ∈ unitsIn text, u.isBlock = true ∧
      u.firstLine < Row.firstNumber d.rows ∧ Row.firstNumber d.rows ≤ u.lastLine := by
  rw [depth_chunkOf_pos_iff]
  constructor
  · rintro ⟨s, hs, hlt, hle⟩
    obtain ⟨u, hu, hblock, hfirst, hlast⟩ := exists_block_iff.2 ⟨s, hs, rfl, rfl⟩
    exact ⟨u, hu, hblock, hfirst ▸ hlt, hlast ▸ hle⟩
  · rintro ⟨u, hu, hblock, hlt, hle⟩
    obtain ⟨s, hs, hfirst, hlast⟩ := exists_block_iff.1 ⟨u, hu, hblock, rfl, rfl⟩
    exact ⟨s, hs, hfirst ▸ hlt, hlast ▸ hle⟩

/-! ## Packing -/

/-- Does a unit have to be cut?  It does when it is too long for a chunk, and in a text without blocks. -/
def mustCut (limits : ChunkLimits) (outline : Option Outline) (unit : ChunkUnit) : Bool :=
  outline.all (·.spans.isEmpty) || decide (limits.maxSize < Row.total unit.rows)

/-- What comes of packing units: the drafts of chunks, and the warnings. -/
inductive Packed (limits : ChunkLimits) (outline : Option Outline) :
    List ChunkUnit → List ChunkDraft → List CutWarning → Prop
  | nil : Packed limits outline [] [] []
  | fill {units rest : List ChunkUnit} {ds : List ChunkDraft} {ws : List CutWarning} (ne_nil : units ≠ [])
      (fits : Row.total (units.flatMap ChunkUnit.rows) ≤ limits.maxSize)
      (full : ∀ u ∈ rest.head?,
        limits.maxSize < Row.total (units.flatMap ChunkUnit.rows) + Row.total u.rows)
      (next : Packed limits outline rest ds ws) :
      Packed limits outline (units ++ rest)
        (⟨units.flatMap ChunkUnit.rows, .wholeBlock, none, false⟩ :: ds) ws
  | cut {u : ChunkUnit} {rest : List ChunkUnit} {ds : List ChunkDraft} {ws : List CutWarning}
      (must : mustCut limits outline u = true) (next : Packed limits outline rest ds ws) :
      Packed limits outline (u :: rest) ((splitUnit limits u).1 ++ ds) ((splitUnit limits u).2 ++ ws)

theorem flatMap_rows_ne_nil {units : List ChunkUnit} (hne : units ≠ []) (hrows : ∀ u ∈ units, u.rows ≠ []) :
    units.flatMap ChunkUnit.rows ≠ [] := by
  obtain ⟨u, us, rfl⟩ := List.exists_cons_of_ne_nil hne
  rw [List.flatMap_cons]
  intro hnil
  exact hrows u List.mem_cons_self (List.append_eq_nil_iff.1 hnil).1

section Pack

variable {limits : ChunkLimits} {outline : Option Outline}

/-- The lines of the chunk that is being filled are those of whole units, and it is finished when the next unit does
not fit. -/
theorem Packed.finish {units rest : List ChunkUnit} {ds : List ChunkDraft} {ws : List CutWarning}
    (hrows : ∀ u ∈ units, u.rows ≠ []) (fits : Row.total (units.flatMap ChunkUnit.rows) ≤ limits.maxSize)
    (full : units ≠ [] → ∀ u ∈ rest.head?,
      limits.maxSize < Row.total (units.flatMap ChunkUnit.rows) + Row.total u.rows)
    (next : Packed limits outline rest ds ws) :
    Packed limits outline (units ++ rest) (whole (units.flatMap ChunkUnit.rows) ++ ds) ws := by
  by_cases hne : units = []
  · subst hne
    exact next
  · have hsome := flatMap_rows_ne_nil hne hrows
    rw [whole, if_neg (by simpa using hsome)]
    exact .fill hne fits (full hne) next

theorem packed_pack (current : List Row) (done : List ChunkUnit) {units : List ChunkUnit}
    (hcurrent : current = done.flatMap ChunkUnit.rows) (hdone : ∀ u ∈ done, u.rows ≠ [])
    (hunits : ∀ u ∈ units, u.rows ≠ []) (fits : Row.total current ≤ limits.maxSize) :
    Packed limits outline (done ++ units) (pack limits current units).1 (pack limits current units).2 := by
  induction units generalizing current done with
  | nil =>
    subst hcurrent
    have h : Packed limits outline (done ++ []) _ _ := Packed.finish hdone fits (by simp) .nil
    rw [List.append_nil (whole _)] at h
    exact h
  | cons unit units ih =>
    obtain ⟨hunit, hunits⟩ := List.forall_mem_cons.1 hunits
    -- when the unit does not fit behind others, the chunk with these is finished
    have hfull (hnot : ¬(!current.isEmpty && decide (Row.total current + Row.total unit.rows ≤ limits.maxSize)) = true)
        (hne : done ≠ []) : ∀ u ∈ (unit :: units).head?,
        limits.maxSize < Row.total (done.flatMap ChunkUnit.rows) + Row.total u.rows := by
      intro u hu
      obtain rfl : unit = u := by simpa using hu
      have hsome := flatMap_rows_ne_nil hne hdone
      rw [← hcurrent] at hsome ⊢
      simpa [hsome] using hnot
    rw [pack]
    dsimp only
    split
    · next hfits =>
      rw [Bool.and_eq_true, decide_eq_true_eq] at hfits
      have hnext := ih (current ++ unit.rows) (done ++ [unit]) (by simp [hcurrent])
        (List.forall_mem_append.2 ⟨hdone, by simpa using hunit⟩) hunits (by rw [Row.total_append]; exact hfits.2)
      rwa [List.append_assoc] at hnext
    · next hnot =>
      split
      · next hfits =>
        have hnext := ih unit.rows [unit] (by simp) (by simpa using hunit) hunits hfits
        subst hcurrent
        exact Packed.finish hdone fits (hfull hnot) hnext
      · next hlong =>
        have hnext := ih [] [] rfl (by simp) hunits (Nat.zero_le _)
        have hmust : mustCut limits outline unit = true := by
          rw [mustCut, decide_eq_true (Nat.lt_of_not_le hlong), Bool.or_true]
        subst hcurrent
        rw [List.append_assoc]
        exact Packed.finish hdone fits (hfull hnot) (Packed.cut hmust hnext)

end Pack

/-- Lines are drafted into chunks by packing their units. -/
theorem packed_drafts (limits : ChunkLimits) (outline : Option Outline) (rows : List Row)
    (hunits : ∀ u ∈ unitsFor outline rows, u.rows ≠ []) :
    Packed limits outline (unitsFor outline rows) (drafts limits outline rows).1 (drafts limits outline rows).2 := by
  -- a text without blocks is one unit, unless it is empty
  have hloose (innerEnds : Nat → Nat → List Nat) (hall : outline.all (·.spans.isEmpty) = true) :
      Packed limits outline (unitsOf innerEnds [] rows) (splitUnit limits ⟨rows, false, []⟩).1
        (splitUnit limits ⟨rows, false, []⟩).2 := by
    unfold unitsOf
    cases rows with
    | nil =>
      have hsplit : splitUnit limits ⟨[], false, []⟩ = ([], []) := by
        simp [splitUnit, Piece.split, draftPieces]
      rw [hsplit]
      exact .nil
    | cons r rs =>
      have hmust : mustCut limits outline ⟨r :: rs, false, []⟩ = true := by
        rw [mustCut, hall, Bool.true_or]
      have h := Packed.cut hmust .nil
      rwa [List.append_nil, List.append_nil] at h
  unfold unitsFor at hunits ⊢
  unfold drafts
  cases outline with
  | none => exact hloose _ rfl
  | some o =>
    dsimp only at hunits ⊢
    split
    · next hempty =>
      rw [List.isEmpty_iff.1 hempty]
      exact hloose _ hempty
    · exact packed_pack [] [] rfl (by simp) hunits (Nat.zero_le _)

/-! ## The plan of a text -/

theorem Holds.exists_numberedFrom {ds : List ChunkDraft} {rows : List Row} (h : Holds ds rows) {first : Nat}
    (hrows : Row.NumberedFrom first rows) {d : ChunkDraft} (hd : d ∈ ds) : ∃ n, Row.NumberedFrom n d.rows := by
  rw [← h.rows_eq] at hrows
  exact hrows.of_mem_flatMap hd

/-- A plan is the units of the text, packed and numbered. -/
theorem exists_packed (limits : ChunkLimits) (text : List Char) : ∃ ds,
    Packed { limits with maxSize := limits.maxSize.max 1 } (Outline.ofText text).1 (unitsIn text) ds
      (ofText limits text).warnings ∧
    Holds ds (rowsOf (Outline.ofText text).1 text) ∧
    (ofText limits text).chunks = number (Outline.ofText text).1 ds :=
  ⟨_, packed_drafts _ _ _ rows_ne_nil_of_mem_unitsIn, holds_drafts _ _ _, rfl⟩

theorem exists_draft_of_mem {outline : Option Outline} {ds : List ChunkDraft} {c : Chunk}
    (hc : c ∈ number outline ds) : ∃ i, ∃ d ∈ ds, c = chunkOf outline i d := by
  rw [number, List.mem_mapIdx] at hc
  obtain ⟨i, hi, rfl⟩ := hc
  exact ⟨i, ds[i], List.getElem_mem hi, rfl⟩

end ChunkPlan

end Pseudoscribe
