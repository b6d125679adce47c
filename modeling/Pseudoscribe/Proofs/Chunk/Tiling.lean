import Mathlib.Data.List.Chain
import Pseudoscribe.Chunk.Plan

/-!
# The chunks of a plan tile the text

Cutting a unit, packing units and numbering the chunks each keep the lines they are given, in order and
without a gap.  A plan is therefore a tiling of its text: the chunks are consecutive ranges of whole lines
from the first line to the last, and their texts join up to the text.
-/

namespace Pseudoscribe

open Text

/-! ## Numbered lines -/

/-- The lines are numbered one after the other, beginning with `first`. -/
def Row.NumberedFrom (first : Nat) (rows : List Row) : Prop :=
  rows.map Row.number = List.range' first rows.length

namespace Row

theorem numberedFrom_append {first : Nat} {xs ys : List Row} :
    NumberedFrom first (xs ++ ys) ↔
      NumberedFrom first xs ∧ NumberedFrom (first + xs.length) ys := by
  unfold NumberedFrom
  rw [List.map_append, List.length_append, ← List.range'_append, Nat.one_mul]
  constructor
  · intro h
    exact List.append_inj h (by simp)
  · rintro ⟨hx, hy⟩
    rw [hx, hy]

theorem NumberedFrom.head {first : Nat} {rows : List Row} (h : NumberedFrom first rows)
    {r : Row} (hr : rows.head? = some r) : r.number = first := by
  cases rows with
  | nil => simp at hr
  | cons x xs =>
    obtain rfl : x = r := by simpa using hr
    simp only [NumberedFrom, List.map_cons, List.length_cons, List.range'_succ] at h
    exact (List.cons.inj h).1

theorem NumberedFrom.getLast {first : Nat} {rows : List Row} (h : NumberedFrom first rows)
    {r : Row} (hr : rows.getLast? = some r) : r.number + 1 = first + rows.length := by
  obtain ⟨xs, rfl⟩ := List.getLast?_eq_some_iff.1 hr
  have h1 := (numberedFrom_append.1 h).2
  simp only [NumberedFrom, List.map_cons, List.map_nil, List.length_cons, List.length_nil,
    List.range'_succ, List.range'_zero, List.cons.injEq, and_true] at h1
  rw [List.length_append, List.length_singleton, h1]
  omega

@[simp]
theorem join_append (xs ys : List Row) : join (xs ++ ys) = join xs ++ join ys := by
  simp [join]

end Row

/-! ## Pieces of a unit -/

namespace Piece

theorem flatMap_split (max : Nat) (preferred : List Nat) (rows : List Row) :
    (split max preferred rows).flatMap Prod.fst = rows := by
  fun_induction split max preferred rows with
  | case1 => rfl
  | case2 row rest c piece ih =>
    rw [List.flatMap_cons, ih]
    exact List.take_append_drop _ _

theorem ne_nil_of_mem_split {max : Nat} {preferred : List Nat} {rows : List Row}
    {p : List Row × List CutWarning} (h : p ∈ split max preferred rows) : p.1 ≠ [] := by
  fun_induction split max preferred rows with
  | case1 => simp at h
  | case2 row rest c piece ih =>
    rcases List.mem_cons.1 h with rfl | h
    · obtain ⟨k, hk⟩ := Nat.exists_eq_add_of_lt (count_pos max preferred (row :: rest))
      simp [piece, c, hk]
    · exact ih h

end Piece

/-! ## Drafts -/

namespace ChunkPlan

theorem rows_draftPieces (overlap : Nat) (kind : ChunkKind) (previous : Option (List Row))
    (pieces : List (List Row)) :
    (draftPieces overlap kind previous pieces).map ChunkDraft.rows = pieces := by
  induction pieces generalizing previous with
  | nil => rfl
  | cons p ps ih => rw [draftPieces, List.map_cons, ih]

/-- The drafts hold these lines, in order, and none of them is empty. -/
structure Holds (drafts : List ChunkDraft) (rows : List Row) : Prop where
  rows_eq : drafts.flatMap ChunkDraft.rows = rows
  ne_nil : ∀ d ∈ drafts, d.rows ≠ []

theorem Holds.append {ds es : List ChunkDraft} {xs ys : List Row} (hd : Holds ds xs)
    (he : Holds es ys) : Holds (ds ++ es) (xs ++ ys) where
  rows_eq := by rw [List.flatMap_append, hd.rows_eq, he.rows_eq]
  ne_nil := by
    intro d h
    rcases List.mem_append.1 h with h | h
    · exact hd.ne_nil d h
    · exact he.ne_nil d h

theorem Holds.mem {ds : List ChunkDraft} {rows : List Row} (h : Holds ds rows) {d : ChunkDraft}
    (hd : d ∈ ds) {r : Row} (hr : r ∈ d.rows) : r ∈ rows := by
  rw [← h.rows_eq]
  exact List.mem_flatMap.2 ⟨d, hd, hr⟩

theorem holds_whole (rows : List Row) : Holds (whole rows) rows := by
  unfold whole
  split
  · next h => exact ⟨by simpa using h.symm, by simp⟩
  · next h => exact ⟨by simp, by simpa using h⟩

theorem rows_splitUnit (limits : ChunkLimits) (unit : ChunkUnit) :
    (splitUnit limits unit).1.map ChunkDraft.rows =
      (Piece.split limits.maxSize unit.preferred unit.rows).map Prod.fst :=
  rows_draftPieces _ _ _ _

theorem exists_piece_of_mem_splitUnit {limits : ChunkLimits} {unit : ChunkUnit} {d : ChunkDraft}
    (hd : d ∈ (splitUnit limits unit).1) :
    ∃ p ∈ Piece.split limits.maxSize unit.preferred unit.rows, p.1 = d.rows := by
  have hmem := List.mem_map_of_mem (f := ChunkDraft.rows) hd
  rw [rows_splitUnit] at hmem
  exact List.mem_map.1 hmem

theorem holds_splitUnit (limits : ChunkLimits) (unit : ChunkUnit) :
    Holds (splitUnit limits unit).1 unit.rows := by
  refine ⟨?_, ?_⟩
  · rw [List.flatMap_def, rows_splitUnit, ← List.flatMap_def, Piece.flatMap_split]
  · intro d hd
    obtain ⟨p, hp, hpd⟩ := exists_piece_of_mem_splitUnit hd
    exact hpd ▸ Piece.ne_nil_of_mem_split hp

theorem holds_pack (limits : ChunkLimits) (current : List Row) (units : List ChunkUnit) :
    Holds (pack limits current units).1 (current ++ units.flatMap ChunkUnit.rows) := by
  fun_induction pack limits current units with
  | case1 current => simpa using holds_whole current
  | case2 current unit units size h ih => simpa using ih
  | case3 current unit units size h1 h2 drafts warnings hp ih =>
    rw [hp] at ih
    exact (holds_whole current).append ih
  | case4 current unit units size h1 h2 cut cutWarnings hc drafts warnings hp ih =>
    rw [hp] at ih
    have hcut := holds_splitUnit limits unit
    rw [hc] at hcut
    simpa using (holds_whole current).append (hcut.append ih)

theorem rows_unitsOf (innerEnds : Nat → Nat → List Nat) (spans : List Span) (rows : List Row) :
    (unitsOf innerEnds spans rows).flatMap ChunkUnit.rows = rows := by
  induction spans generalizing rows with
  | nil =>
    unfold unitsOf
    split
    · next h => simpa using h.symm
    · simp
  | cons span spans ih =>
    have hbefore (rows : List Row) :
        (if rows.isEmpty then [] else [(⟨rows, false, []⟩ : ChunkUnit)]).flatMap ChunkUnit.rows =
          rows := by
      split
      · next h => simpa using h.symm
      · simp
    rw [unitsOf, List.flatMap_append, List.flatMap_cons, ih, hbefore,
      List.takeWhile_append_dropWhile, List.takeWhile_append_dropWhile]

theorem holds_drafts (limits : ChunkLimits) (outline : Option Outline) (rows : List Row) :
    Holds (drafts limits outline rows).1 rows := by
  unfold drafts
  split
  · next o =>
    split
    · exact holds_splitUnit limits ⟨rows, false, []⟩
    · simpa [rows_unitsOf] using holds_pack limits [] (unitsOf o.innerEnds o.spans rows)
  · exact holds_splitUnit limits ⟨rows, false, []⟩

end ChunkPlan

/-! ## The lines of a text -/

namespace ChunkPlan

theorem text_rowsOf (outline : Option Outline) (text : List Char) :
    (rowsOf outline text).map Row.text = pieces text := by
  refine List.ext_getElem (by simp [rowsOf]) fun i h1 h2 => ?_
  simp [rowsOf]

theorem numberedFrom_rowsOf (outline : Option Outline) (text : List Char) :
    Row.NumberedFrom 1 (rowsOf outline text) := by
  unfold Row.NumberedFrom rowsOf
  refine List.ext_getElem (by simp) fun i h1 h2 => ?_
  simp [Nat.add_comm]

/-! ## Covering -/

/-- The chunks are consecutive ranges of these lines, of which the first has the number `before + 1`. -/
inductive Covers : Nat → List (List Char) → List Chunk → Prop
  | nil (before : Nat) : Covers before [] []
  | cons {before : Nat} {lines rest : List (List Char)} {c : Chunk} {cs : List Chunk}
      (ne_nil : lines ≠ []) (text_eq : c.text.toList = lines.flatten)
      (start_eq : c.startLine = before + 1) (end_eq : c.endLine = before + lines.length)
      (next : Covers c.endLine rest cs) : Covers before (lines ++ rest) (c :: cs)

theorem covers_chunkOf (outline : Option Outline) (index : Nat → Nat) {before : Nat}
    {ds : List ChunkDraft} {rows : List Row} (h : Holds ds rows)
    (hn : Row.NumberedFrom (before + 1) rows) :
    Covers before (rows.map Row.text) (ds.mapIdx fun i d => chunkOf outline (index i) d) := by
  induction ds generalizing before rows index with
  | nil =>
    obtain rfl : rows = [] := h.rows_eq.symm
    exact .nil before
  | cons d ds ih =>
    obtain rfl : d.rows ++ ds.flatMap ChunkDraft.rows = rows := h.rows_eq
    -- the lines behind the first draft are numbered on from its last line
    obtain ⟨hd, hds⟩ := Row.numberedFrom_append.1 hn
    have hne : d.rows ≠ [] := h.ne_nil d List.mem_cons_self
    obtain ⟨r, hr⟩ := Option.ne_none_iff_exists'.1 (mt List.head?_eq_none_iff.1 hne)
    obtain ⟨t, ht⟩ := Option.ne_none_iff_exists'.1 (mt List.getLast?_eq_none_iff.1 hne)
    have hfirst := hd.head hr
    have hlast := hd.getLast ht
    have hend : (chunkOf outline (index 0) d).endLine = before + d.rows.length := by
      simp only [chunkOf, ht, Option.map_some, Option.getD_some]
      omega
    rw [List.mapIdx_cons, List.map_append]
    refine .cons (by simpa using hne) ?_ ?_ (by simpa using hend) ?_
    · simp [chunkOf, Row.join]
    · simp [chunkOf, hr, hfirst]
    · refine ih (fun i => index (i + 1)) ⟨rfl, fun e he => h.ne_nil e (List.mem_cons_of_mem d he)⟩ ?_
      rw [hend, Nat.add_right_comm]
      exact hds

/-- The chunks of a plan cover the lines of the text. -/
theorem covers_ofText (limits : ChunkLimits) (text : List Char) :
    Covers 0 (pieces text) (ofText limits text).chunks := by
  rw [← text_rowsOf (Outline.ofText text).1 text]
  exact covers_chunkOf _ id (holds_drafts _ _ _) (numberedFrom_rowsOf _ text)

namespace Covers

variable {before : Nat} {lines : List (List Char)} {chunks : List Chunk}

theorem texts (h : Covers before lines chunks) :
    chunks.flatMap (fun c => c.text.toList) = lines.flatten := by
  induction h with
  | nil => rfl
  | cons _ text_eq _ _ _ ih => rw [List.flatMap_cons, text_eq, ih, List.flatten_append]

theorem eq_nil_iff (h : Covers before lines chunks) : chunks = [] ↔ lines = [] := by
  cases h with
  | nil => simp
  | cons ne_nil => simp [ne_nil]

theorem startLine (h : Covers before lines chunks) {c : Chunk} (hc : chunks.head? = some c) :
    c.startLine = before + 1 := by
  cases h with
  | nil => simp at hc
  | cons _ _ start_eq =>
    obtain rfl := Option.some.inj hc
    exact start_eq

theorem endLine (h : Covers before lines chunks) {c : Chunk} (hc : chunks.getLast? = some c) :
    c.endLine = before + lines.length := by
  induction h with
  | nil => simp at hc
  | @cons before lines rest d ds _ _ _ end_eq next ih =>
    rw [List.length_append, ← Nat.add_assoc, ← end_eq]
    -- the last chunk has no lines behind it, any other is followed by the last one
    cases ds with
    | nil =>
      obtain rfl : d = c := by simpa using hc
      rw [next.eq_nil_iff.1 rfl, List.length_nil, Nat.add_zero]
    | cons e es => exact ih (by rwa [List.getLast?_cons_cons] at hc)

theorem mem_dropLast (h : Covers before lines chunks) {c : Chunk} (hc : c ∈ chunks)
    (hlt : c.endLine < before + lines.length) : c ∈ chunks.dropLast := by
  have hne : chunks ≠ [] := List.ne_nil_of_mem hc
  rw [← List.dropLast_concat_getLast hne] at hc
  rcases List.mem_append.1 hc with hc | hc
  · exact hc
  · have hlast := h.endLine (List.getLast?_eq_some_getLast hne)
    rw [List.mem_singleton.1 hc] at hlt
    omega

theorem endLine_lt (h : Covers before lines chunks) :
    ∀ c ∈ chunks.dropLast, c.endLine < before + lines.length := by
  induction h with
  | nil => simp
  | @cons before lines rest d ds _ _ _ end_eq next ih =>
    cases ds with
    | nil => simp
    | cons e es =>
      have hrest : 0 < rest.length :=
        List.length_pos_of_ne_nil fun hnil => nomatch next.eq_nil_iff.2 hnil
      rw [List.dropLast_cons_cons, List.length_append]
      refine List.forall_mem_cons.2 ⟨by omega, fun c hc => ?_⟩
      have hlt := ih c hc
      omega

theorem ordered (h : Covers before lines chunks) : ∀ c ∈ chunks, c.startLine ≤ c.endLine := by
  induction h with
  | nil => simp
  | cons ne_nil _ start_eq end_eq _ ih =>
    have hpos := List.length_pos_of_ne_nil ne_nil
    refine List.forall_mem_cons.2 ⟨?_, ih⟩
    omega

theorem next (h : Covers before lines chunks) :
    chunks.IsChain fun c d => d.startLine = c.endLine + 1 := by
  induction h with
  | nil => exact .nil
  | cons _ _ _ _ next ih => exact .cons ih fun d hd => next.startLine hd

theorem lines_eq (h : Covers before lines chunks) : ∀ c ∈ chunks, before < c.startLine ∧
    c.text.toList =
      ((lines.take (c.endLine - before)).drop (c.startLine - 1 - before)).flatten := by
  induction h with
  | nil => simp
  | @cons before lines rest d ds _ text_eq start_eq end_eq next ih =>
    refine List.forall_mem_cons.2 ⟨⟨by omega, ?_⟩, fun c hc => ?_⟩
    · have h1 : d.endLine - before = lines.length := by omega
      have h2 : d.startLine - 1 - before = 0 := by omega
      rw [text_eq, h1, h2, List.take_left, List.drop_zero]
    · obtain ⟨hlt, htext⟩ := ih c hc
      have hle := next.ordered c hc
      refine ⟨by omega, ?_⟩
      have h1 : c.endLine - before = lines.length + (c.endLine - d.endLine) := by omega
      have h2 : c.startLine - 1 - before = lines.length + (c.startLine - 1 - d.endLine) := by omega
      rw [htext, h1, h2, List.take_length_add_append, List.drop_length_add_append]

end Covers

/-! ## Tiling -/

/-- The chunks tile the text: whole lines, in order, from the first to the last, and nothing else. -/
structure Tiles (text : List Char) (chunks : List Chunk) : Prop where
  texts : chunks.flatMap (fun c => c.text.toList) = text
  lines : ∀ c ∈ chunks,
    c.text.toList = (((pieces text).take c.endLine).drop (c.startLine - 1)).flatten
  indices : chunks.map Chunk.index = List.range chunks.length
  ordered : ∀ c ∈ chunks, c.startLine ≤ c.endLine
  first : ∀ c, chunks.head? = some c → c.startLine = 1
  next : chunks.IsChain fun c d => d.startLine = c.endLine + 1
  last : ∀ c, chunks.getLast? = some c → c.endLine = (pieces text).length
  empty : chunks = [] ↔ text = []

theorem index_ofText (limits : ChunkLimits) (text : List Char) :
    (ofText limits text).chunks.map Chunk.index =
      List.range (ofText limits text).chunks.length := by
  refine List.ext_getElem (by simp) fun i h1 h2 => ?_
  simp [ofText, number, chunkOf]

/-- Whatever the text and the limits, the chunks of a plan tile the text. -/
theorem tiles_ofText (limits : ChunkLimits) (text : List Char) :
    Tiles text (ofText limits text).chunks := by
  have h := covers_ofText limits text
  refine ⟨?_, fun c hc => (h.lines_eq c hc).2, index_ofText limits text, h.ordered,
    fun c => h.startLine, h.next, fun c hc => ?_, ?_⟩
  · rw [h.texts, flatten_pieces]
  · rw [h.endLine hc, Nat.zero_add]
  · rw [h.eq_nil_iff]
    constructor
    · intro hp
      rw [← flatten_pieces text, hp, List.flatten_nil]
    · rintro rfl
      rfl

end ChunkPlan

end Pseudoscribe
