import Pseudoscribe.Proofs.Block.Forest
import Pseudoscribe.Proofs.Chunk.SafeCut

/-!
# Seams

Between two units a text is cut wherever an outermost block begins or ends, and nobody asks whether that
is safe: a header or a closer may stand between open brackets, and a closer may be followed by the
beginning of a literal.  So a chunk ends safely or at such a seam, and the plans of a text are safe
exactly when its seams are.
-/

namespace Pseudoscribe

/-! ## Extents in order -/

namespace Span

/-- The extents lie one after the other, behind the line `lo` and up to the line `hi`. -/
def Within (lo hi : Nat) : List Span → Prop
  | [] => lo ≤ hi
  | s :: ss => lo < s.startLine ∧ s.startLine ≤ s.endLine ∧ Within s.endLine hi ss

theorem Within.le {lo hi : Nat} {spans : List Span} (h : Within lo hi spans) : lo ≤ hi := by
  induction spans generalizing lo with
  | nil => exact h
  | cons s ss ih =>
    have hle := ih h.2.2
    have hlt := h.1
    have hse := h.2.1
    omega

theorem within_of_forest {lo hi : Nat} {bs : List Block} (h : Block.ForestWithin lo hi bs) :
    Within lo hi (bs.map Block.span) := by
  induction bs generalizing lo with
  | nil => rwa [Block.ForestWithin] at h
  | cons b bs ih =>
    rw [Block.ForestWithin] at h
    exact ⟨h.1.startLine.1, h.1.startLine.2, ih h.2⟩

/-- The lines before and at the ends of the extents: a text is cut there between two units. -/
def seams (spans : List Span) : List Nat :=
  spans.flatMap fun s => [s.startLine - 1, s.endLine]

theorem mem_seams_cons {s : Span} {ss : List Span} {line : Nat} :
    line ∈ seams (s :: ss) ↔ line = s.startLine - 1 ∨ line = s.endLine ∨ line ∈ seams ss := by
  simp [seams]

theorem Within.le_of_mem_seams {lo hi line : Nat} {spans : List Span} (h : Within lo hi spans)
    (hline : line ∈ seams spans) : lo ≤ line := by
  induction spans generalizing lo with
  | nil => simp [seams] at hline
  | cons s ss ih =>
    obtain ⟨hlo, hse, hss⟩ := h
    rcases mem_seams_cons.1 hline with rfl | rfl | hline
    · omega
    · omega
    · have hle := ih hss hline
      omega

end Span

open Pseudoscribe.Span Text

/-! ## The lines of the units -/

namespace Row

theorem NumberedFrom.takeWhile_lt {first : Nat} {rows : List Row} (h : NumberedFrom first rows)
    (k : Nat) : rows.takeWhile (·.number < k) = rows.take (k - first) := by
  induction rows generalizing first with
  | nil => simp
  | cons r rs ih =>
    obtain ⟨hr, hrs⟩ := numberedFrom_append.1 (show NumberedFrom first ([r] ++ rs) from h)
    have hfirst : r.number = first := hr.head rfl
    by_cases hk : first < k
    · obtain ⟨d, rfl⟩ := Nat.exists_eq_add_of_lt hk
      rw [List.takeWhile_cons_of_pos (by simp only [hfirst, decide_eq_true_eq]; omega), ih hrs,
        show first + d + 1 - first = d + 1 by omega, List.take_succ_cons]
      congr 2
      simp only [List.length_singleton]
      omega
    · rw [List.takeWhile_cons_of_neg (by simp only [hfirst, decide_eq_true_eq]; exact hk),
        show k - first = 0 by omega, List.take_zero]

theorem NumberedFrom.dropWhile_lt {first : Nat} {rows : List Row} (h : NumberedFrom first rows)
    (k : Nat) : rows.dropWhile (·.number < k) = rows.drop (k - first) := by
  have happ := List.takeWhile_append_dropWhile (p := fun r : Row => decide (r.number < k)) (l := rows)
  rw [h.takeWhile_lt k] at happ
  exact List.append_cancel_left (happ.trans (List.take_append_drop (k - first) rows).symm)

theorem NumberedFrom.take {first : Nat} {rows : List Row} (h : NumberedFrom first rows) (k : Nat) :
    NumberedFrom first (rows.take k) :=
  (numberedFrom_append.1 ((List.take_append_drop k rows).symm ▸ h)).1

theorem NumberedFrom.drop {first : Nat} {rows : List Row} (h : NumberedFrom first rows) {k : Nat}
    (hk : k ≤ rows.length) : NumberedFrom (first + k) (rows.drop k) := by
  have hd := (numberedFrom_append.1 ((List.take_append_drop k rows).symm ▸ h)).2
  rwa [List.length_take, Nat.min_eq_left hk] at hd

/-- The last of these lines has this number. -/
def LastIs (rows : List Row) (line : Nat) : Prop := ∃ r, rows.getLast? = some r ∧ r.number = line

theorem NumberedFrom.lastIs_iff {first : Nat} {rows : List Row} (h : NumberedFrom first rows)
    (line : Nat) : LastIs rows line ↔ rows ≠ [] ∧ line + 1 = first + rows.length := by
  unfold LastIs
  cases hlast : rows.getLast? with
  | none => simp [List.getLast?_eq_none_iff.1 hlast]
  | some r =>
    have hne : rows ≠ [] := by
      rintro rfl
      simp at hlast
    have hnum := h.getLast hlast
    simp only [Option.some.injEq, exists_eq_left', ne_eq, hne, not_false_eq_true, true_and]
    omega

end Row

namespace ChunkPlan

/-- The first block takes its own lines, and the lines before it are a unit if there are any. -/
theorem exists_unitsOf_cons (innerEnds : Nat → Nat → List Nat) {before : Nat} {s : Span}
    {ss : List Span} {rows : List Row} (hrows : Row.NumberedFrom (before + 1) rows)
    (hspans : Span.Within before (before + rows.length) (s :: ss)) :
    ∃ xs ys zs, unitsOf innerEnds (s :: ss) rows =
        (if xs.isEmpty then [] else [⟨xs, false, []⟩]) ++
          ⟨ys, true, innerEnds s.startLine s.endLine⟩ :: unitsOf innerEnds ss zs ∧
      rows = xs ++ (ys ++ zs) ∧
      (Row.NumberedFrom (before + 1) xs ∧ s.startLine = before + 1 + xs.length) ∧
      (Row.NumberedFrom s.startLine ys ∧ s.endLine + 1 = s.startLine + ys.length) ∧
      Row.NumberedFrom (s.endLine + 1) zs := by
  obtain ⟨hlo, hse, hss⟩ := hspans
  have hhi := hss.le
  have hbefore := hrows.takeWhile_lt s.startLine
  have hrest := hrows.dropWhile_lt s.startLine
  have hnrest : Row.NumberedFrom s.startLine (rows.dropWhile (·.number < s.startLine)) := by
    have h := hrows.drop (k := s.startLine - (before + 1)) (by omega)
    rwa [← hrest, show before + 1 + (s.startLine - (before + 1)) = s.startLine by omega] at h
  have hlen : (rows.dropWhile (·.number < s.startLine)).length =
      rows.length - (s.startLine - (before + 1)) := by
    rw [hrest, List.length_drop]
  have hle (r : Row) : decide (r.number ≤ s.endLine) = decide (r.number < s.endLine + 1) := by
    simp only [Nat.lt_succ_iff]
  have hinside := hnrest.takeWhile_lt (s.endLine + 1)
  have hbehind := hnrest.dropWhile_lt (s.endLine + 1)
  simp only [← hle] at hinside hbehind
  refine ⟨_, _, _, rfl, ?_, ⟨hbefore ▸ hrows.take _, ?_⟩, ⟨hinside ▸ hnrest.take _, ?_⟩, ?_⟩
  · rw [List.takeWhile_append_dropWhile, List.takeWhile_append_dropWhile]
  · rw [hbefore, List.length_take]
    omega
  · rw [hinside, List.length_take]
    omega
  · have h := hnrest.drop (k := s.endLine + 1 - s.startLine) (by omega)
    rwa [← hbehind, show s.startLine + (s.endLine + 1 - s.startLine) = s.endLine + 1 by omega] at h

/-- The units of a text end where outermost blocks begin and end, and with the last line. -/
theorem exists_unit_lastIs_iff (innerEnds : Nat → Nat → List Nat) {before : Nat} {spans : List Span}
    {rows : List Row} (hrows : Row.NumberedFrom (before + 1) rows)
    (hspans : Span.Within before (before + rows.length) spans) (line : Nat) :
    (∃ u ∈ unitsOf innerEnds spans rows, Row.LastIs u.rows line) ↔
      before < line ∧ (line = before + rows.length ∨ line ∈ seams spans) := by
  induction spans generalizing before rows with
  | nil =>
    have hlast := hrows.lastIs_iff line
    unfold unitsOf
    cases rows with
    | nil =>
      simp only [List.isEmpty_nil, if_true, List.not_mem_nil, false_and, exists_false, seams,
        List.length_nil, List.flatMap_nil, or_false, false_iff]
      omega
    | cons r rs =>
      simp only [List.isEmpty_cons, Bool.false_eq_true, if_false, List.mem_singleton, exists_eq_left,
        hlast, ne_eq, reduceCtorEq, not_false_eq_true, true_and, seams, List.flatMap_nil,
        List.not_mem_nil, or_false, List.length_cons]
      omega
  | cons s ss ih =>
    have hspans' := hspans
    obtain ⟨hlo, hse, hss⟩ := hspans'
    obtain ⟨xs, ys, zs, heq, hrows, ⟨hxs, hstart⟩, ⟨hys, hend⟩, hzs⟩ :=
      exists_unitsOf_cons innerEnds hrows hspans
    have hlen : before + rows.length = s.endLine + zs.length := by
      rw [hrows, List.length_append, List.length_append]
      omega
    have hxlast : (∃ u ∈ (if xs.isEmpty then [] else [(⟨xs, false, []⟩ : ChunkUnit)]),
        Row.LastIs u.rows line) ↔ before < line ∧ line = s.startLine - 1 := by
      have hlast := hxs.lastIs_iff line
      cases xs with
      | nil =>
        simp only [List.isEmpty_nil, if_true, List.not_mem_nil, false_and, exists_false, false_iff]
        rw [List.length_nil] at hstart
        omega
      | cons r rs =>
        simp only [List.isEmpty_cons, Bool.false_eq_true, if_false, List.mem_singleton,
          exists_eq_left, hlast, ne_eq, reduceCtorEq, not_false_eq_true, true_and]
        rw [List.length_cons] at *
        omega
    have hylast : Row.LastIs ys line ↔ line = s.endLine := by
      have hne : ys ≠ [] := by
        rintro rfl
        rw [List.length_nil] at hend
        omega
      rw [hys.lastIs_iff, ← hend]
      simp only [ne_eq, hne, not_false_eq_true, true_and, Nat.add_right_cancel_iff]
    -- a line that ends one of the units behind the block is behind the block, a seam may be its end
    have hseams (h : line ∈ seams ss) : s.endLine ≤ line := hss.le_of_mem_seams h
    have hhi := hss.le
    rw [heq]
    simp only [List.mem_append, List.mem_cons, or_and_right, exists_or, exists_eq_left, hxlast,
      hylast, ih hzs (hlen ▸ hss), mem_seams_cons, hlen] at hhi ⊢
    constructor
    · rintro (⟨hlt, rfl⟩ | rfl | ⟨hlt, rfl | hmem⟩)
      · exact ⟨hlt, .inr (.inl rfl)⟩
      · exact ⟨by omega, .inr (.inr (.inl rfl))⟩
      · exact ⟨by omega, .inl rfl⟩
      · exact ⟨by omega, .inr (.inr (.inr hmem))⟩
    · rintro ⟨hlt, rfl | rfl | rfl | hmem⟩
      · by_cases hz : zs.length = 0
        · exact .inr (.inl (by omega))
        · exact .inr (.inr ⟨by omega, .inl rfl⟩)
      · exact .inl ⟨hlt, rfl⟩
      · exact .inr (.inl rfl)
      · rcases Nat.eq_or_lt_of_le (hseams hmem) with heq | hlt
        · exact .inr (.inl heq.symm)
        · exact .inr (.inr ⟨hlt, .inr hmem⟩)

theorem ne_nil_of_mem_unitsOf (innerEnds : Nat → Nat → List Nat) {before : Nat} {spans : List Span}
    {rows : List Row} (hrows : Row.NumberedFrom (before + 1) rows)
    (hspans : Span.Within before (before + rows.length) spans) :
    ∀ u ∈ unitsOf innerEnds spans rows, u.rows ≠ [] := by
  induction spans generalizing before rows with
  | nil =>
    unfold unitsOf
    split
    · simp
    · next h => simpa using h
  | cons s ss ih =>
    obtain ⟨xs, ys, zs, heq, hsplit, ⟨hxs, hstart⟩, ⟨hys, hend⟩, hzs⟩ :=
      exists_unitsOf_cons innerEnds hrows hspans
    obtain ⟨hlo, hse, hss⟩ := hspans
    have hlen : before + rows.length = s.endLine + zs.length := by
      rw [hsplit, List.length_append, List.length_append]
      omega
    have hyne : ys ≠ [] := by
      rintro rfl
      rw [List.length_nil] at hend
      omega
    rw [heq]
    refine List.forall_mem_append.2 ⟨?_, List.forall_mem_cons.2 ⟨hyne, ih hzs (hlen ▸ hss)⟩⟩
    split
    · simp
    · next h => simpa using h

/-! ## Small chunks -/

theorem total_pos {rows : List Row} (hne : rows ≠ []) (htext : ∀ r ∈ rows, r.text ≠ []) :
    0 < Row.total rows := by
  obtain ⟨r, rs, rfl⟩ := List.exists_cons_of_ne_nil hne
  have hr := List.length_pos_of_ne_nil (htext r List.mem_cons_self)
  rw [Row.total, List.map_cons, total_cons, Row.length]
  omega

theorem Holds.exists_lastIs {ds : List ChunkDraft} {rows : List Row} (h : Holds ds rows) (line : Nat)
    (hline : Row.LastIs rows line) : ∃ d ∈ ds, Row.LastIs d.rows line := by
  obtain ⟨r, hr, rfl⟩ := hline
  induction ds generalizing rows with
  | nil =>
    obtain rfl := h.rows_eq
    simp at hr
  | cons d ds ih =>
    have hds : Holds ds (ds.flatMap ChunkDraft.rows) :=
      ⟨rfl, fun e he => h.ne_nil e (List.mem_cons_of_mem d he)⟩
    rw [← h.rows_eq, List.flatMap_cons, List.getLast?_append] at hr
    cases hlast : (ds.flatMap ChunkDraft.rows).getLast? with
    | none =>
      rw [hlast, Option.none_or] at hr
      exact ⟨d, List.mem_cons_self, r, hr, rfl⟩
    | some s =>
      obtain ⟨e, he, hes⟩ := ih hds (hlast.trans (by rwa [hlast] at hr))
      exact ⟨e, List.mem_cons_of_mem d he, hes⟩

/-- With a limit of one character no two units share a chunk, so that every unit ends a chunk. -/
theorem exists_draft_lastIs {limits : ChunkLimits} (hmax : limits.maxSize = 1) {current : List Row}
    {units : List ChunkUnit} (hcurrent : current ≠ [] → 0 < Row.total current)
    (hunits : ∀ u ∈ units, 0 < Row.total u.rows) {line : Nat}
    (hline : Row.LastIs current line ∨ ∃ u ∈ units, Row.LastIs u.rows line) :
    ∃ d ∈ (pack limits current units).1, Row.LastIs d.rows line := by
  fun_induction pack limits current units with
  | case1 current =>
    refine (holds_whole current).exists_lastIs line ?_
    simpa using hline
  | case2 current unit units size h ih =>
    -- a chunk that has lines is full
    have hpos := hunits unit List.mem_cons_self
    simp only [Bool.and_eq_true, Bool.not_eq_true', List.isEmpty_eq_false_iff, decide_eq_true_eq] at h
    have hcur := hcurrent h.1
    have hfit := h.2
    dsimp only [size] at hfit
    omega
  | case3 current unit units size h1 h2 drafts warnings hp ih =>
    obtain ⟨hunit, hunits⟩ := List.forall_mem_cons.1 hunits
    rw [hp] at ih
    have hwhole := (holds_whole current).exists_lastIs line
    simp only [List.mem_cons, exists_eq_or_imp] at hline
    simp only [List.mem_append, or_and_right, exists_or]
    exact hline.imp hwhole (ih (fun _ => hunit) hunits)
  | case4 current unit units size h1 h2 cut cutWarnings hc drafts warnings hp ih =>
    obtain ⟨hunit, hunits⟩ := List.forall_mem_cons.1 hunits
    rw [hp] at ih
    have hwhole := (holds_whole current).exists_lastIs line
    have hcut := (holds_splitUnit limits unit).exists_lastIs line
    rw [hc] at hcut
    simp only [List.mem_cons, exists_eq_or_imp] at hline
    simp only [List.mem_append, or_and_right, exists_or]
    rcases hline with hline | hline | hline
    · exact .inl (.inl (hwhole hline))
    · exact .inl (.inr (hcut hline))
    · exact .inr (ih (by simp) hunits (.inr hline))

/-! ## Safe plans -/

theorem safe_of_mem_rowsOf {outline : Option Outline} {text : List Char} {r : Row}
    (hr : r ∈ rowsOf outline text) : r.safe = outline.all (·.isSafeAfter r.number) := by
  rw [rowsOf, List.mem_mapIdx] at hr
  obtain ⟨i, hi, rfl⟩ := hr
  rfl

theorem exists_chunk_endLine_iff {limits : ChunkLimits} {text : List Char} {line : Nat} :
    (∃ c ∈ (ofText limits text).chunks, c.endLine = line) ↔
      ∃ d ∈ (drafts { limits with maxSize := limits.maxSize.max 1 } (Outline.ofText text).1
        (rowsOf (Outline.ofText text).1 text)).1, Row.LastIs d.rows line := by
  have hh := holds_drafts { limits with maxSize := limits.maxSize.max 1 } (Outline.ofText text).1
    (rowsOf (Outline.ofText text).1 text)
  simp only [ofText, number, List.mem_mapIdx]
  constructor
  · rintro ⟨c, ⟨i, hi, rfl⟩, rfl⟩
    refine ⟨_, List.getElem_mem hi, ?_⟩
    obtain ⟨t, ht⟩ := Option.ne_none_iff_exists'.1
      (mt List.getLast?_eq_none_iff.1 (hh.ne_nil _ (List.getElem_mem hi)))
    exact ⟨t, ht, by simp [chunkOf, ht]⟩
  · rintro ⟨d, hd, t, ht, rfl⟩
    obtain ⟨i, hi, rfl⟩ := List.getElem_of_mem hd
    exact ⟨_, ⟨i, hi, rfl⟩, by simp [chunkOf, ht]⟩

theorem within_boundaries (text : List Char) :
    Span.Within 0 (pieces text).length (Outline.boundaries text) := by
  unfold Outline.boundaries
  split
  · next o ho =>
    rw [← Outline.lineCount_ofText ho]
    exact within_of_forest (Outline.forestWithin_ofText ho)
  · exact Nat.zero_le _

theorem endIn_drafts (limits : ChunkLimits) (text : List Char) :
    ∀ d ∈ (drafts limits (Outline.ofText text).1 (rowsOf (Outline.ofText text).1 text)).1,
      Row.EndIn (fun r => r.safe = true ∨ r.number ∈ seams (Outline.boundaries text) ∨
        r.number = (pieces text).length) d.rows := by
  have hspans := within_boundaries text
  have hnumbered := numberedFrom_rowsOf (Outline.ofText text).1 text
  have hlen : (rowsOf (Outline.ofText text).1 text).length = (pieces text).length := by simp [rowsOf]
  have hlast : Row.EndIn (fun r => r.safe = true ∨ r.number ∈ seams (Outline.boundaries text) ∨
      r.number = (pieces text).length) (rowsOf (Outline.ofText text).1 text) := by
    intro r hr
    have hnum := hnumbered.getLast hr
    exact .inr (.inr (by omega))
  unfold Outline.boundaries drafts at *
  cases ho : (Outline.ofText text).1 with
  | none =>
    simp only [ho] at hlast ⊢
    exact endIn_splitUnit (fun r hr => .inl hr) hlast
  | some o =>
    simp only [ho] at hlast hspans hnumbered hlen ⊢
    split
    · exact endIn_splitUnit (fun r hr => .inl hr) hlast
    · refine endIn_pack (fun r hr => .inl hr) limits (by simp [Row.EndIn]) fun u hu r hr => ?_
      have hseam := (exists_unit_lastIs_iff o.innerEnds hnumbered
        (by rwa [Nat.zero_add, hlen]) r.number).1 ⟨u, hu, r, hr, rfl⟩
      rw [Nat.zero_add, hlen] at hseam
      exact .inr hseam.2.symm

theorem exists_chunk_of_seam {text : List Char} {line : Nat}
    (hline : line ∈ seams (Outline.boundaries text)) (hpos : 0 < line) :
    ∃ c ∈ (ofText ⟨1, 0⟩ text).chunks, c.endLine = line := by
  have hspans := within_boundaries text
  have hnumbered := numberedFrom_rowsOf (Outline.ofText text).1 text
  have hlen : (rowsOf (Outline.ofText text).1 text).length = (pieces text).length := by simp [rowsOf]
  have htext : ∀ r ∈ rowsOf (Outline.ofText text).1 text, r.text ≠ [] := by
    intro r hr
    refine ne_nil_of_mem_pieces (show r.text ∈ pieces text from ?_)
    rw [← text_rowsOf (Outline.ofText text).1 text]
    exact List.mem_map_of_mem hr
  rw [exists_chunk_endLine_iff]
  unfold Outline.boundaries drafts at *
  cases ho : (Outline.ofText text).1 with
  | none => simp [ho, seams] at hline
  | some o =>
    simp only [ho] at hline hspans hnumbered hlen htext ⊢
    have hne : o.spans.isEmpty = false := by
      cases hs : o.spans with
      | nil => simp [hs, seams] at hline
      | cons => rfl
    have hwithin : Span.Within 0 (0 + (rowsOf (some o) text).length) o.spans := by
      rwa [Nat.zero_add, hlen]
    rw [if_neg (by simp [hne])]
    refine exists_draft_lastIs rfl (fun h => absurd rfl h) (fun u hu => ?_) (.inr ?_)
    · refine total_pos (ne_nil_of_mem_unitsOf o.innerEnds hnumbered hwithin u hu) fun r hr => ?_
      refine htext r ?_
      rw [← rows_unitsOf o.innerEnds o.spans (rowsOf (some o) text)]
      exact List.mem_flatMap.2 ⟨u, hu, hr⟩
    · exact (exists_unit_lastIs_iff o.innerEnds hnumbered hwithin line).2 ⟨hpos, .inr hline⟩

/-- May the text be cut after this line, without cutting a literal or a pair of brackets? -/
def isSafeCut (text : List Char) (line : Nat) : Bool :=
  (Outline.ofText text).1.all (·.isSafeAfter line)

/-- A chunk that is not the last ends safely or at a seam, and the plans of a text end all of these chunks
safely exactly when every seam is safe. -/
theorem ends_safe_iff_seams_safe (text : List Char) :
    (∀ limits, ∀ c ∈ (ofText limits text).chunks.dropLast,
      isSafeCut text c.endLine = true ∨ c.endLine ∈ seams (Outline.boundaries text)) ∧
    ((∀ limits, ∀ c ∈ (ofText limits text).chunks.dropLast, isSafeCut text c.endLine = true) ↔
      ∀ line ∈ seams (Outline.boundaries text), line < (pieces text).length →
        isSafeCut text line = true) := by
  have hends : ∀ limits, ∀ c ∈ (ofText limits text).chunks.dropLast,
      c.endLine < (pieces text).length ∧
        (isSafeCut text c.endLine = true ∨ c.endLine ∈ seams (Outline.boundaries text)) := by
    intro limits c hc
    have hlt := (covers_ofText limits text).endLine_lt c hc
    rw [Nat.zero_add] at hlt
    obtain ⟨d, hd, r, hr, hnum⟩ :=
      exists_chunk_endLine_iff.1 ⟨c, List.dropLast_subset _ hc, rfl⟩
    have hmem := (holds_drafts _ _ _).mem hd (List.mem_of_getLast? hr)
    have hsafe := safe_of_mem_rowsOf hmem
    -- the last line of the text is left to the last chunk
    rcases endIn_drafts _ text d hd r hr with h | h | h
    · exact ⟨hlt, .inl (by rw [isSafeCut, ← hnum, ← hsafe, h])⟩
    · exact ⟨hlt, .inr (hnum ▸ h)⟩
    · omega
  refine ⟨fun limits c hc => (hends limits c hc).2, ?_, ?_⟩
  -- with a limit of one character every seam ends a chunk
  · intro hall line hline hlt
    rcases Nat.eq_zero_or_pos line with rfl | hpos
    · simp [isSafeCut, Outline.isSafeAfter]
    · obtain ⟨c, hc, rfl⟩ := exists_chunk_of_seam hline hpos
      have hcovers := covers_ofText ⟨1, 0⟩ text
      exact hall _ c (hcovers.mem_dropLast hc (by rwa [Nat.zero_add]))
  · intro hseams limits c hc
    obtain ⟨hlt, hsafe | hseam⟩ := hends limits c hc
    · exact hsafe
    · exact hseams _ hseam hlt

/-- A condition inside of a call: the text is cut behind the first line, between the brackets. -/
theorem exists_unsafe_end_in_call :
    ∃ c ∈ (ofText ⟨5, 0⟩ "f(a,\nIF b THEN\nc\nEND IF\n)\n".toList).chunks.dropLast,
      isSafeCut "f(a,\nIF b THEN\nc\nEND IF\n)\n".toList c.endLine = false := by
  decide +kernel

end ChunkPlan

end Pseudoscribe
