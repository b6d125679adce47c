import Pseudoscribe.Proofs.Chunk.Packing

/-!
# Chunks that are too long

A piece takes lines as long as they fit, so that it is too long only if it is one long line or if none of the lines
taken could be cut after.  In the second case it grows to the next line that it may be cut after, which makes it longer
than the limit and gives a warning; so every chunk that is too long has one warning, and no other chunk has any.
-/

namespace Pseudoscribe

open Text

/-- The warning on lines that are too long for a chunk. -/
def Row.tooLong (max : Nat) (rows : List Row) : CutWarning :=
  if firstNumber rows = lastNumber rows then .longLine (firstNumber rows) (total rows) max
  else .noSafePoint (firstNumber rows) (lastNumber rows)

/-- The warnings on the lines of a chunk. -/
def Row.warnings (max : Nat) (rows : List Row) : List CutWarning :=
  if max < total rows then [tooLong max rows] else []

namespace Piece

/-! ## Counting the lines of a piece -/

/-- What holds while lines are taken: they fit, and none of them is safe as long as no safe place was found. -/
structure Taking (max : Nat) (points : CutPoints) (taken : List Row) : Prop where
  sound : Sound points taken
  fits : taken.length ≤ 1 ∨ Row.total taken ≤ max
  safe_none : points.safe = none → ∀ r ∈ taken, r.safe = false

theorem taking_nil (max : Nat) : Taking max {} [] :=
  ⟨⟨by simp, by simp⟩, .inl (Nat.zero_le 1), by simp⟩

theorem Taking.extend {max : Nat} {points : CutPoints} {taken : List Row} (h : Taking max points taken) (row : Row)
    (isPreferred : Bool) (size : Nat) (hfits : taken.length = 0 ∨ Row.total (taken ++ [row]) ≤ max) :
    Taking max (points.extend row isPreferred (taken.length + 1) size) (taken ++ [row]) := by
  refine ⟨h.sound.extend row isPreferred size, ?_, ?_⟩
  · rcases hfits with hfirst | hfits
    · left
      rw [List.length_append, hfirst, List.length_singleton]
    · exact .inr hfits
  · unfold CutPoints.extend
    cases hrow : row.safe with
    | true =>
      rw [if_pos rfl]
      intro hnone
      cases hnone
    | false =>
      rw [if_neg Bool.false_ne_true]
      intro hnone r hr
      rcases List.mem_append.1 hr with hr | hr
      · exact h.safe_none hnone r hr
      · rw [List.mem_singleton.1 hr, hrow]

theorem safe_of_choose {points : CutPoints} {max : Nat} (h : points.choose max = none) : points.safe = none := by
  obtain ⟨preferred, safe⟩ := points
  cases preferred with
  | none => exact h
  | some p =>
    simp only [CutPoints.choose] at h
    split at h
    · cases h
    · cases safe with
      | none => rfl
      | some k => cases h

/-- Beyond the limit a piece takes no line behind a safe one. -/
theorem forcedCount_spec {rows : List Row} (h : rows ≠ []) : 0 < forcedCount rows ∧ forcedCount rows ≤ rows.length ∧
    ∀ r ∈ (rows.take (forcedCount rows)).dropLast, r.safe = false := by
  fun_induction forcedCount rows with
  | case1 => exact absurd rfl h
  | case2 row => exact ⟨Nat.one_pos, Nat.le_refl 1, by simp⟩
  | case3 row rest hne hsafe => exact ⟨Nat.one_pos, by simp, by simp⟩
  | case4 row rest hne hsafe ih =>
    have hrest : rest ≠ [] := fun h => hne (by rw [h])
    obtain ⟨hpos, hle, hall⟩ := ih hrest
    refine ⟨Nat.succ_pos _, by simpa using hle, ?_⟩
    have htake : rest.take (forcedCount rest) ≠ [] := by
      rw [ne_eq, List.take_eq_nil_iff, not_or]
      exact ⟨by omega, hrest⟩
    rw [List.take_succ_cons, List.dropLast_cons_of_ne_nil htake]
    intro r hr
    rcases List.mem_cons.1 hr with rfl | hr
    · exact Bool.eq_false_iff.2 hsafe
    · exact hall r hr

/-- What the first `k` lines of a unit are as a piece: they fit or are one line, unless the piece was forced to grow. -/
structure Counted (max : Nat) (rows : List Row) (k : Nat) (forced : Bool) : Prop where
  fits : forced = false → k ≤ 1 ∨ Row.total (rows.take k) ≤ max
  grown : forced = true → 1 < k ∧ k ≤ rows.length ∧ max < Row.total (rows.take k) ∧
    ∀ r ∈ (rows.take k).dropLast, r.safe = false

theorem Taking.counted {max : Nat} {points : CutPoints} {taken : List Row} (h : Taking max points taken) {k : Nat}
    (hk : k ≤ taken.length) (rest : List Row) : Counted max (taken ++ rest) k false := by
  refine ⟨?_, by simp⟩
  intro _
  rcases h.fits with hone | hfits
  · exact .inl (Nat.le_trans hk hone)
  · right
    have hsplit := Row.total_append (taken.take k) (taken.drop k)
    rw [List.take_append_drop] at hsplit
    rw [List.take_append_of_le_length hk]
    omega

/-- A piece that goes beyond the limit, because a line does not fit and none before it is safe. -/
theorem Taking.forced {max : Nat} {points : CutPoints} {taken : List Row} (h : Taking max points taken) {row : Row}
    (rest : List Row) (hlong : max < Row.total (taken ++ [row])) (hsome : 0 < taken.length)
    (hnone : points.choose max = none) :
    Counted max (taken ++ row :: rest) (taken.length + forcedCount (row :: rest)) true := by
  obtain ⟨hpos, hle, hall⟩ := forcedCount_spec (List.cons_ne_nil row rest)
  have htake : (taken ++ row :: rest).take (taken.length + forcedCount (row :: rest)) =
      taken ++ (row :: rest).take (forcedCount (row :: rest)) := List.take_length_add_append _
  obtain ⟨k, hk⟩ := Nat.exists_eq_add_of_lt hpos
  refine ⟨by simp, fun _ => ⟨by omega, ?_, ?_, ?_⟩⟩
  · rw [List.length_append]
    omega
  · rw [htake, hk, List.take_succ_cons, List.append_cons, Row.total_append]
    omega
  · rw [htake]
    have hne : (row :: rest).take (forcedCount (row :: rest)) ≠ [] := by
      rw [hk, List.take_succ_cons]
      exact List.cons_ne_nil _ _
    rw [List.dropLast_append_of_ne_nil hne]
    intro r hr
    rcases List.mem_append.1 hr with hr | hr
    · exact h.safe_none (safe_of_choose hnone) r hr
    · exact hall r hr

theorem counted_countFrom (max : Nat) (preferred : List Nat) {points : CutPoints} {taken : List Row} (rest : List Row)
    (h : Taking max points taken) :
    Counted max (taken ++ rest) (countFrom max preferred points taken.length (Row.total taken) rest).1
      (countFrom max preferred points taken.length (Row.total taken) rest).2 := by
  induction rest generalizing points taken with
  | nil => exact h.counted (Nat.le_refl _) []
  | cons row rest ih =>
    have htotal : Row.total taken + row.length = Row.total (taken ++ [row]) := by
      rw [Row.total_append]
      rfl
    rw [countFrom, htotal]
    split
    · next hlong =>
      split
      · next k hk => exact h.counted (h.sound.choose hk).1 (row :: rest)
      · next hnone => exact h.forced rest hlong.1 hlong.2 hnone
    · next hshort =>
      have hnext := h.extend row (preferred.contains row.number) (Row.total (taken ++ [row])) (by omega)
      have hrest := ih hnext
      rw [List.length_append, List.length_singleton, List.append_assoc] at hrest
      exact hrest

theorem counted_count (max : Nat) (preferred : List Nat) (rows : List Row) :
    Counted max rows (count max preferred rows).1 (count max preferred rows).2 := by
  have h : Counted max rows (countFrom max preferred {} 0 0 rows).1 (countFrom max preferred {} 0 0 rows).2 :=
    counted_countFrom max preferred rows (taking_nil max)
  have hmax : (count max preferred rows).1 = Max.max (countFrom max preferred {} 0 0 rows).1 1 := rfl
  have hforced : (count max preferred rows).2 = (countFrom max preferred {} 0 0 rows).2 := rfl
  rw [hmax, hforced]
  -- a piece takes one line at least
  rcases Nat.le_total (countFrom max preferred {} 0 0 rows).1 1 with hone | hmany
  · rw [Nat.max_eq_right hone]
    refine ⟨fun _ => .inl (Nat.le_refl 1), fun hf => ?_⟩
    have hgrown := (h.grown hf).1
    omega
  · rwa [Nat.max_eq_left hmany]

/-! ## Pieces and their warnings -/

/-- A piece has a warning exactly if it is too long, and it is too long for one of two causes. -/
structure Warned (max : Nat) (rows : List Row) (ws : List CutWarning) : Prop where
  warnings : ws = Row.warnings max rows
  cause : max < Row.total rows → rows.length = 1 ∨ ∀ r ∈ rows.dropLast, r.safe = false

theorem warnings_eq (max : Nat) (forced : Bool) {rows : List Row} (hne : rows ≠ []) : warnings max forced rows =
    (if forced then [.noSafePoint (Row.firstNumber rows) (Row.lastNumber rows)] else []) ++
      (if rows.length = 1 ∧ max < Row.total rows then
        [.longLine (Row.firstNumber rows) (Row.total rows) max] else []) := by
  obtain ⟨r, rs, rfl⟩ := List.exists_cons_of_ne_nil hne
  have hlast : Row.lastNumber (r :: rs) = (rs.getLast?.getD r).number := by
    rw [Row.lastNumber, List.getLast?_cons, Option.map_some, Option.getD_some]
  rw [hlast]
  cases rs with
  | nil => simp [warnings, Row.firstNumber, Row.total]
  | cons s ss => simp [warnings, Row.firstNumber]

theorem warned_of_counted {max first : Nat} {rows : List Row} {k : Nat} {forced : Bool} (h : Counted max rows k forced)
    (hnumbered : Row.NumberedFrom first rows) (hne : rows.take k ≠ []) :
    Warned max (rows.take k) (warnings max forced (rows.take k)) := by
  have hsingle := (hnumbered.take k).firstNumber_eq_lastNumber hne
  have hpos := List.length_pos_iff.2 hne
  have hlength : (rows.take k).length = min k rows.length := List.length_take
  cases forced with
  | false =>
    have hfits : (rows.take k).length = 1 ∨ Row.total (rows.take k) ≤ max :=
      (h.fits rfl).imp (fun hone => by omega) id
    refine ⟨?_, fun hlong => .inl (hfits.resolve_right (Nat.not_le.2 hlong))⟩
    rw [warnings_eq max false hne, if_neg Bool.false_ne_true, List.nil_append, Row.warnings, Row.tooLong]
    by_cases hlong : max < Row.total (rows.take k)
    · have hone := hfits.resolve_right (Nat.not_le.2 hlong)
      rw [if_pos ⟨hone, hlong⟩, if_pos hlong, if_pos (hsingle.2 hone)]
    · rw [if_neg fun hboth => hlong hboth.2, if_neg hlong]
  | true =>
    obtain ⟨hmany, hle, hlong, hall⟩ := h.grown rfl
    have hone : (rows.take k).length ≠ 1 := by omega
    refine ⟨?_, fun _ => .inr hall⟩
    rw [warnings_eq max true hne, if_pos rfl, if_neg fun hboth => hone hboth.1, List.append_nil, Row.warnings,
      if_pos hlong, Row.tooLong, if_neg (mt hsingle.1 hone)]

theorem warned_of_mem_split {max : Nat} {preferred : List Nat} {rows : List Row}
    (hnumbered : ∃ first, Row.NumberedFrom first rows) {p : List Row × List CutWarning} (h : p ∈ split max preferred rows) :
    Warned max p.1 p.2 := by
  fun_induction split max preferred rows with
  | case1 => simp at h
  | case2 row rest c piece ih =>
    obtain ⟨first, hnumbered⟩ := hnumbered
    rcases List.mem_cons.1 h with rfl | h
    · have hne : (row :: rest).take c.1 ≠ [] := by
        rw [ne_eq, List.take_eq_nil_iff, not_or]
        exact ⟨Nat.ne_of_gt (count_pos max preferred (row :: rest)), List.cons_ne_nil row rest⟩
      exact warned_of_counted (counted_count max preferred (row :: rest)) hnumbered hne
    · by_cases hle : c.1 ≤ (row :: rest).length
      · exact ih ⟨_, hnumbered.drop hle⟩ h
      · rw [List.drop_eq_nil_of_le (by omega), split] at h
        cases h

end Piece

/-- The warning on a chunk that is too long: it names the lines of the chunk. -/
def Chunk.tooLong (max : Nat) (c : Chunk) : CutWarning :=
  if c.startLine = c.endLine then .longLine c.startLine c.length max else .noSafePoint c.startLine c.endLine

namespace ChunkPlan

/-! ## Drafts and their warnings -/

/-- What is known of the lines of a chunk; those of whole units are not too long. -/
structure Bounded (max : Nat) (d : ChunkDraft) : Prop where
  cause : max < Row.total d.rows → d.rows.length = 1 ∨ ∀ r ∈ d.rows.dropLast, r.safe = false
  whole : d.kind = .wholeBlock → Row.total d.rows ≤ max

/-- The warnings are those on the drafts, in order. -/
structure Accurate (max : Nat) (ds : List ChunkDraft) (ws : List CutWarning) : Prop where
  warnings : ws = ds.flatMap fun d => Row.warnings max d.rows
  bounded : ∀ d ∈ ds, Bounded max d

theorem Accurate.append {max : Nat} {ds es : List ChunkDraft} {vs ws : List CutWarning} (hd : Accurate max ds vs)
    (he : Accurate max es ws) : Accurate max (ds ++ es) (vs ++ ws) where
  warnings := by rw [hd.warnings, he.warnings, List.flatMap_append]
  bounded := List.forall_mem_append.2 ⟨hd.bounded, he.bounded⟩

theorem kind_of_mem_draftPieces {overlap : Nat} {kind : ChunkKind} {previous : Option (List Row)}
    {pieces : List (List Row)} {d : ChunkDraft} (hd : d ∈ draftPieces overlap kind previous pieces) :
    d.kind = kind := by
  induction pieces generalizing previous with
  | nil => cases hd
  | cons p ps ih =>
    rw [draftPieces] at hd
    rcases List.mem_cons.1 hd with rfl | hd
    · rfl
    · exact ih hd

theorem kind_of_mem_splitUnit {limits : ChunkLimits} {unit : ChunkUnit} {d : ChunkDraft}
    (hd : d ∈ (splitUnit limits unit).1) :
    d.kind = if unit.isBlock then .partialBlock else .leftoverFragment :=
  kind_of_mem_draftPieces hd

theorem accurate_splitUnit {limits : ChunkLimits} {unit : ChunkUnit}
    (hnumbered : ∃ first, Row.NumberedFrom first unit.rows) :
    Accurate limits.maxSize (splitUnit limits unit).1 (splitUnit limits unit).2 := by
  refine ⟨?_, ?_⟩
  · have hrows := rows_splitUnit limits unit
    have hdrafts : (splitUnit limits unit).1.flatMap (fun d => Row.warnings limits.maxSize d.rows) =
        ((splitUnit limits unit).1.map ChunkDraft.rows).flatMap (Row.warnings limits.maxSize) := by
      rw [List.flatMap_map]
    rw [hdrafts, hrows, List.flatMap_map, splitUnit]
    apply List.flatMap_congr
    intro p hp
    exact (Piece.warned_of_mem_split hnumbered hp).warnings
  · intro d hd
    obtain ⟨p, hp, hpd⟩ := exists_piece_of_mem_splitUnit hd
    refine ⟨hpd ▸ (Piece.warned_of_mem_split hnumbered hp).cause, ?_⟩
    rw [kind_of_mem_splitUnit hd]
    intro hkind
    split at hkind
    · cases hkind
    · cases hkind

/-- Packing gives a warning on each chunk that is too long. -/
theorem Packed.accurate {limits : ChunkLimits} {outline : Option Outline} {units : List ChunkUnit}
    {ds : List ChunkDraft} {ws : List CutWarning} (h : Packed limits outline units ds ws)
    (hnumbered : ∃ first, Row.NumberedFrom first (units.flatMap ChunkUnit.rows)) :
    Accurate limits.maxSize ds ws := by
  obtain ⟨first, hnumbered⟩ := hnumbered
  induction h generalizing first with
  | nil => exact ⟨rfl, by simp⟩
  | @fill units rest ds ws ne_nil fits full next ih =>
    rw [List.flatMap_append] at hnumbered
    have hrest := ih _ (Row.numberedFrom_append.1 hnumbered).2
    have hfirst : Accurate limits.maxSize [⟨units.flatMap ChunkUnit.rows, .wholeBlock, none, false⟩] [] := by
      refine ⟨?_, ?_⟩
      · rw [List.flatMap_singleton, Row.warnings, if_neg (Nat.not_lt.2 fits)]
      · intro d hd
        rw [List.mem_singleton.1 hd]
        exact ⟨fun hlong => absurd fits (Nat.not_le.2 hlong), fun _ => fits⟩
    exact hfirst.append hrest
  | @cut u rest ds ws must next ih =>
    rw [List.flatMap_cons] at hnumbered
    obtain ⟨hunit, hrest⟩ := Row.numberedFrom_append.1 hnumbered
    exact (accurate_splitUnit ⟨_, hunit⟩).append (ih _ hrest)

/-! ## Chunks and their warnings -/

theorem map_filter_mapIdx {α : Type} (make : Nat → ChunkDraft → Chunk) (p : Chunk → Bool) (f : Chunk → α)
    (g : ChunkDraft → List α) {ds : List ChunkDraft}
    (h : ∀ i, ∀ d ∈ ds, g d = if p (make i d) then [f (make i d)] else []) :
    ((ds.mapIdx make).filter p).map f = ds.flatMap g := by
  induction ds generalizing make with
  | nil => rfl
  | cons d ds ih =>
    have hrest := ih (fun i => make (i + 1)) fun i e he => h (i + 1) e (List.mem_cons_of_mem d he)
    rw [List.mapIdx_cons, List.flatMap_cons, h 0 d List.mem_cons_self, ← hrest, List.filter_cons]
    split
    · rfl
    · rfl

/-- The chunks of a text keep to the limit, but for those that have a warning. -/
structure Limited (text : List Char) (max : Nat) (plan : ChunkPlan) : Prop where
  warnings : plan.warnings = (plan.chunks.filter (max < ·.length)).map (Chunk.tooLong max)
  /-- a chunk that is too long is one line, or cannot be cut after any of its lines but the last -/
  cause : ∀ c ∈ plan.chunks, max < c.length → c.startLine = c.endLine ∨
    ∀ line, c.startLine ≤ line → line < c.endLine → isSafeCut text line = false
  whole : ∀ c ∈ plan.chunks, c.kind = .wholeBlock → c.length ≤ max

theorem length_chunkOf (outline : Option Outline) (i : Nat) (d : ChunkDraft) :
    (chunkOf outline i d).length = Row.total d.rows := by
  rw [Chunk.length, chunkOf, ← String.length_toList, String.toList_ofList, Row.length_join]

/-- The warnings on a text are those on the chunks that are too long, one on each and in their order. -/
theorem limited_ofText (limits : ChunkLimits) (text : List Char) :
    Limited text (limits.maxSize.max 1) (ofText limits text) := by
  obtain ⟨ds, hpacked, hholds, hchunks⟩ := exists_packed limits text
  have haccurate := hpacked.accurate ⟨1, numberedFrom_unitsIn text⟩
  refine ⟨?_, ?_, ?_⟩
  · rw [hchunks, haccurate.warnings]
    refine (map_filter_mapIdx _ _ _ _ fun i d _ => ?_).symm
    rw [Row.warnings, Chunk.tooLong, length_chunkOf]
    simp only [decide_eq_true_eq]
    rfl
  · rw [hchunks]
    intro c hc hlong
    obtain ⟨i, d, hd, rfl⟩ := exists_draft_of_mem hc
    obtain ⟨n, hrows⟩ := hholds.exists_numberedFrom (numberedFrom_rowsOf _ text) hd
    rw [length_chunkOf] at hlong
    rcases (haccurate.bounded d hd).cause hlong with hone | hall
    · exact .inl ((hrows.firstNumber_eq_lastNumber (hholds.ne_nil d hd)).2 hone)
    · right
      intro line hfirst hlast
      obtain ⟨r, hr, rfl⟩ := hrows.exists_mem_dropLast (hholds.ne_nil d hd) hfirst hlast
      have hsafe := safe_of_mem_rowsOf (hholds.mem hd (List.dropLast_subset _ hr))
      rw [isSafeCut, ← hsafe]
      exact hall r hr
  · rw [hchunks]
    intro c hc hkind
    obtain ⟨i, d, hd, rfl⟩ := exists_draft_of_mem hc
    rw [length_chunkOf]
    exact (haccurate.bounded d hd).whole hkind

end ChunkPlan

end Pseudoscribe
