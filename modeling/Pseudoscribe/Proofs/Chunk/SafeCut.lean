import Pseudoscribe.Proofs.Chunk.Tiling

/-!
# Cuts inside of a unit are safe

A unit that is too long is cut after safe lines only.  The places at which a piece may end are noted
together with the lines taken so far, and each of them is a safe one; when a piece has to grow beyond the
limit, it grows to a safe line or to the end of the unit.  So a chunk ends with a safe line or with the
last line of a unit.
-/

namespace Pseudoscribe

/-! ## Cuts inside of a unit -/

/-- The lines end with one for which `ok` holds, unless there are none. -/
def Row.EndIn (ok : Row → Prop) (rows : List Row) : Prop :=
  ∀ r, rows.getLast? = some r → ok r

namespace Piece

/-- Some of these lines, the first `k`, end with a safe one. -/
def SafeAt (rows : List Row) (k : Nat) : Prop :=
  k ≤ rows.length ∧ ∃ r, (rows.take k).getLast? = some r ∧ r.safe = true

theorem SafeAt.append {rows : List Row} {k : Nat} (h : SafeAt rows k) (more : List Row) :
    SafeAt (rows ++ more) k := by
  obtain ⟨hk, hr⟩ := h
  refine ⟨?_, ?_⟩
  · rw [List.length_append]
    omega
  · rwa [List.take_append_of_le_length hk]

theorem SafeAt.pos {rows : List Row} {k : Nat} (h : SafeAt rows k) : 0 < k := by
  rcases Nat.eq_zero_or_pos k with rfl | hk
  · obtain ⟨-, r, hr, -⟩ := h
    simp at hr
  · exact hk

/-- The places that were found are safe. -/
structure Sound (points : CutPoints) (taken : List Row) : Prop where
  preferred : ∀ k size, points.preferred = some (k, size) → SafeAt taken k
  safe : ∀ k, points.safe = some k → SafeAt taken k

theorem Sound.extend {points : CutPoints} {taken : List Row} (h : Sound points taken) (row : Row)
    (isPreferred : Bool) (size : Nat) :
    Sound (points.extend row isPreferred (taken.length + 1) size) (taken ++ [row]) := by
  have hold : Sound points (taken ++ [row]) :=
    ⟨fun k s hk => (h.preferred k s hk).append [row], fun k hk => (h.safe k hk).append [row]⟩
  unfold CutPoints.extend
  split
  · next hsafe =>
    have hnew : SafeAt (taken ++ [row]) (taken.length + 1) := by
      refine ⟨by simp, row, ?_, hsafe⟩
      rw [List.take_of_length_le (by simp), List.getLast?_concat]
    refine ⟨?_, ?_⟩
    · intro k s hk
      cases isPreferred with
      | false => exact hold.preferred k s hk
      | true =>
        cases hk
        exact hnew
    · intro k hk
      cases hk
      exact hnew
  · exact hold

theorem Sound.choose {points : CutPoints} {taken : List Row} (h : Sound points taken) {max k : Nat}
    (hk : points.choose max = some k) : SafeAt taken k := by
  obtain ⟨preferred, safe⟩ := points
  cases preferred with
  | none => exact h.safe k hk
  | some p =>
    have hp := h.preferred p.1 p.2 rfl
    simp only [CutPoints.choose] at hk
    split at hk
    · cases hk
      exact hp
    · cases safe with
      | none =>
        cases hk
        exact hp
      | some s => exact h.safe k hk

theorem forcedCount_safe {rows : List Row} (h : rows ≠ []) :
    forcedCount rows = rows.length ∨ SafeAt rows (forcedCount rows) := by
  fun_induction forcedCount rows with
  | case1 => exact absurd rfl h
  | case2 row => exact .inl rfl
  | case3 row rest hne hsafe => exact .inr ⟨by simp, row, by simp, hsafe⟩
  | case4 row rest hne hsafe ih =>
    have hrest : rest ≠ [] := fun h => hne (by rw [h])
    rcases ih hrest with hall | ⟨hle, r, hr, hrs⟩
    · exact .inl (by rw [hall, List.length_cons])
    · refine .inr ⟨by simpa using hle, r, ?_, hrs⟩
      rw [List.take_succ_cons, List.getLast?_cons, hr, Option.getD_some]

/-- A piece takes all lines or ends with a safe one. -/
theorem countFrom_safe (max : Nat) (preferred : List Nat) {points : CutPoints} {taken : List Row}
    (size : Nat) (rest : List Row) (h : Sound points taken) :
    (countFrom max preferred points taken.length size rest).1 = (taken ++ rest).length ∨
      SafeAt (taken ++ rest) (countFrom max preferred points taken.length size rest).1 := by
  induction rest generalizing points taken size with
  | nil => simp [countFrom]
  | cons row rest ih =>
    rw [countFrom]
    split
    -- the line does not fit: the piece ends at a place that was noted, or it grows to one
    · split
      · next k hk => exact .inr ((h.choose hk).append _)
      · rcases forcedCount_safe (List.cons_ne_nil row rest) with hall | ⟨hle, hr⟩
        · exact .inl (by simp only [hall, List.length_append])
        · refine .inr ⟨by simpa using hle, ?_⟩
          obtain ⟨r, hr, hrs⟩ := hr
          refine ⟨r, ?_, hrs⟩
          rw [List.take_length_add_append, List.getLast?_append, hr, Option.some_or]
    · have hext := h.extend row (preferred.contains row.number) (size + row.length)
      simpa using ih (size + row.length) hext

theorem count_safe (max : Nat) (preferred : List Nat) {rows : List Row} (h : rows ≠ []) :
    (count max preferred rows).1 = rows.length ∨ SafeAt rows (count max preferred rows).1 := by
  have hpos := List.length_pos_of_ne_nil h
  have hnone : Sound {} [] := ⟨by simp, by simp⟩
  have hc := countFrom_safe max preferred 0 rows hnone
  have hmax : (count max preferred rows).1 = Max.max (countFrom max preferred {} 0 0 rows).1 1 := rfl
  rw [List.nil_append, List.length_nil] at hc
  rw [hmax]
  -- a piece takes one line at least, and a safe place is behind one
  rcases hc with hc | hc
  · left
    omega
  · right
    rwa [Nat.max_eq_left hc.pos]

/-- A piece ends with a safe line or with the last line of the unit. -/
theorem endIn_of_mem_split {max : Nat} {preferred : List Nat} {rows : List Row}
    {p : List Row × List CutWarning} (h : p ∈ split max preferred rows) :
    Row.EndIn (fun r => r.safe = true ∨ rows.getLast? = some r) p.1 := by
  fun_induction split max preferred rows with
  | case1 => simp at h
  | case2 row rest c piece ih =>
    rcases List.mem_cons.1 h with rfl | h
    · intro r hr
      rcases count_safe max preferred (List.cons_ne_nil row rest) with hall | ⟨-, s, hs, hsafe⟩
      · right
        simpa [piece, c, hall] using hr
      · left
        obtain rfl : s = r := Option.some.inj (hs.symm.trans hr)
        exact hsafe
    · intro r hr
      rcases ih h r hr with hsafe | hlast
      · exact .inl hsafe
      · rw [List.getLast?_drop] at hlast
        split at hlast
        · cases hlast
        · exact .inr hlast

end Piece

namespace ChunkPlan

theorem endIn_splitUnit {ok : Row → Prop} (hsafe : ∀ r, r.safe = true → ok r)
    {limits : ChunkLimits} {unit : ChunkUnit} (hunit : Row.EndIn ok unit.rows) :
    ∀ d ∈ (splitUnit limits unit).1, Row.EndIn ok d.rows := by
  intro d hd
  obtain ⟨p, hp, hpd⟩ := exists_piece_of_mem_splitUnit hd
  intro r hr
  rcases Piece.endIn_of_mem_split hp r (hpd ▸ hr) with h | h
  · exact hsafe r h
  · exact hunit r h

theorem endIn_whole {ok : Row → Prop} {rows : List Row} (h : Row.EndIn ok rows) :
    ∀ d ∈ whole rows, Row.EndIn ok d.rows := by
  unfold whole
  split
  · simp
  · simpa using h

theorem endIn_pack {ok : Row → Prop} (hsafe : ∀ r, r.safe = true → ok r) (limits : ChunkLimits)
    {current : List Row} {units : List ChunkUnit} (hcurrent : Row.EndIn ok current)
    (hunits : ∀ u ∈ units, Row.EndIn ok u.rows) :
    ∀ d ∈ (pack limits current units).1, Row.EndIn ok d.rows := by
  fun_induction pack limits current units with
  | case1 current => exact endIn_whole hcurrent
  | case2 current unit units size h ih =>
    obtain ⟨hunit, hunits⟩ := List.forall_mem_cons.1 hunits
    refine ih (fun r hr => ?_) hunits
    rw [List.getLast?_append] at hr
    cases hlast : unit.rows.getLast? with
    | none => exact hcurrent r (by rwa [hlast] at hr)
    | some s =>
      rw [hlast] at hr
      exact hunit r (hlast.trans hr)
  | case3 current unit units size h1 h2 drafts warnings hp ih =>
    obtain ⟨hunit, hunits⟩ := List.forall_mem_cons.1 hunits
    rw [hp] at ih
    exact List.forall_mem_append.2 ⟨endIn_whole hcurrent, ih hunit hunits⟩
  | case4 current unit units size h1 h2 cut cutWarnings hc drafts warnings hp ih =>
    obtain ⟨hunit, hunits⟩ := List.forall_mem_cons.1 hunits
    have hcut : ∀ d ∈ (splitUnit limits unit).1, Row.EndIn ok d.rows := endIn_splitUnit hsafe hunit
    rw [hc] at hcut
    rw [hp] at ih
    refine List.forall_mem_append.2 ⟨List.forall_mem_append.2 ⟨endIn_whole hcurrent, hcut⟩, ?_⟩
    exact ih (by simp [Row.EndIn]) hunits

end ChunkPlan

end Pseudoscribe
