import Mathlib.Data.List.Perm.Subperm
import Pseudoscribe.Proofs.Assembly.Accounts
import Pseudoscribe.Proofs.Run.Moves

/-!
# The result and the ends of the chunks

The result of a run depends on how each chunk ended, and neither on the order in which the chunks ended nor on
anything else.  It counts as cancelled exactly if one of its chunks does.
-/

namespace Pseudoscribe

namespace Assembly

/-! ## Ends -/

/-- Ends that belong to chunks, at most one to each. -/
structure Belong (chunks : List Chunk) (finals : List (Nat × ChunkEnd)) : Prop where
  nodup : (finals.map Prod.fst).Nodup
  subset : finals.map Prod.fst ⊆ chunks.map Chunk.index

theorem lookup_of_mem {finals : List (Nat × ChunkEnd)} (h : (finals.map Prod.fst).Nodup) {i : Nat}
    {final : ChunkEnd} (hmem : (i, final) ∈ finals) : finals.lookup i = some final := by
  induction finals with
  | nil => cases hmem
  | cons p ps ih =>
    obtain ⟨j, e⟩ := p
    rw [List.map_cons, List.nodup_cons] at h
    rcases List.mem_cons.1 hmem with heq | hmem
    · cases heq
      exact List.lookup_cons_self
    · have hne : i ≠ j := fun heq => h.1 (List.mem_map.2 ⟨(i, final), hmem, heq⟩)
      rw [List.lookup_cons, beq_false_of_ne hne]
      exact ih h.2 hmem

theorem mem_of_lookup {finals : List (Nat × ChunkEnd)} {i : Nat} {final : ChunkEnd}
    (h : finals.lookup i = some final) : (i, final) ∈ finals := by
  obtain ⟨before, behind, hsplit, -⟩ := List.lookup_eq_some_iff.1 h
  rw [hsplit]
  exact List.mem_append_right _ List.mem_cons_self

theorem endOf_of_mem {finals : List (Nat × ChunkEnd)} (h : (finals.map Prod.fst).Nodup) {c : Chunk}
    {final : ChunkEnd} (hmem : (c.index, final) ∈ finals) : endOf finals c = final := by
  rw [endOf, lookup_of_mem h hmem, Option.getD_some]

theorem endOf_of_notMem {finals : List (Nat × ChunkEnd)} {c : Chunk} (h : c.index ∉ finals.map Prod.fst) :
    endOf finals c = .cancelled 0 := by
  cases hlookup : finals.lookup c.index with
  | none => rw [endOf, hlookup, Option.getD_none]
  | some final => exact absurd (List.mem_map_of_mem (mem_of_lookup hlookup)) h

/-- A run is partial exactly if some chunk was cancelled, be it that it was withdrawn or never begun. -/
theorem isPartial_iff {chunks : List Chunk} {finals : List (Nat × ChunkEnd)}
    (hchunks : (chunks.map Chunk.index).Nodup) (h : Belong chunks finals) :
    Run.isPartial chunks finals = true ↔ ∃ c ∈ chunks, (endOf finals c).status = .cancelled := by
  have hsub : (finals.map Prod.fst).Subperm (chunks.map Chunk.index) := h.nodup.subperm h.subset
  rw [Run.isPartial, Bool.or_eq_true, decide_eq_true_eq, List.any_eq_true]
  constructor
  · rintro (hshort | ⟨⟨i, final⟩, hmem, hcancelled⟩)
    · -- there are fewer ends than chunks, so one of these has none
      have hmissing : ∃ c ∈ chunks, c.index ∉ finals.map Prod.fst := by
        by_contra hall
        simp only [not_exists, not_and, not_not] at hall
        have hsubset : chunks.map Chunk.index ⊆ finals.map Prod.fst := by
          intro i hi
          obtain ⟨c, hc, rfl⟩ := List.mem_map.1 hi
          exact hall c hc
        have hlength := (hchunks.subperm hsubset).length_le
        rw [List.length_map, List.length_map] at hlength
        exact absurd hshort (Nat.not_lt.2 hlength)
      obtain ⟨c, hc, hmissing⟩ := hmissing
      exact ⟨c, hc, by rw [endOf_of_notMem hmissing]; rfl⟩
    · obtain ⟨c, hc, rfl⟩ := List.mem_map.1 (h.subset (List.mem_map_of_mem hmem))
      exact ⟨c, hc, by rw [endOf_of_mem h.nodup hmem]; exact beq_iff_eq.1 hcancelled⟩
  · rintro ⟨c, hc, hcancelled⟩
    by_cases hmem : c.index ∈ finals.map Prod.fst
    · obtain ⟨⟨i, final⟩, hfinal, rfl⟩ := List.mem_map.1 hmem
      rw [endOf_of_mem h.nodup hfinal] at hcancelled
      exact .inr ⟨_, hfinal, beq_iff_eq.2 hcancelled⟩
    · refine .inl (Nat.lt_of_le_of_ne ?_ fun heq => hmem ?_)
      · have hlength := hsub.length_le
        rwa [List.length_map, List.length_map] at hlength
      · have hperm := hsub.perm_of_length_le (by rw [List.length_map, List.length_map, heq])
        exact hperm.symm.subset (List.mem_map_of_mem hc)

/-- The ends that there are, in the order of the chunks. -/
theorem Belong.perm_ends {chunks : List Chunk} {finals : List (Nat × ChunkEnd)} (h : Belong chunks finals)
    (hchunks : (chunks.map Chunk.index).Nodup) :
    ((chunks.map fun c => (c.index, endOf finals c)).filter fun p => decide (p.1 ∈ finals.map Prod.fst)).Perm
      finals := by
  have hkeys : (chunks.map fun c => (c.index, endOf finals c)).map Prod.fst = chunks.map Chunk.index :=
    List.map_map
  refine (List.perm_ext_iff_of_nodup (List.Nodup.filter _ (.of_map Prod.fst (hkeys ▸ hchunks)))
    (.of_map Prod.fst h.nodup)).2 fun p => ?_
  rw [List.mem_filter, decide_eq_true_eq]
  constructor
  · rintro ⟨hp, hbegun⟩
    obtain ⟨c, hc, rfl⟩ := List.mem_map.1 hp
    obtain ⟨⟨i, final⟩, hfinal, rfl⟩ := List.mem_map.1 hbegun
    rwa [endOf_of_mem h.nodup hfinal]
  · intro hp
    obtain ⟨c, hc, heq⟩ := List.mem_map.1 (h.subset (List.mem_map_of_mem hp))
    obtain ⟨i, final⟩ := p
    subst heq
    exact ⟨List.mem_map.2 ⟨c, hc, by rw [endOf_of_mem h.nodup hp]⟩, List.mem_map_of_mem hp⟩

/-- What is taken of the ends of the chunks is what is taken of the ends that there are, if nothing is taken of
chunks that were never begun. -/
theorem Belong.perm_filterMap {α : Type} {chunks : List Chunk} {finals : List (Nat × ChunkEnd)}
    (h : Belong chunks finals) (hchunks : (chunks.map Chunk.index).Nodup) {f : Nat × ChunkEnd → Option α}
    (hnone : ∀ i, f (i, .cancelled 0) = none) :
    (finals.filterMap f).Perm (chunks.filterMap fun c => f (c.index, endOf finals c)) := by
  have hmap : (chunks.map fun c => (c.index, endOf finals c)).filterMap f =
      chunks.filterMap fun c => f (c.index, endOf finals c) := List.filterMap_map
  have hbegun := (h.perm_ends hchunks).filterMap f
  rw [List.filterMap_filter, List.filterMap_congr (g := f), hmap] at hbegun
  · exact hbegun.symm
  · intro p hp
    obtain ⟨c, hc, rfl⟩ := List.mem_map.1 hp
    by_cases hmem : c.index ∈ finals.map Prod.fst
    · rw [if_pos (decide_eq_true hmem)]
    · rw [endOf_of_notMem hmem, hnone, ite_self]

/-- The chunks put together, with the ends that a function gives. -/
def ofEnds (id : RequestId) (chunks : List Chunk) (ends : Chunk → ChunkEnd) : Assembly :=
  let cancelled := chunks.any fun c => (ends c).status == .cancelled
  let a := addEach ends { id } chunks
  { a with success := a.success && !cancelled, cancelled }

theorem addEach_congr {ends ends' : Chunk → ChunkEnd} {chunks : List Chunk}
    (h : ∀ c ∈ chunks, ends c = ends' c) (a : Assembly) :
    addEach ends a chunks = addEach ends' a chunks := by
  induction chunks generalizing a with
  | nil => rfl
  | cons c cs ih =>
    rw [addEach, addEach, h c List.mem_cons_self]
    exact ih (fun d hd => h d (List.mem_cons_of_mem c hd)) _

theorem ofEnds_congr {ends ends' : Chunk → ChunkEnd} {chunks : List Chunk} (id : RequestId)
    (h : ∀ c ∈ chunks, ends c = ends' c) : ofEnds id chunks ends = ofEnds id chunks ends' := by
  have hany : (chunks.any fun c => (ends c).status == .cancelled) =
      chunks.any fun c => (ends' c).status == .cancelled := by
    rw [Bool.eq_iff_iff, List.any_eq_true, List.any_eq_true]
    constructor
    · rintro ⟨c, hc, hcancelled⟩
      exact ⟨c, hc, h c hc ▸ hcancelled⟩
    · rintro ⟨c, hc, hcancelled⟩
      exact ⟨c, hc, h c hc ▸ hcancelled⟩
  unfold ofEnds
  rw [hany, addEach_congr h]

theorem ofChunks_eq_ofEnds (id : RequestId) {chunks : List Chunk} {finals : List (Nat × ChunkEnd)}
    (hchunks : (chunks.map Chunk.index).Nodup) (h : Belong chunks finals) :
    ofChunks id chunks finals (Run.isPartial chunks finals) = ofEnds id chunks (endOf finals) := by
  have hcancelled : Run.isPartial chunks finals =
      chunks.any fun c => (endOf finals c).status == .cancelled := by
    rw [Bool.eq_iff_iff, isPartial_iff hchunks h, List.any_eq_true]
    simp only [beq_iff_eq]
  have heach : ({ id } : Assembly).addAll finals chunks = addEach (endOf finals) { id } chunks :=
    addAll_eq_addEach hchunks (fun _ _ => rfl) _
  unfold ofChunks ofEnds
  rw [hcancelled, heach]

end Assembly

namespace Run

open Assembly

/-- The result of a run whose chunks came to these ends. -/
def reportOf (id : RequestId) (language : Language) (plan : ChunkPlan) (ends : Chunk → ChunkEnd) : Assembly :=
  withReview language (withPlanWarnings plan ((ofEnds id plan.chunks ends).hoist language).1)

theorem report_eq_reportOf (id : RequestId) (language : Language) {plan : ChunkPlan}
    {finals : List (Nat × ChunkEnd)} (hchunks : (plan.chunks.map Chunk.index).Nodup)
    (h : Belong plan.chunks finals) :
    report id language plan finals = reportOf id language plan (endOf finals) := by
  unfold report reportOf
  rw [ofChunks_eq_ofEnds id hchunks h]

theorem reportOf_congr (id : RequestId) (language : Language) {plan : ChunkPlan} {ends ends' : Chunk → ChunkEnd}
    (h : ∀ c ∈ plan.chunks, ends c = ends' c) :
    reportOf id language plan ends = reportOf id language plan ends' := by
  unfold reportOf
  rw [ofEnds_congr id h]

/-! ## Warnings -/

theorem foldl_warnings {α : Type} {f : Assembly → α → Assembly}
    (hf : ∀ a x, f a x = { a with warnings := (f a x).warnings }) (xs : List α) (a : Assembly) :
    xs.foldl f a = { a with warnings := (xs.foldl f a).warnings } := by
  induction xs generalizing a with
  | nil => rfl
  | cons x xs ih => rw [List.foldl_cons, ih, hf a x]

theorem withPlanWarnings_eq (plan : ChunkPlan) (a : Assembly) :
    withPlanWarnings plan a = { a with warnings := (withPlanWarnings plan a).warnings } := by
  unfold withPlanWarnings
  dsimp only
  rw [foldl_warnings (fun _ _ => rfl) plan.issues, foldl_warnings (fun _ _ => rfl) plan.warnings a]

theorem withReview_eq (language : Language) (a : Assembly) :
    withReview language a = { a with warnings := (withReview language a).warnings } := by
  unfold withReview
  split
  · rfl
  · exact foldl_warnings (fun _ _ => rfl) _ a

/-- Besides warnings the result is what the chunks come to when imports have been moved to the head. -/
theorem reportOf_eq (id : RequestId) (language : Language) (plan : ChunkPlan) (ends : Chunk → ChunkEnd) :
    reportOf id language plan ends = { ((ofEnds id plan.chunks ends).hoist language).1 with
      warnings := (reportOf id language plan ends).warnings } := by
  unfold reportOf
  rw [withReview_eq, withPlanWarnings_eq]

/-! ## Runs -/

namespace Orderly

variable {r : Run} {begun : List Nat}

theorem nodup_index (h : r.Orderly begun) : (r.plan.chunks.map Chunk.index).Nodup := by
  rw [h.indexed]
  exact List.nodup_range

theorem getElem?_index (h : r.Orderly begun) {c : Chunk} (hc : c ∈ r.plan.chunks) :
    r.plan.chunks[c.index]? = some c := by
  obtain ⟨i, hi⟩ := List.getElem?_of_mem hc
  rwa [h.index_of_getElem? hi]

theorem belong (h : r.Orderly begun) : Belong r.plan.chunks r.finals := by
  refine ⟨(List.nodup_append.1 h.nodup).2.1, fun i hi => ?_⟩
  have hbegun : i ∈ begun := h.once.subset (List.mem_append_right _ hi)
  rw [h.order] at hbegun
  rw [h.indexed]
  exact List.mem_range.2 (Nat.lt_of_lt_of_le (List.mem_range.1 hbegun) h.within)

theorem result_eq (h : r.Orderly begun) {a : Assembly} (ha : r.result = some a) :
    a = reportOf r.request.id r.request.language r.plan (endOf r.finals) := by
  obtain ⟨-, -, rfl⟩ := h.result a ha
  exact report_eq_reportOf _ _ h.nodup_index h.belong

/-- A run that was not to stop and has a result has begun all chunks, and all of them have ended. -/
theorem length_begun (h : r.Orderly begun) {a : Assembly} (ha : r.result = some a)
    (hgoing : r.cancelled = false) : begun.length = r.total := by
  obtain ⟨-, hlast, -⟩ := h.result a ha
  rcases hlast with hlast | hlast
  · rw [h.waiting, List.drop_eq_nil_iff] at hlast
    exact Nat.le_antisymm h.within hlast
  · rw [hgoing] at hlast
    cases hlast

theorem exists_final (h : r.Orderly begun) {a : Assembly} (ha : r.result = some a)
    (hgoing : r.cancelled = false) {c : Chunk} (hc : c ∈ r.plan.chunks) :
    ∃ final, (c.index, final) ∈ r.finals := by
  obtain ⟨hempty, -, -⟩ := h.result a ha
  have hall : c.index ∈ r.begunChunks := by
    refine h.once.symm.subset ?_
    rw [h.order, h.length_begun ha hgoing, ← h.indexed]
    exact List.mem_map_of_mem hc
  rw [begunChunks, hempty, List.map_nil, List.nil_append] at hall
  obtain ⟨⟨i, final⟩, hmem, rfl⟩ := List.mem_map.1 hall
  exact ⟨final, hmem⟩

end Orderly

end Run

end Pseudoscribe
