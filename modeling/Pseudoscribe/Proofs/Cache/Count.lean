import Mathlib.Data.Nat.ModEq
import Pseudoscribe.Proofs.Cache.Eviction

/-!
# How many values a store counts

What is done with a store changes the number of its values and the count in the same way, so the difference that
was there when the store was opened stays: the values that could not be read then are never counted.  Without such
values the count is right and bounded, and storing ends.  With them the count is too low by their number, or too
high by almost `2 ^ 64` as soon as fewer values are left than were not counted; then storing a value goes on for ever.
-/

namespace Pseudoscribe

/-- What may be done with an open store. -/
inductive StoreUse where
  | save (key : String) (value : Assembly)
  | retrieve (key : String)
  | remove (key : String)
deriving Repr

namespace ResultStore

/-- Counts have 64 bits. -/
def countLimit : Nat := Nat.pow 2 64

theorem countLimit_pos : 0 < countLimit := Nat.pow_pos Nat.two_pos

/-- The store with a value put to the others, before any is taken away. -/
def inserted (s : ResultStore) (key : String) (value : Assembly) : ResultStore :=
  { s with
    entries := insertEntry ⟨key, some value, s.nextSequence⟩ s.entries
    nextSequence := s.nextSequence + 1
    count := if (s.find? key).isSome then s.count else countUp s.count }

theorem save_eq (s : ResultStore) (key : String) (value : Assembly) :
    s.save key value = shrink (s.inserted key value).entries.length (s.inserted key value) := rfl

/-- What is answered to a use, and the store behind it. -/
def use (s : ResultStore) : StoreUse → Except StoreError (Option Assembly) × ResultStore
  | .save key value => (.ok none, s.save key value)
  | .retrieve key => s.retrieve key
  | .remove key => (.ok none, s.remove key)

/-- The store behind some uses. -/
def useAll (s : ResultStore) (uses : List StoreUse) : ResultStore := uses.foldl (fun s u => (s.use u).2) s

/-- The use comes to an end. -/
def UseEnds (s : ResultStore) : StoreUse → Prop
  | .save key value => (s.inserted key value).Ends
  | .retrieve _ | .remove _ => True

/-- Each of the uses comes to an end. -/
def AllEnd (s : ResultStore) : List StoreUse → Prop
  | [] => True
  | u :: us => s.UseEnds u ∧ (s.use u).2.AllEnd us

/-- How many of the values cannot be read. -/
def unreadable (es : List StoredResult) : Nat := es.countP (·.value.isNone)

/-! ## The difference stays -/

/-- The values are in order, and `missing` of them are not counted. -/
structure Misses (missing : Nat) (s : ResultStore) : Prop where
  ordered : Ordered s.entries
  lt : s.count < countLimit
  counted : s.count + missing ≡ s.entries.length [MOD countLimit]

theorem countUp_modEq (count : Nat) : countUp count ≡ count + 1 [MOD countLimit] := by
  unfold countUp
  split
  · next h =>
    have htop : count + 1 = countLimit := by
      rw [h]
      exact Nat.sub_add_cancel countLimit_pos
    rw [htop]
    exact (Nat.modEq_zero_iff_dvd.2 (dvd_refl _)).symm
  · exact Nat.ModEq.refl _

theorem countUp_lt {count : Nat} (h : count < countLimit) : countUp count < countLimit := by
  unfold countUp
  split
  · exact countLimit_pos
  · next hne =>
    have hne : count ≠ countLimit - 1 := hne
    omega

theorem countDown_modEq (count : Nat) : countDown count + 1 ≡ count [MOD countLimit] := by
  unfold countDown
  split
  · next h =>
    have htop : countLimit - 1 + 1 = countLimit := Nat.sub_add_cancel countLimit_pos
    rw [h]
    exact htop ▸ Nat.modEq_zero_iff_dvd.2 (dvd_refl _)
  · next h => rw [Nat.sub_add_cancel (Nat.pos_of_ne_zero h)]

theorem countDown_lt {count : Nat} (h : count < countLimit) : countDown count < countLimit := by
  unfold countDown
  split
  · exact Nat.sub_lt countLimit_pos Nat.one_pos
  · omega

variable {missing : Nat} {s : ResultStore}

/-- One value less, and one less is counted. -/
theorem Misses.takeAway (h : Misses missing s) {e : StoredResult} (he : e ∈ s.entries) :
    Misses missing { s with entries := without e.key s.entries, count := countDown s.count } := by
  refine ⟨h.ordered.filter _, countDown_lt h.lt, Nat.ModEq.add_right_cancel' 1 ?_⟩
  have hcount := ((countDown_modEq s.count).add_right missing).trans h.counted
  rw [← length_without h.ordered he] at hcount
  rwa [Nat.add_right_comm]

theorem Misses.evict (h : Misses missing s) : Misses missing s.evict := by
  by_cases hnil : s.entries = []
  · rwa [evict_of_nil hnil]
  · obtain ⟨e, he, -, hevict⟩ := evict_of_ne_nil hnil
    rw [hevict]
    exact h.takeAway he

theorem Misses.shrink (h : Misses missing s) (rounds : Nat) : Misses missing (shrink rounds s) := by
  induction rounds generalizing s with
  | zero => exact h
  | succ k ih =>
    unfold ResultStore.shrink
    split
    · exact ih h.evict
    · exact h

theorem Misses.inserted (h : Misses missing s) (key : String) (value : Assembly) :
    Misses missing (s.inserted key value) := by
  have hlength := length_insertEntry h.ordered ⟨key, some value, s.nextSequence⟩
  dsimp only at hlength
  refine ⟨h.ordered.insertEntry _, ?_, ?_⟩
  · show (if (s.find? key).isSome then s.count else countUp s.count) < countLimit
    split
    · exact h.lt
    · exact countUp_lt h.lt
  · show (if (s.find? key).isSome then s.count else countUp s.count) + missing ≡
      (insertEntry ⟨key, some value, s.nextSequence⟩ s.entries).length [MOD countLimit]
    rw [hlength]
    split
    · exact h.counted
    · have hcount := (countUp_modEq s.count).add_right missing
      rw [Nat.add_right_comm] at hcount
      exact hcount.trans (h.counted.add_right 1)

theorem Misses.use (h : Misses missing s) (u : StoreUse) : Misses missing (s.use u).2 := by
  cases u with
  | save key value => exact (h.inserted key value).shrink _
  | retrieve key =>
    show Misses missing (s.retrieve key).2
    unfold retrieve
    split
    · exact ⟨h.ordered, h.lt, h.counted⟩
    · next e hfind =>
      split
      · exact h
      · obtain ⟨-, rfl⟩ := mem_of_find? hfind
        have hlength := length_insertEntry h.ordered { e with sequence := s.nextSequence }
        rw [hfind] at hlength
        refine ⟨h.ordered.insertEntry _, h.lt, ?_⟩
        dsimp only
        rw [hlength]
        exact h.counted
  | remove key =>
    show Misses missing (s.remove key)
    unfold remove
    split
    · exact h
    · next e hfind =>
      obtain ⟨he, rfl⟩ := mem_of_find? hfind
      exact h.takeAway he

theorem maxEntries_use (s : ResultStore) (u : StoreUse) : (s.use u).2.maxEntries = s.maxEntries := by
  cases u with
  | save key value => exact maxEntries_shrink _ (s.inserted key value)
  | retrieve key =>
    show (s.retrieve key).2.maxEntries = s.maxEntries
    unfold retrieve
    split
    · rfl
    · split <;> rfl
  | remove key =>
    show (s.remove key).maxEntries = s.maxEntries
    unfold remove
    split <;> rfl

theorem length_inserted_le (h : Ordered s.entries) (key : String) (value : Assembly) :
    (s.inserted key value).entries.length ≤ s.entries.length + 1 := by
  have hlength := length_insertEntry h ⟨key, some value, s.nextSequence⟩
  show (insertEntry ⟨key, some value, s.nextSequence⟩ s.entries).length ≤ s.entries.length + 1
  split at hlength <;> omega

theorem length_use_le (h : Ordered s.entries) (u : StoreUse) :
    (s.use u).2.entries.length ≤ s.entries.length + 1 := by
  cases u with
  | save key value =>
    have hinserted := length_inserted_le h key value
    have hsaved := (shrink_enough (s := s.inserted key value) (h.insertEntry _) (Nat.le_refl _)).1
    show (s.save key value).entries.length ≤ s.entries.length + 1
    rw [save_eq]
    omega
  | retrieve key =>
    show (s.retrieve key).2.entries.length ≤ s.entries.length + 1
    unfold retrieve
    split
    · exact Nat.le_succ _
    · next e hfind =>
      split
      · exact Nat.le_succ _
      · have hlength := length_insertEntry h { e with sequence := s.nextSequence }
        dsimp only
        split at hlength <;> omega
  | remove key =>
    show (s.remove key).entries.length ≤ s.entries.length + 1
    unfold remove
    split
    · exact Nat.le_succ _
    · exact Nat.le_trans (List.length_filter_le _ _) (Nat.le_succ _)

/-! ## Saving -/

/-- The count is too low by the number of the missing values, or has begun again at the top. -/
theorem Misses.cases (h : Misses missing s) (hlength : s.entries.length < countLimit) (hmissing : missing < countLimit) :
    s.count + missing = s.entries.length ∨ s.count + missing = s.entries.length + countLimit := by
  have hlt := h.lt
  have hmod := h.counted
  rw [Nat.ModEq, Nat.mod_eq_of_lt hlength] at hmod
  have hdiv := Nat.mod_add_div (s.count + missing) countLimit
  rw [hmod] at hdiv
  have htwo : (s.count + missing) / countLimit < 2 := Nat.div_lt_of_lt_mul (by omega)
  obtain hquot | hquot := Nat.le_one_iff_eq_zero_or_eq_one.1 (Nat.lt_succ_iff.1 htwo)
  · rw [hquot] at hdiv
    omega
  · rw [hquot] at hdiv
    omega

/-- The rounds end if as many values are there as are not counted, or if the limit is so high that even a count
from the top is below it. -/
theorem Misses.ends_iff (h : Misses missing s) (hlength : s.entries.length < countLimit)
    (hmissing : missing < countLimit) :
    Ends s ↔ missing ≤ s.entries.length ∨ countLimit ≤ s.maxEntries + missing := by
  have hlt := h.lt
  rw [ResultStore.ends_iff h.ordered]
  rcases h.cases hlength hmissing with hcount | hcount <;> omega

theorem Misses.length_shrink_le (h : Misses missing s) (hlength : s.entries.length < countLimit)
    (hmissing : missing < countLimit) :
    (ResultStore.shrink s.entries.length s).entries.length ≤ s.maxEntries + missing := by
  have hlt := h.lt
  rw [(shrink_enough h.ordered (Nat.le_refl _)).1]
  rcases h.cases hlength hmissing with hcount | hcount <;> omega

/-! ## Many uses -/

theorem useAll_concat (s : ResultStore) (uses : List StoreUse) (u : StoreUse) :
    s.useAll (uses ++ [u]) = ((s.useAll uses).use u).2 :=
  List.foldl_concat _ _ _ _

theorem Misses.useAll (h : Misses missing s) (uses : List StoreUse) : Misses missing (s.useAll uses) := by
  induction uses generalizing s with
  | nil => exact h
  | cons u us ih => exact ih (h.use u)

theorem maxEntries_useAll (s : ResultStore) (uses : List StoreUse) : (s.useAll uses).maxEntries = s.maxEntries := by
  induction uses generalizing s with
  | nil => rfl
  | cons u us ih => exact (ih (s.use u).2).trans (maxEntries_use s u)

theorem Misses.length_useAll_le (h : Misses missing s) (uses : List StoreUse) :
    (s.useAll uses).entries.length ≤ s.entries.length + uses.length := by
  induction uses generalizing s with
  | nil => exact Nat.le_refl _
  | cons u us ih =>
    have hfirst := length_use_le h.ordered u
    have hrest := ih (h.use u)
    show ((s.use u).2.useAll us).entries.length ≤ s.entries.length + (us.length + 1)
    omega

theorem Misses.allEnd (h : Misses 0 s) {uses : List StoreUse}
    (hlength : s.entries.length + uses.length < countLimit) : s.AllEnd uses := by
  induction uses generalizing s with
  | nil => trivial
  | cons u us ih =>
    rw [List.length_cons] at hlength
    have huse := length_use_le h.ordered u
    refine ⟨?_, ih (h.use u) (by omega)⟩
    cases u with
    | save key value =>
      have hinserted := length_inserted_le h.ordered key value
      exact ((h.inserted key value).ends_iff (by omega) countLimit_pos).2 (.inl (Nat.zero_le _))
    | retrieve key => trivial
    | remove key => trivial

/-- What is not read when a store is opened is not counted then. -/
theorem misses_load {maxEntries : Nat} {es : List StoredResult} (hload : load maxEntries es = .ok s)
    (hes : Ordered es) (hlength : es.length < countLimit) :
    Misses (unreadable es) s ∧ s.entries = es ∧ s.maxEntries = maxEntries := by
  unfold load at hload
  split at hload
  · cases hload
  · cases hload
    have hreadable := List.length_eq_countP_add_countP (l := es) (fun e => e.value.isSome)
    have hcount : (es.filter (·.value.isSome)).length + unreadable es = es.length := by
      rw [← List.countP_eq_length_filter, unreadable, hreadable]
      exact congrArg _ (List.countP_congr fun e _ => by simp)
    refine ⟨⟨hes, ?_, ?_⟩, rfl, rfl⟩
    · exact Nat.lt_of_le_of_lt (List.length_filter_le _ _) hlength
    · exact hcount ▸ Nat.ModEq.refl _

/-- What is wanted of a store over some uses: they come to an end, all its values are counted, and right after one
is saved there are no more than allowed. -/
structure Sized (s : ResultStore) (uses : List StoreUse) : Prop where
  ends : s.AllEnd uses
  counted : (s.useAll uses).stats.entries = (s.useAll uses).entries.length
  bounded : ∀ before key value, uses = before ++ [.save key value] →
    (s.useAll uses).entries.length ≤ s.maxEntries

theorem Misses.sized (h : Misses 0 s) {uses : List StoreUse}
    (hlength : s.entries.length + uses.length < countLimit) : Sized s uses := by
  have hafter := h.useAll uses
  have hcount := hafter.cases (Nat.lt_of_le_of_lt (h.length_useAll_le uses) hlength) countLimit_pos
  refine ⟨h.allEnd hlength, ?_, ?_⟩
  · have hlt := hafter.lt
    show (s.useAll uses).count = (s.useAll uses).entries.length
    omega
  · rintro before key value rfl
    have hbefore := h.length_useAll_le before
    rw [List.length_append, List.length_singleton] at hlength
    have hinserted := length_inserted_le (h.useAll before).ordered key value
    have hsaved := ((h.useAll before).inserted key value).length_shrink_le (by omega) countLimit_pos
    rw [useAll_concat, ← maxEntries_useAll s before]
    exact hsaved

/-- A store is sized for every use exactly if all its values could be read when it was opened.  Otherwise, as long as
what is done comes to an end, the values that could not be read are missing from the count, saving ends if after
the value is put in there are as many as are missing, and then there may be as many values too many. -/
theorem sized_iff_readable {maxEntries : Nat} {es : List StoredResult} (hload : load maxEntries es = .ok s)
    (hes : Ordered es) (hlength : es.length < countLimit) :
    ((∀ uses : List StoreUse, es.length + uses.length < countLimit → Sized s uses) ↔ unreadable es = 0) ∧
      ∀ uses : List StoreUse, es.length + uses.length < countLimit → s.AllEnd uses →
        (s.useAll uses).stats.entries + unreadable es ≡ (s.useAll uses).entries.length [MOD countLimit] ∧
        ∀ key value, es.length + uses.length + 1 < countLimit →
          (((s.useAll uses).inserted key value).Ends ↔
            unreadable es ≤ ((s.useAll uses).inserted key value).entries.length ∨
              countLimit ≤ maxEntries + unreadable es) ∧
          (((s.useAll uses).inserted key value).Ends →
            ((s.useAll uses).save key value).entries.length ≤ maxEntries + unreadable es) := by
  obtain ⟨hmisses, rfl, rfl⟩ := misses_load hload hes hlength
  have hmissing : unreadable s.entries < countLimit := Nat.lt_of_le_of_lt List.countP_le_length hlength
  refine ⟨⟨fun hsized => ?_, fun hzero uses huses => ?_⟩, fun uses huses _ => ?_⟩
  · have hcounted : s.count = s.entries.length := (hsized [] hlength).counted
    rcases hmisses.cases hlength hmissing with hcount | hcount <;> omega
  · rw [hzero] at hmisses
    exact hmisses.sized huses
  · have hafter := hmisses.useAll uses
    have hlengths := hmisses.length_useAll_le uses
    refine ⟨hafter.counted, fun key value hmore => ?_⟩
    have hinserted := length_inserted_le hafter.ordered key value
    rw [← maxEntries_useAll s uses]
    refine ⟨?_, fun _ => ?_⟩
    · exact (hafter.inserted key value).ends_iff (by omega) hmissing
    · exact (hafter.inserted key value).length_shrink_le (by omega) hmissing

/-- The assembly of no chunks. -/
def noChunks : Assembly := { id := default }

/-- Two values that cannot be read. -/
def outdated : List StoredResult := [⟨"a", none, 0⟩, ⟨"b", none, 0⟩]

theorem sized_iff_readable_outdated :
    ∃ s, load 1 outdated = .ok s ∧ Ordered outdated ∧ outdated.length < countLimit ∧
      s.AllEnd [.remove "a"] ∧ ¬ ((s.useAll [.remove "a"]).inserted "b" noChunks).Ends := by
  have hordered : Ordered outdated := by decide
  have hlength : outdated.length + 1 + 1 < countLimit := by decide +kernel
  obtain ⟨s, hload⟩ : ∃ s, load 1 outdated = .ok s := ⟨_, rfl⟩
  refine ⟨s, hload, hordered, by omega, ⟨trivial, trivial⟩, fun hends => ?_⟩
  have hmore := ((sized_iff_readable hload hordered (by omega)).2 [.remove "a"] (Nat.lt_of_succ_lt hlength)
    ⟨trivial, trivial⟩).2 "b" noChunks hlength
  cases hload
  rcases hmore.1.1 hends with hle | hle
  · exact absurd hle (by decide)
  · exact absurd hle (by decide +kernel)

/-- Opened over values that cannot be read, with room for one, a store counts none of them, has two too many after
one is saved, and saving goes on for ever after one is removed. -/
theorem exists_uncounted :
    ∃ s, load 1 outdated = .ok s ∧ Ordered outdated ∧ outdated.length < countLimit ∧
      s.stats.entries ≠ s.entries.length ∧
      ¬ (s.useAll [.save "c" noChunks]).entries.length ≤ 1 ∧
      ¬ s.AllEnd [.remove "a", .save "b" noChunks] := by
  refine ⟨_, rfl, by decide, by decide +kernel, by decide, by decide +kernel, fun hends => ?_⟩
  have hle := (ends_iff (by decide)).1 hends.2.1
  exact absurd hle (by decide +kernel)

end ResultStore

end Pseudoscribe
