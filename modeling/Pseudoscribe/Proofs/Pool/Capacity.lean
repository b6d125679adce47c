import Pseudoscribe.Proofs.Pool.Flow

/-!
# The slots of a pool

The number of slots never changes.  What is told of a slot follows from what it is doing: it has no worker
exactly while one is being replaced, and it is busy exactly from the begin of a task until the outcome is
handed out.  When an outcome is handed out the slot has its worker back, unless the pool is being shut down.
-/

namespace Pseudoscribe

/-- A worker stands in the slot. -/
def Stage.hasWorker : Stage → Bool
  | idle | running _ _ => true
  | replacing _ _ _ | stopped => false

/-- A slot is told of as it is. -/
structure Slot.Sound (s : Slot) : Prop where
  alive : s.alive = s.stage.hasWorker
  busy : s.busy = s.stage.work?.isSome

namespace Pool

/-- How often a slot got a new worker. -/
def relaunches (history : List (Nat × PoolEvent)) (i : Nat) : Nat :=
  history.countP fun x => match x.2 with
    | .relaunch j => j == i
    | _ => false

theorem relaunches_concat (history : List (Nat × PoolEvent)) (now : Nat) (e : PoolEvent) (i : Nat) :
    relaunches (history ++ [(now, e)]) i = relaunches history i + relaunches [(now, e)] i :=
  List.countP_append

section Moves

variable {p q r : Pool} {now i : Nat} {s s' : Slot} {e : PoolEvent} {queue : List PoolTask}
  {begun : List (Nat × Nat)} {ended : List Delivery}

theorem SlotMove.sound (move : SlotMove p now i s e s' queue begun ended) (h : s.Sound) : s'.Sound := by
  obtain ⟨halive, hbusy⟩ := h
  cases move <;> constructor <;>
    simp_all [Stage.hasWorker, Stage.work?, Debt.work?, Slot.run, Slot.replace, Slot.release, Slot.renew]

theorem SlotMove.restarts (move : SlotMove p now i s e s' queue begun ended) :
    s'.restarts = s.restarts + relaunches [(now, e)] i := by
  cases move <;> simp [relaunches, Slot.run, Slot.replace, Slot.release, Slot.renew]

theorem SlotMove.relaunches_of_ne (move : SlotMove p now i s e s' queue begun ended) {j : Nat}
    (h : i ≠ j) : relaunches [(now, e)] j = 0 := by
  cases move <;> simp [relaunches, h]

theorem SlotMove.open (move : SlotMove p now i s e s' queue begun ended) (h : s'.stage = .stopped) :
    s.stage = .stopped := by
  cases move <;> first | exact h | cases h

/-- A slot holds what it held before or has just taken. -/
theorem SlotMove.held (move : SlotMove p now i s e s' queue begun ended) {t : Nat}
    (h : s'.stage.pending? = some t ∨ s'.stage.work? = some t) :
    (s.stage.pending? = some t ∨ s.stage.work? = some t) ∨ (i, t) ∈ p.taken e := by
  cases move <;>
    simp_all [taken, Stage.pending?, Stage.work?, Debt.pending?, Debt.work?, Slot.run, Slot.replace,
      Slot.release, Slot.renew]

/-- When an outcome is handed out the worker stands and has nothing to do. -/
theorem SlotMove.free_of_ended (move : SlotMove p now i s e s' queue begun ended) (h : s.Sound)
    {d : Delivery} (hd : d ∈ ended) : s'.alive = true ∧ s'.busy = false := by
  obtain ⟨halive, hbusy⟩ := h
  cases move <;> simp_all [Stage.hasWorker, Stage.work?, Debt.work?, Slot.release, Slot.renew]

/-- What ends in a slot was held there, or it has just been taken. -/
theorem SlotMove.held_of_ended (move : SlotMove p now i s e s' queue begun ended) {d : Delivery}
    (hd : d ∈ ended) : (s.stage.pending? = some d.ticket ∨ s.stage.work? = some d.ticket) ∨
      (i, d.ticket) ∈ p.taken e := by
  cases move <;>
    simp_all [taken, Stage.pending?, Stage.work?, Debt.pending?, Debt.work?]

/-- What is known of the slots behind a run. -/
structure Known (workers : Nat) (p : Pool) (history : List (Nat × PoolEvent)) (q : Pool) : Prop where
  length : q.slots.length = workers
  sound : ∀ {i : Nat} {s : Slot}, q.slots[i]? = some s → s.Sound
  restarts : ∀ {i : Nat} {s : Slot}, q.slots[i]? = some s → s.restarts = relaunches history i
  open_ : ∀ {i : Nat} {s : Slot}, q.slots[i]? = some s → q.isShut = false → s.stage ≠ .stopped
  held : ∀ {i : Nat} {s : Slot} {t : Nat}, q.slots[i]? = some s →
    s.stage.pending? = some t ∨ s.stage.work? = some t → (i, t) ∈ p.takings history

theorem LastMove.sound (move : LastMove now s s' ended) : s'.Sound := by
  cases move <;> exact ⟨rfl, rfl⟩

theorem LastMove.restarts (move : LastMove now s s' ended) : s'.restarts = s.restarts := by
  cases move <;> rfl

section

variable {workers : Nat} {start : Pool} {history : List (Nat × PoolEvent)}
  (hk : Known workers start history q)
  (htakings : start.takings (history ++ [(now, e)]) = start.takings history ++ q.taken e)

include hk htakings

theorem Known.same (hslots : r.slots = q.slots) (hshut : r.isShut = false → q.isShut = false)
    (hnone : ∀ j, relaunches [(now, e)] j = 0) : Known workers start (history ++ [(now, e)]) r := by
  refine ⟨?_, ?_, ?_, ?_, ?_⟩ <;> rw [hslots]
  · exact hk.length
  · exact hk.sound
  · intro j x hx
    rw [relaunches_concat, hnone, Nat.add_zero]
    exact hk.restarts hx
  · exact fun hx h => hk.open_ hx (hshut h)
  · intro j x t hx ht
    rw [htakings]
    exact List.mem_append_left _ (hk.held hx ht)

theorem Known.set (found : q.slots[i]? = some s) (hslots : r.slots = q.slots.set i s')
    (hshut : r.isShut = q.isShut) (hsound : s'.Sound)
    (hrestarts : s'.restarts = s.restarts + relaunches [(now, e)] i)
    (hother : ∀ j, i ≠ j → relaunches [(now, e)] j = 0)
    (hopen : q.isShut = false → s'.stage = .stopped → s.stage = .stopped)
    (hheld : ∀ t, s'.stage.pending? = some t ∨ s'.stage.work? = some t →
      (s.stage.pending? = some t ∨ s.stage.work? = some t) ∨ (i, t) ∈ q.taken e) :
    Known workers start (history ++ [(now, e)]) r := by
  refine ⟨?_, ?_, ?_, ?_, ?_⟩ <;> rw [hslots]
  · rw [List.length_set]
    exact hk.length
  · intro j x hx
    obtain ⟨-, hx⟩ | ⟨-, rfl⟩ := getElem?_set_slots found hx
    · exact hk.sound hx
    · exact hsound
  · intro j x hx
    rw [relaunches_concat]
    obtain ⟨hij, hx⟩ | ⟨rfl, rfl⟩ := getElem?_set_slots found hx
    · rw [hother j hij]
      exact hk.restarts hx
    · rw [hrestarts, hk.restarts found]
  · intro j x hx h
    rw [hshut] at h
    obtain ⟨-, hx⟩ | ⟨-, rfl⟩ := getElem?_set_slots found hx
    · exact hk.open_ hx h
    · exact fun hstop => hk.open_ found h (hopen h hstop)
  · intro j x t hx ht
    rw [htakings]
    obtain ⟨-, hx⟩ | ⟨rfl, rfl⟩ := getElem?_set_slots found hx
    · exact List.mem_append_left _ (hk.held hx ht)
    · exact List.mem_append.2 ((hheld t ht).imp_left (hk.held found))

theorem Known.step (h : Step q now e r) : Known workers start (history ++ [(now, e)]) r := by
  cases h with
  | submit | withdraw => exact hk.same htakings rfl id fun _ => rfl
  | shutdown =>
    refine hk.same htakings rfl (fun h => ?_) fun _ => rfl
    cases h
  | slot found move =>
    exact hk.set htakings found rfl rfl (move.sound (hk.sound found)) move.restarts
      (fun j => move.relaunches_of_ne) (fun _ => move.open) fun t => move.held
  | stop found shut move =>
    refine hk.set htakings found (slots_dropQueue _ _) (isShut_dropQueue _ _) move.sound move.restarts
      (fun _ _ => rfl) (fun h => ?_) fun t ht => ?_
    · rw [shut] at h
      cases h
    · rw [move.stopped] at ht
      obtain ht | ht := ht <;> cases ht

end

end Moves

section Staff

variable {workers capacity : Nat} {p q : Pool} {history : List (Nat × PoolEvent)}

theorem known (hstart : start workers capacity = .ok p) (hrun : p.run? history = some q) :
    Known workers p history q := by
  refine run_induction (P := Known workers p) ?start ?step hrun
  case start =>
    have hnew {i : Nat} {s : Slot} (hs : p.slots[i]? = some s) : s = {} := by
      rw [start_eq hstart] at hs
      exact List.eq_of_mem_replicate (List.mem_of_getElem? hs)
    refine ⟨?_, ?_, ?_, ?_, ?_⟩
    · rw [start_eq hstart]
      exact List.length_replicate
    · intro i s hs
      rw [hnew hs]
      exact ⟨rfl, rfl⟩
    · intro i s hs
      rw [hnew hs]
      rfl
    · intro i s hs _
      rw [hnew hs]
      exact fun h => by cases h
    · intro i s t hs ht
      rw [hnew hs] at ht
      obtain ht | ht := ht <;> cases ht
  case step =>
    intro history q now e r hrun hstep hk
    exact hk.step (takings_concat hrun hstep) (step_cases hstep)

/-- A started pool keeps its slots, and what is told of a slot is what it is doing. -/
structure Staffed (workers : Nat) (p : Pool) (history : List (Nat × PoolEvent)) (q : Pool) : Prop where
  slots : q.slots.length = workers
  /-- before the shutdown a slot has no worker only while one is being replaced -/
  alive : q.isShut = false → ∀ {i : Nat} {s : Slot}, q.slots[i]? = some s →
    (s.alive = false ↔ ∃ debt failures retryAt, s.stage = .replacing debt failures retryAt)
  restarts : ∀ {i : Nat} {s : Slot}, q.slots[i]? = some s → s.restarts = relaunches history i
  /-- a slot is busy with a task that it has taken, that was begun and that has not ended -/
  busy : ∀ {i : Nat} {s : Slot}, q.slots[i]? = some s →
    (s.busy = true ↔ ∃ t, (i, t) ∈ p.takings history ∧ t ∈ q.begun ∧ t ∉ q.ended)
  /-- when the task of a slot ends, the slot has its worker and is not busy, or the pool is shut -/
  ended : ∀ {before after : List (Nat × PoolEvent)} {now i : Nat} {e : PoolEvent} {m r : Pool} {d : Delivery},
    history = before ++ (now, e) :: after → p.run? before = some m → m.step? now e = some r →
    d ∈ r.delivered.drop m.delivered.length → (i, d.ticket) ∈ p.takings history →
    r.isShut = true ∨ ∃ s, r.slots[i]? = some s ∧ s.alive = true ∧ s.busy = false

/-- What holds of the slots behind every run. -/
theorem staffed (hstart : start workers capacity = .ok p) (hrun : p.run? history = some q)
    (hnodup : (handedIn history).Nodup) : Staffed workers p history q := by
  have hk := known hstart hrun
  refine ⟨hk.length, ?_, hk.restarts, ?_, ?_⟩
  · intro hopen i s hs
    rw [(hk.sound hs).alive]
    have hstop := hk.open_ hs hopen
    cases hstage : s.stage with
    | idle | running => exact ⟨(by cases ·), fun ⟨_, _, _, h⟩ => (by cases h)⟩
    | replacing debt failures retryAt => exact ⟨fun _ => ⟨_, _, _, rfl⟩, fun _ => rfl⟩
    | stopped => exact absurd hstage hstop
  · intro i s hs
    have hworking (t : Nat) := (account hstart hrun t).working_iff (List.nodup_iff_count_le_one.1 hnodup t)
    rw [(hk.sound hs).busy, Option.isSome_iff_exists]
    constructor
    · rintro ⟨t, ht⟩
      exact ⟨t, hk.held hs (.inr ht), (hworking t).1 (mem_working hs ht)⟩
    · rintro ⟨t, htaken, ht⟩
      obtain ⟨x, hx, hwork⟩ := List.mem_filterMap.1 ((hworking t).2 ht)
      obtain ⟨j, hj⟩ := List.mem_iff_getElem?.1 hx
      -- the task was taken once, so the slot that works on it is the one that took it
      have hpair := List.inj_on_of_nodup_map (nodup_takings hstart hrun hnodup)
        (hk.held hj (.inr hwork)) htaken rfl
      cases hpair
      rw [hs] at hj
      cases hj
      exact ⟨t, hwork⟩
  · intro before after now i e m r d hsplit hbefore hstep hd htaken
    have hm := known hstart hbefore
    cases step_cases hstep with
    | submit | withdraw | shutdown =>
      rw [List.drop_length] at hd
      cases hd
    | stop _ shut =>
      rw [isShut_dropQueue]
      exact .inl shut
    | slot found move =>
      rw [moved, List.drop_left] at hd
      obtain ⟨hearlier, hnow⟩ := mem_takings hsplit hbefore
      have hown := (move.held_of_ended hd).elim (fun h => hearlier (hm.held found h)) (fun h => hnow h)
      have hpair := List.inj_on_of_nodup_map (nodup_takings hstart hrun hnodup) htaken hown rfl
      cases hpair
      exact .inr ⟨_, List.getElem?_set_self (List.getElem?_eq_some_iff.1 found).1,
        move.free_of_ended (hm.sound found) hd⟩

end Staff

/-- A worker is killed at its task and another one dies idle; the first new worker fails to start once. -/
def workday : List (Nat × PoolEvent) :=
  [(0, .submit (idleTask 1)), (1, .take 0), (2, .kill 0), (3, .finish 0 .killed), (3, .relaunchFails 0),
    (4, .exit 1), (5, .relaunch 1), (103, .relaunch 0), (104, .submit (idleTask 2)), (105, .take 1)]

theorem staffed_workday : ∃ p q, start 2 3 = .ok p ∧ p.run? workday = some q ∧
    (handedIn workday).Nodup ∧ Staffed 2 p workday q ∧ q.isShut = false ∧
    q.status = ⟨2, 2, 1, 2, 1⟩ :=
  ⟨_, _, rfl, rfl, by decide, @staffed 2 3 _ _ _ rfl rfl (by decide), rfl, rfl⟩

end Pool

end Pseudoscribe
