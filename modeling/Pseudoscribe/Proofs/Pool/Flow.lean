import Mathlib.Data.List.Nodup
import Pseudoscribe.Proofs.Pool.Run

/-!
# Where the tasks of a pool are

A task that is handed in waits in the queue until a slot takes it.  A taken task that is not begun is pending
in its slot, and a begun one is worked on until its outcome is handed out.  A step moves tasks from one of
these places to the next, and behind a run the places hold what was handed in, task by task.
-/

namespace Pseudoscribe

namespace Debt

def pending? : Debt → Option Nat
  | task t => some t.ticket
  | _ => none

def work? : Debt → Option Nat
  | outcome t _ => some t.ticket
  | _ => none

end Debt

namespace Stage

/-- The task that a slot has taken and not begun. -/
def pending? : Stage → Option Nat
  | replacing debt _ _ => debt.pending?
  | _ => none

/-- The task that a slot has begun and whose outcome is not handed out. -/
def work? : Stage → Option Nat
  | running task _ => some task.ticket
  | replacing debt _ _ => debt.work?
  | _ => none

end Stage

/-- The task that a step hands in. -/
def PoolEvent.handedIn : PoolEvent → List Nat
  | submit task => [task.ticket]
  | _ => []

namespace Pool

def waiting (p : Pool) : List Nat := p.queue.map (·.ticket)

def pending (p : Pool) : List Nat := p.slots.filterMap (·.stage.pending?)

def working (p : Pool) : List Nat := p.slots.filterMap (·.stage.work?)

def begun (p : Pool) : List Nat := p.started.map (·.1)

def ended (p : Pool) : List Nat := p.delivered.map (·.ticket)

/-- The tasks that have ended with an outcome. -/
def answered (p : Pool) : List Nat := (p.delivered.filter (·.outcome.isSome)).map (·.ticket)

/-- The tasks that have ended without one. -/
def dropped (p : Pool) : List Nat := (p.delivered.filter (·.outcome.isNone)).map (·.ticket)

/-- The task that a step takes from the queue, with the slot that takes it. -/
def taken (p : Pool) : PoolEvent → List (Nat × Nat)
  | .take i | .takeDead i => (p.queue.take 1).map fun task => (i, task.ticket)
  | _ => []

/-- The tasks that were taken in a run, each with its slot. -/
def takings (p : Pool) : List (Nat × PoolEvent) → List (Nat × Nat)
  | [] => []
  | (now, e) :: rest => p.taken e ++ (p.step? now e).elim [] (takings · rest)

/-- The tasks that were handed in. -/
def handedIn (history : List (Nat × PoolEvent)) : List Nat := history.flatMap (·.2.handedIn)

@[simp] theorem handedIn_concat (history : List (Nat × PoolEvent)) (now : Nat) (e : PoolEvent) :
    handedIn (history ++ [(now, e)]) = handedIn history ++ e.handedIn := by
  simp only [handedIn, List.flatMap_append, List.flatMap_singleton]

theorem takings_append {p q : Pool} {xs : List (Nat × PoolEvent)} (h : p.run? xs = some q)
    (ys : List (Nat × PoolEvent)) : p.takings (xs ++ ys) = p.takings xs ++ q.takings ys := by
  induction xs generalizing p with
  | nil =>
    cases h
    rfl
  | cons x xs ih =>
    obtain ⟨now, e⟩ := x
    obtain ⟨m, hm, hrest⟩ := Option.bind_eq_some_iff.1 h
    rw [List.cons_append, takings, takings, hm, Option.elim_some, Option.elim_some, ih hrest,
      List.append_assoc]

theorem takings_concat {p q r : Pool} {history : List (Nat × PoolEvent)} {now : Nat} {e : PoolEvent}
    (h : p.run? history = some q) (hstep : q.step? now e = some r) :
    p.takings (history ++ [(now, e)]) = p.takings history ++ q.taken e := by
  rw [takings_append h, takings, hstep, Option.elim_some, takings, List.append_nil]

/-! ## Counting one task -/

theorem count_ended (p : Pool) (t : Nat) :
    p.ended.count t = p.answered.count t + p.dropped.count t := by
  unfold ended answered dropped
  induction p.delivered with
  | nil => rfl
  | cons d ds ih =>
    rw [List.map_cons, List.count_cons, ih]
    cases hd : d.outcome with
    | none =>
      rw [List.filter_cons_of_neg (by simp [hd]), List.filter_cons_of_pos (by simp [hd]), List.map_cons,
        List.count_cons]
      omega
    | some outcome =>
      rw [List.filter_cons_of_pos (by simp [hd]), List.filter_cons_of_neg (by simp [hd]), List.map_cons,
        List.count_cons]
      omega

theorem count_filterMap_set {slots : List Slot} {i : Nat} {s : Slot} (found : slots[i]? = some s)
    (s' : Slot) (f : Slot → Option Nat) (t : Nat) :
    ((slots.set i s').filterMap f).count t + (f s).toList.count t =
      (slots.filterMap f).count t + (f s').toList.count t := by
  induction slots generalizing i with
  | nil => cases found
  | cons a slots ih =>
    have hcons (x : Slot) (xs : List Slot) : ((x :: xs).filterMap f).count t =
        (f x).toList.count t + (xs.filterMap f).count t := by
      cases hx : f x with
      | none => rw [List.filterMap_cons_none hx]; simp
      | some y => rw [List.filterMap_cons_some hx, ← List.singleton_append, List.count_append]; rfl
    cases i with
    | zero =>
      cases found
      rw [List.set_cons_zero, hcons, hcons]
      omega
    | succ i =>
      have h := ih found
      rw [List.set_cons_succ, hcons, hcons]
      omega

/-- Where a step has moved a task, as counts. -/
structure Flow (p : Pool) (e : PoolEvent) (q : Pool) (t : Nat) : Prop where
  queue : q.waiting.count t + ((p.taken e).map (·.2)).count t + q.dropped.count t =
    p.waiting.count t + p.dropped.count t + e.handedIn.count t
  slots : q.pending.count t + q.working.count t + q.answered.count t =
    p.pending.count t + p.working.count t + p.answered.count t + ((p.taken e).map (·.2)).count t
  begun : q.begun.count t + q.pending.count t ≤
    p.begun.count t + p.pending.count t + ((p.taken e).map (·.2)).count t
  working : q.working.count t + p.begun.count t ≤ p.working.count t + q.begun.count t

section Moves

variable {p : Pool} {now i : Nat} {s s' : Slot} {e : PoolEvent} {queue : List PoolTask}
  {begun : List (Nat × Nat)} {ended : List Delivery}

theorem mem_working {t : Nat} (found : p.slots[i]? = some s) (h : s.stage.work? = some t) :
    t ∈ p.working :=
  List.mem_filterMap.2 ⟨s, List.mem_of_getElem? found, h⟩

theorem SlotMove.count_queue (move : SlotMove p now i s e s' queue begun ended) (t : Nat) :
    (queue.map (·.ticket)).count t + ((p.taken e).map (·.2)).count t = p.waiting.count t := by
  cases move <;> simp [waiting, taken, List.count_cons, *]

theorem SlotMove.count_slot (move : SlotMove p now i s e s' queue begun ended) (t : Nat) :
    s'.stage.pending?.toList.count t + s'.stage.work?.toList.count t + (ended.map (·.ticket)).count t =
      s.stage.pending?.toList.count t + s.stage.work?.toList.count t +
        ((p.taken e).map (·.2)).count t := by
  cases move <;>
    simp [taken, Stage.pending?, Stage.work?, Debt.pending?, Debt.work?, Slot.run, Slot.replace,
      Slot.release, *]

theorem SlotMove.count_begun (move : SlotMove p now i s e s' queue begun ended) (t : Nat) :
    (begun.map (·.1)).count t + s'.stage.pending?.toList.count t ≤
      s.stage.pending?.toList.count t + ((p.taken e).map (·.2)).count t := by
  cases move <;>
    simp [taken, Stage.pending?, Debt.pending?, Slot.run, Slot.replace, Slot.release, *]

theorem SlotMove.count_work (move : SlotMove p now i s e s' queue begun ended) (t : Nat) :
    s'.stage.work?.toList.count t ≤ s.stage.work?.toList.count t + (begun.map (·.1)).count t := by
  cases move <;> simp [Stage.work?, Debt.work?, Slot.run, Slot.replace, Slot.release, *]

theorem SlotMove.outcome_isSome (move : SlotMove p now i s e s' queue begun ended) :
    ∀ d ∈ ended, d.outcome.isSome := by
  cases move <;> simp

theorem SlotMove.handedIn (move : SlotMove p now i s e s' queue begun ended) : e.handedIn = [] := by
  cases move <;> rfl

theorem LastMove.stopped (move : LastMove now s s' ended) : s'.stage = .stopped := by
  cases move <;> rfl

theorem LastMove.count_slot (move : LastMove now s s' ended) (t : Nat) :
    (ended.map (·.ticket)).count t = s.stage.pending?.toList.count t + s.stage.work?.toList.count t := by
  cases move <;> simp [Stage.pending?, Stage.work?, Debt.pending?, Debt.work?, *]

theorem LastMove.outcome_isSome (move : LastMove now s s' ended) : ∀ d ∈ ended, d.outcome.isSome := by
  cases move <;> simp

/-- A slot that has moved moves tasks as it says. -/
theorem flow_moved (found : p.slots[i]? = some s) {t : Nat} (hin : e.handedIn = [])
    (houtcome : ∀ d ∈ ended, d.outcome.isSome)
    (hqueue : (queue.map (·.ticket)).count t + ((p.taken e).map (·.2)).count t = p.waiting.count t)
    (hslot : s'.stage.pending?.toList.count t + s'.stage.work?.toList.count t +
      (ended.map (·.ticket)).count t =
        s.stage.pending?.toList.count t + s.stage.work?.toList.count t +
          ((p.taken e).map (·.2)).count t)
    (hbegun : (begun.map (·.1)).count t + s'.stage.pending?.toList.count t ≤
      s.stage.pending?.toList.count t + ((p.taken e).map (·.2)).count t)
    (hwork : s'.stage.work?.toList.count t ≤ s.stage.work?.toList.count t + (begun.map (·.1)).count t) :
    Flow p e (p.moved i s' queue begun ended) t := by
  have hpending : (p.moved i s' queue begun ended).pending.count t + s.stage.pending?.toList.count t =
      p.pending.count t + s'.stage.pending?.toList.count t := count_filterMap_set found s' _ t
  have hworking : (p.moved i s' queue begun ended).working.count t + s.stage.work?.toList.count t =
      p.working.count t + s'.stage.work?.toList.count t := count_filterMap_set found s' _ t
  have hanswered : (p.moved i s' queue begun ended).answered = p.answered ++ ended.map (·.ticket) := by
    rw [answered, moved, List.filter_append, List.filter_eq_self.2 houtcome, List.map_append, answered]
  have hdropped : (p.moved i s' queue begun ended).dropped = p.dropped := by
    have hnone : ended.filter (·.outcome.isNone) = [] := by
      rw [List.filter_eq_nil_iff]
      intro d hd
      rw [Option.isNone_iff_eq_none]
      exact Option.ne_none_iff_isSome.2 (houtcome d hd)
    rw [dropped, moved, List.filter_append, hnone, List.append_nil, dropped]
  have hbegan : (p.moved i s' queue begun ended).begun = p.begun ++ begun.map (·.1) := List.map_append
  have hwaiting : (p.moved i s' queue begun ended).waiting = queue.map (·.ticket) := rfl
  refine ⟨?_, ?_, ?_, ?_⟩
  · rw [hin, hwaiting, hdropped, List.count_nil]
    omega
  · rw [hanswered, List.count_append]
    omega
  · rw [hbegan, List.count_append]
    omega
  · rw [hbegan, List.count_append]
    omega

theorem Flow.dropQueue {q : Pool} {t : Nat} (h : Flow p e q t) : Flow p e (q.dropQueue now) t := by
  unfold Pool.dropQueue
  split
  · have hanswered : (q.delivered ++ q.queue.map fun x => (⟨x.ticket, now, none⟩ : Delivery)).filter
        (·.outcome.isSome) = q.delivered.filter (·.outcome.isSome) := by
      simp [List.filter_append]
    have hdropped : (((q.delivered ++ q.queue.map fun x => (⟨x.ticket, now, none⟩ : Delivery)).filter
        (·.outcome.isNone)).map (·.ticket)) = q.dropped ++ q.waiting := by
      have hall : (q.queue.map fun x => (⟨x.ticket, now, none⟩ : Delivery)).filter (·.outcome.isNone) =
          q.queue.map fun x => ⟨x.ticket, now, none⟩ := List.filter_eq_self.2 (by simp)
      rw [List.filter_append, hall, List.map_append, List.map_map]
      rfl
    refine ⟨?_, ?_, h.begun, h.working⟩
    · have hqueue := h.queue
      rw [dropped, hdropped, List.count_append]
      simp only [waiting, List.map_nil, List.count_nil] at hqueue ⊢
      omega
    · have hslots := h.slots
      rw [answered] at hslots ⊢
      rw [hanswered]
      exact hslots
  · exact h

/-- Every step moves a task from one place to the next. -/
theorem Step.flow {q : Pool} (h : Step p now e q) (t : Nat) : Flow p e q t := by
  cases h with
  | submit task =>
    refine ⟨?_, rfl, Nat.le_refl _, Nat.le_refl _⟩
    have hwaiting : (p.queue ++ [task]).map (·.ticket) = p.waiting ++ [task.ticket] := List.map_append
    simp only [waiting, hwaiting, List.count_append, taken, List.map_nil, List.count_nil,
      PoolEvent.handedIn, dropped]
    omega
  | withdraw => exact ⟨rfl, rfl, Nat.le_refl _, Nat.le_refl _⟩
  | shutdown => exact ⟨rfl, rfl, Nat.le_refl _, Nat.le_refl _⟩
  | slot found move =>
    exact flow_moved found move.handedIn move.outcome_isSome (move.count_queue t) (move.count_slot t)
      (move.count_begun t) (move.count_work t)
  | stop found _ move =>
    refine Flow.dropQueue (flow_moved found rfl move.outcome_isSome rfl ?_ ?_ ?_)
    · rw [move.stopped, move.count_slot]
      exact Nat.zero_add _
    · rw [move.stopped]
      exact Nat.zero_le _
    · rw [move.stopped]
      exact Nat.zero_le _

end Moves

/-! ## Behind a run -/

/-- Where a task is behind a run, as counts. -/
structure Account (p : Pool) (history : List (Nat × PoolEvent)) (q : Pool) (t : Nat) : Prop where
  queue : q.waiting.count t + ((p.takings history).map (·.2)).count t + q.dropped.count t =
    (handedIn history).count t
  slots : q.pending.count t + q.working.count t + q.answered.count t =
    ((p.takings history).map (·.2)).count t
  begun : q.begun.count t + q.pending.count t ≤ ((p.takings history).map (·.2)).count t
  working : q.working.count t ≤ q.begun.count t

section Once

variable {workers capacity : Nat} {p q : Pool} {history : List (Nat × PoolEvent)}

theorem account (hstart : start workers capacity = .ok p) (hrun : p.run? history = some q) (t : Nat) :
    Account p history q t := by
  refine run_induction (P := (Account p · · t)) ?start ?step hrun
  case start =>
    have hnone (f : Slot → Option Nat) (hf : f {} = none) : p.slots.filterMap f = [] := by
      rw [start_eq hstart, List.filterMap_eq_nil_iff]
      intro s hs
      rw [List.eq_of_mem_replicate hs, hf]
    rw [start_eq hstart] at hnone ⊢
    refine ⟨rfl, ?_, ?_, ?_⟩
    · rw [pending, working, hnone _ rfl, hnone _ rfl]
      rfl
    · rw [pending, hnone _ rfl]
      exact Nat.le_refl _
    · rw [working, hnone _ rfl]
      exact Nat.le_refl _
  case step =>
    intro history q now e r hrun hstep ih
    have htakings := takings_concat hrun hstep
    obtain ⟨hqueue, hslots, hbegun, hworking⟩ := ih
    obtain ⟨hqueue', hslots', hbegun', hworking'⟩ := (step_cases hstep).flow t
    refine ⟨?_, ?_, ?_, ?_⟩
    · rw [htakings, List.map_append, List.count_append, handedIn_concat, List.count_append]
      omega
    · rw [htakings, List.map_append, List.count_append]
      omega
    · rw [htakings, List.map_append, List.count_append]
      omega
    · omega

theorem mem_waiting_of_taken {m : Pool} {e : PoolEvent} {t : Nat} (ht : t ∈ (m.taken e).map (·.2)) :
    t ∈ m.waiting := by
  obtain ⟨x, hx, rfl⟩ := List.mem_map.1 ht
  cases e with
  | take | takeDead =>
    obtain ⟨task, htask, rfl⟩ := List.mem_map.1 hx
    exact List.mem_map_of_mem (List.mem_of_mem_take htask)
  | _ => cases hx

/-- What was taken on the way of a run was taken in the run. -/
theorem mem_takings {before after : List (Nat × PoolEvent)} {now : Nat} {e : PoolEvent} {m : Pool}
    (hsplit : history = before ++ (now, e) :: after) (hbefore : p.run? before = some m) :
    p.takings before ⊆ p.takings history ∧ m.taken e ⊆ p.takings history := by
  rw [hsplit, takings_append hbefore, takings]
  exact ⟨List.subset_append_left _ _, fun x hx => List.mem_append_right _ (List.mem_append_left _ hx)⟩

/-- A task that was handed in once is worked on from its begin to its end. -/
theorem Account.working_iff {t : Nat} (ha : Account p history q t) (hone : (handedIn history).count t ≤ 1) :
    t ∈ q.working ↔ t ∈ q.begun ∧ t ∉ q.ended := by
  have hended := count_ended q t
  obtain ⟨hqueue, hslots, hbegun, hworking⟩ := ha
  rw [← List.count_pos_iff, ← List.count_pos_iff, ← List.count_eq_zero]
  omega

/-- Nothing has become of a task that waits. -/
theorem Account.fresh {t : Nat} (ha : Account p history q t) (hone : (handedIn history).count t ≤ 1)
    (ht : t ∈ q.waiting) : t ∉ q.begun ∧ t ∉ q.working ∧ t ∉ q.ended := by
  have hwaiting := List.count_pos_iff.2 ht
  have hended := count_ended q t
  obtain ⟨hqueue, hslots, hbegun, hworking⟩ := ha
  simp only [← List.count_eq_zero]
  omega

variable (hstart : start workers capacity = .ok p) (hrun : p.run? history = some q)
  (hnodup : (handedIn history).Nodup)

include hstart hrun hnodup

theorem nodup_takings : ((p.takings history).map (·.2)).Nodup := by
  rw [List.nodup_iff_count_le_one] at hnodup ⊢
  intro t
  have hone := hnodup t
  obtain ⟨hqueue, -, -, -⟩ := account hstart hrun t
  omega

theorem nodup_begun : q.begun.Nodup := by
  rw [List.nodup_iff_count_le_one] at hnodup ⊢
  intro t
  have hone := hnodup t
  obtain ⟨hqueue, -, hbegun, -⟩ := account hstart hrun t
  omega

theorem nodup_ended : q.ended.Nodup := by
  rw [List.nodup_iff_count_le_one] at hnodup ⊢
  intro t
  have hone := hnodup t
  have hended := count_ended q t
  obtain ⟨hqueue, hslots, -, -⟩ := account hstart hrun t
  omega

end Once

/-- A task that has ended once is found with what became of it. -/
theorem find?_delivered {q : Pool} (hnodup : q.ended.Nodup) {d : Delivery} (hd : d ∈ q.delivered) :
    q.delivered.find? (·.ticket == d.ticket) = some d := by
  cases hf : q.delivered.find? (·.ticket == d.ticket) with
  | none => exact absurd (beq_self_eq_true _) (List.find?_eq_none.1 hf d hd)
  | some d' =>
    have hticket : d'.ticket = d.ticket := by
      simpa only [beq_iff_eq] using List.find?_some hf
    rw [List.inj_on_of_nodup_map hnodup (List.mem_of_find?_eq_some hf) hd hticket]

end Pool

end Pseudoscribe
