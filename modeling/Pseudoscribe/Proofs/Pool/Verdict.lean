import Pseudoscribe.Proofs.Pool.Flow

/-!
# What is told of a task that has ended

The outcome of a task whose worker has broken down or was killed is held back until a new worker stands, while
whoever waits for it has a limit: the time of the task and the grace.  The outcome that is handed out is
never another one, and it is told unless the limit has passed.
-/

namespace Pseudoscribe

namespace Pool

/-! ## The limit of a wait -/

/-- When the wait for a task that was begun ends at the latest. -/
def waitLimit (now since : Nat) (timeout grace : Duration) : Nat := max now since + (timeout + grace).ticks

theorem wait?_given (now since time : Nat) (timeout grace : Duration) (outcome : TaskOutcome) :
    Collected.wait? now timeout grace (.given since ()) (.given time outcome) =
      some (if max now time ≤ waitLimit now since timeout grace then ⟨outcome, max now time, false⟩
        else ⟨.timedOut timeout, waitLimit now since timeout grace, true⟩) := by
  rw [apply_ite some]
  rfl

theorem wait?_never (now since : Nat) (timeout grace : Duration) :
    Collected.wait? now timeout grace (.given since ()) .never =
      some ⟨.timedOut timeout, waitLimit now since timeout grace, true⟩ :=
  rfl

theorem ticks_le_add (a b : Duration) : a.ticks ≤ (a + b).ticks :=
  Nat.div_le_div_right (Nat.add_le_add_right (Nat.le_add_right _ _) _)

/-- What comes within the time of the task comes before the limit. -/
theorem le_waitLimit {since time : Nat} {timeout : Duration} (h : time ≤ since + timeout.ticks) (now : Nat)
    (grace : Duration) : max now time ≤ waitLimit now since timeout grace := by
  have := ticks_le_add timeout grace
  unfold waitLimit
  omega

/-! ## Outcomes that are held back -/

/-- A slot holds the outcome of a task back. -/
def Owes (q : Pool) (i : Nat) (task : PoolTask) (outcome : TaskOutcome) : Prop :=
  ∃ s failures retryAt, q.slots[i]? = some s ∧ s.stage = .replacing (.outcome task outcome) failures retryAt

section Moves

variable {p q : Pool} {now i : Nat} {s s' : Slot} {e : PoolEvent} {queue : List PoolTask}
  {begun : List (Nat × Nat)} {ended : List Delivery} {task : PoolTask} {outcome : TaskOutcome}

theorem SlotMove.owes (move : SlotMove p now i s e s' queue begun ended) {failures retryAt : Nat}
    (h : s.stage = .replacing (.outcome task outcome) failures retryAt) :
    (∃ failures retryAt, s'.stage = .replacing (.outcome task outcome) failures retryAt) ∨
      ⟨task.ticket, now, some outcome⟩ ∈ ended := by
  cases move <;> simp_all

theorem LastMove.owes (move : LastMove now s s' ended) {failures retryAt : Nat}
    (h : s.stage = .replacing (.outcome task outcome) failures retryAt) :
    ⟨task.ticket, now, some outcome⟩ ∈ ended := by
  cases move <;> simp_all

/-- What a slot holds back is held back further or handed out. -/
theorem Owes.step (ho : Owes p i task outcome) (h : Step p now e q) :
    Owes q i task outcome ∨ ⟨task.ticket, now, some outcome⟩ ∈ q.delivered := by
  obtain ⟨s, failures, retryAt, hs, hstage⟩ := ho
  cases h with
  | submit | withdraw | shutdown => exact .inl ⟨s, failures, retryAt, hs, hstage⟩
  | @slot _ j s₁ s' queue begun ended found move =>
    by_cases hji : j = i
    · subst hji
      rw [hs] at found
      cases found
      refine (move.owes hstage).imp (fun ⟨failures, retryAt, hstage⟩ => ?_) (List.mem_append_right _)
      exact ⟨s', failures, retryAt, List.getElem?_set_self (List.getElem?_eq_some_iff.1 hs).1, hstage⟩
    · exact .inl ⟨s, failures, retryAt, (List.getElem?_set_ne hji).trans hs, hstage⟩
  | @stop j s₁ s' ended found shut move =>
    by_cases hji : j = i
    · subst hji
      rw [hs] at found
      cases found
      obtain ⟨dropped, hd, -⟩ := delivered_dropQueue (p.moved j s' p.queue [] ended) now
      rw [hd]
      exact .inr (List.mem_append_left _ (List.mem_append_right _ (move.owes hstage)))
    · refine .inl ⟨s, failures, retryAt, ?_, hstage⟩
      rw [slots_dropQueue]
      exact (List.getElem?_set_ne hji).trans hs

theorem Owes.run {history : List (Nat × PoolEvent)} (ho : Owes p i task outcome)
    (h : p.run? history = some q) :
    Owes q i task outcome ∨ ∃ time, ⟨task.ticket, time, some outcome⟩ ∈ q.delivered := by
  refine run_induction (P := fun _ q =>
    Owes q i task outcome ∨ ∃ time, ⟨task.ticket, time, some outcome⟩ ∈ q.delivered) (.inl ho) ?_ h
  intro _ q now e r _ hstep ih
  obtain ho | ⟨time, hd⟩ := ih
  · exact (ho.step (step_cases hstep)).imp_right fun hd => ⟨now, hd⟩
  · exact .inr ⟨time, (step_cases hstep).delivered hd⟩

theorem Owes.mem_working (ho : Owes q i task outcome) : task.ticket ∈ q.working := by
  obtain ⟨s, failures, retryAt, hs, hstage⟩ := ho
  exact Pool.mem_working hs (by rw [hstage]; rfl)

theorem le_of_mayFinish {since : Nat} {how : Ending} (h : p.mayFinish now s task since how = true) :
    now ≤ since + task.timeout.ticks := by
  cases how <;> simp_all [mayFinish]

/-- What a finish leads to: the answer is handed out at once, anything else is held back. -/
theorem owes_of_finish {since : Nat} {how : Ending} (hs : p.slots[i]? = some s)
    (running : s.stage = .running task since) (h : p.step? now (.finish i how) = some q) :
    now ≤ since + task.timeout.ticks ∧
      if how.keepsWorker then ⟨task.ticket, now, some (how.outcome task)⟩ ∈ q.delivered
      else Owes q i task (how.outcome task) := by
  cases step_cases h with
  | slot found move =>
    cases move with
    | answers task' since' answer running' inTime =>
      rw [hs] at found
      cases found
      rw [running] at running'
      cases running'
      exact ⟨inTime, List.mem_append_right _ (.head _)⟩
    | fails task' since' how killPending running' fault may =>
      rw [hs] at found
      cases found
      rw [running] at running'
      cases running'
      refine ⟨le_of_mayFinish may, ?_⟩
      rw [fault]
      exact ⟨_, 0, now, List.getElem?_set_self (List.getElem?_eq_some_iff.1 hs).1, rfl⟩

end Moves

/-! ## When a task was begun -/

theorem SlotMove.started {p : Pool} {now i : Nat} {s s' : Slot} {e : PoolEvent} {queue : List PoolTask}
    {begun : List (Nat × Nat)} {ended : List Delivery} (move : SlotMove p now i s e s' queue begun ended)
    {task : PoolTask} {since : Nat} (h : s'.stage = .running task since) :
    s.stage = .running task since ∨ (task.ticket, since) ∈ begun := by
  cases move <;> simp_all [Slot.run, Slot.replace, Slot.release, Slot.renew]

theorem started_of_running {workers capacity : Nat} {p q : Pool} {history : List (Nat × PoolEvent)}
    (hstart : start workers capacity = .ok p) (hrun : p.run? history = some q) {i : Nat} {s : Slot}
    {task : PoolTask} {since : Nat} (hs : q.slots[i]? = some s) (running : s.stage = .running task since) :
    (task.ticket, since) ∈ q.started := by
  refine run_induction (P := fun _ q => ∀ {i : Nat} {s : Slot}, q.slots[i]? = some s →
    s.stage = .running task since → (task.ticket, since) ∈ q.started) ?start ?step hrun hs running
  case start =>
    intro i s hs running
    rw [start_eq hstart] at hs
    rw [List.eq_of_mem_replicate (List.mem_of_getElem? hs)] at running
    cases running
  case step =>
    intro _ q now e r _ hstep ih j x hx running
    have h := step_cases hstep
    have hkept := h.started
    cases h with
    | submit | withdraw | shutdown => exact ih hx running
    | slot found move =>
      obtain ⟨-, hx⟩ | ⟨-, rfl⟩ := getElem?_set_slots found hx
      · exact hkept (ih hx running)
      · exact (move.started running).elim (fun h => hkept (ih found h)) (List.mem_append_right _)
    | stop found _ move =>
      rw [slots_dropQueue] at hx
      obtain ⟨-, hx⟩ | ⟨-, rfl⟩ := getElem?_set_slots found hx
      · exact hkept (ih hx running)
      · rw [move.stopped] at running
        cases running

theorem run_started {p q : Pool} {history : List (Nat × PoolEvent)} (h : p.run? history = some q) :
    p.started ⊆ q.started :=
  run_induction (P := fun _ q => p.started ⊆ q.started) (List.Subset.refl _)
    (fun _ hstep ih => List.Subset.trans ih (step_cases hstep).started) h

theorem run_delivered {p q : Pool} {history : List (Nat × PoolEvent)} (h : p.run? history = some q) :
    p.delivered ⊆ q.delivered :=
  run_induction (P := fun _ q => p.delivered ⊆ q.delivered) (List.Subset.refl _)
    (fun _ hstep ih => List.Subset.trans ih (step_cases hstep).delivered) h

/-! ## The signals of a task -/

theorem startSignal_eq {q : Pool} (hnodup : q.begun.Nodup) {t since : Nat} (h : (t, since) ∈ q.started) :
    q.startSignal t = .given since () := by
  cases hl : q.started.lookup t with
  | none => exact absurd rfl (bne_iff_ne.1 (List.lookup_eq_none_iff.1 hl _ h))
  | some time =>
    obtain ⟨_, _, hsplit, -⟩ := List.lookup_eq_some_iff.1 hl
    have hmem : (t, time) ∈ q.started := by
      rw [hsplit]
      exact List.mem_append_right _ (.head _)
    cases List.inj_on_of_nodup_map hnodup h hmem rfl
    rw [startSignal, hl]

theorem outcomeSignal_given {q : Pool} (hnodup : q.ended.Nodup) {t time : Nat} {outcome : TaskOutcome}
    (h : ⟨t, time, some outcome⟩ ∈ q.delivered) : q.outcomeSignal t = .given time outcome := by
  rw [outcomeSignal, find?_delivered hnodup h]

theorem outcomeSignal_never {q : Pool} {t : Nat} (h : t ∉ q.ended) : q.outcomeSignal t = .never := by
  have hfind : q.delivered.find? (·.ticket == t) = none := by
    rw [List.find?_eq_none]
    exact fun d hd hdt => h (List.mem_map.2 ⟨d, hd, beq_iff_eq.1 hdt⟩)
  rw [outcomeSignal, hfind]

/-! ## The verdict -/

/-- What a wait says of a task that was begun at `since` in a slot and has ended with a result or with a
crash at `now`. -/
structure Verdict (task : PoolTask) (i since now : Nat) (how : Ending) (q : Pool) : Prop where
  completed : ∀ answer, how = .answered answer → ∀ begin grace,
    Collected.wait? begin task.timeout grace (q.startSignal task.ticket) (q.outcomeSignal task.ticket) =
      some ⟨.completed answer, max begin now, false⟩
  /-- the crash is held back or was handed out, and it is told if it was handed out within the limit -/
  crashed : ∀ reason, how.outcome task = .crashed reason →
    (Owes q i task (.crashed reason) ∧ ∀ begin grace,
      Collected.wait? begin task.timeout grace (q.startSignal task.ticket) (q.outcomeSignal task.ticket) =
        some ⟨.timedOut task.timeout, waitLimit begin since task.timeout grace, true⟩) ∨
    ∃ time, ⟨task.ticket, time, some (.crashed reason)⟩ ∈ q.delivered ∧ ∀ begin grace,
      Collected.wait? begin task.timeout grace (q.startSignal task.ticket) (q.outcomeSignal task.ticket) =
        some (if max begin time ≤ waitLimit begin since task.timeout grace then
            ⟨.crashed reason, max begin time, false⟩
          else ⟨.timedOut task.timeout, waitLimit begin since task.timeout grace, true⟩)

/-- A task that was completed is told to be, and one that has crashed, if a new worker stands before the wait
has reached its limit. -/
theorem verdict {workers capacity : Nat} {p m q : Pool} {before after : List (Nat × PoolEvent)}
    {now i since : Nat} {s : Slot} {task : PoolTask} {how : Ending}
    (hstart : start workers capacity = .ok p) (hbefore : p.run? before = some m)
    (hs : m.slots[i]? = some s) (running : s.stage = .running task since)
    (hrun : p.run? (before ++ (now, .finish i how) :: after) = some q)
    (hnodup : (handedIn (before ++ (now, .finish i how) :: after)).Nodup) :
    Verdict task i since now how q := by
  obtain ⟨r, hfinish, hafter⟩ : ∃ r, m.step? now (.finish i how) = some r ∧ r.run? after = some q := by
    rw [run?_append, hbefore, Option.bind_some] at hrun
    exact Option.bind_eq_some_iff.1 hrun
  have hbegun := started_of_running hstart hbefore hs running
  have hstarted := startSignal_eq (nodup_begun hstart hrun hnodup)
    (run_started hafter ((step_cases hfinish).started hbegun))
  have hended := nodup_ended hstart hrun hnodup
  obtain ⟨inTime, hfinished⟩ := owes_of_finish hs running hfinish
  refine ⟨?_, ?_⟩
  · rintro answer rfl begin grace
    rw [hstarted, outcomeSignal_given hended (run_delivered hafter hfinished), wait?_given,
      if_pos (le_waitLimit inTime begin grace)]
    rfl
  · intro reason hreason
    have hkeeps : how.keepsWorker = false := by
      cases how with
      | answered => cases hreason
      | _ => rfl
    rw [hkeeps, hreason] at hfinished
    obtain howes | ⟨time, hd⟩ := Owes.run hfinished hafter
    · refine .inl ⟨howes, fun begin grace => ?_⟩
      have hone := List.nodup_iff_count_le_one.1 hnodup task.ticket
      have hworking := ((account hstart hrun task.ticket).working_iff hone).1 howes.mem_working
      rw [hstarted, outcomeSignal_never hworking.2, wait?_never]
    · refine .inr ⟨time, hd, fun begin grace => ?_⟩
      rw [hstarted, outcomeSignal_given hended hd, wait?_given]

/-- The first new worker fails to start, the second one stands. -/
theorem verdict_one_failure : ∃ p m q s, start 1 1 = .ok p ∧
    p.run? [(0, .submit (idleTask 1)), (0, .take 0)] = some m ∧ m.slots[0]? = some s ∧
    s.stage = .running (idleTask 1) 0 ∧
    p.run? [(0, .submit (idleTask 1)), (0, .take 0), (10, .finish 0 (.broken "lost")),
      (10, .relaunchFails 0), (110, .relaunch 0)] = some q ∧
    Verdict (idleTask 1) 0 0 10 (.broken "lost") q ∧
    q.delivered = [⟨1, 110, some (.crashed "lost")⟩] :=
  ⟨_, _, _, _, rfl, rfl, rfl, rfl, rfl,
    @verdict 1 1 _ _ _ [(0, .submit (idleTask 1)), (0, .take 0)]
      [(10, .relaunchFails 0), (110, .relaunch 0)] 10 0 0 _ (idleTask 1) (.broken "lost")
      rfl rfl rfl rfl rfl (by decide), rfl⟩

/-- After six failures the new worker stands when the limit of the wait has passed: the outcome that is handed
out is a crash, and the wait has told that the time ran out. -/
theorem timedOut_of_six_failures : ∃ p q, start 1 1 = .ok p ∧
    p.run? [(0, .submit (idleTask 1)), (0, .take 0), (0, .finish 0 (.broken "lost")),
      (0, .relaunchFails 0), (100, .relaunchFails 0), (300, .relaunchFails 0), (700, .relaunchFails 0),
      (1500, .relaunchFails 0), (3100, .relaunchFails 0), (6300, .relaunch 0)] = some q ∧
    q.delivered = [⟨1, 6300, some (.crashed "lost")⟩] ∧
    Collected.wait? 0 (idleTask 1).timeout (.ofMillis Collected.grace) (q.startSignal 1) (q.outcomeSignal 1) =
      some ⟨.timedOut (idleTask 1).timeout, 6000, true⟩ :=
  ⟨_, _, rfl, rfl, rfl, by decide +kernel⟩

end Pool

end Pseudoscribe
