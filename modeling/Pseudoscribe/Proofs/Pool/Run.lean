import Mathlib.Data.List.Induction
import Pseudoscribe.Pool.Basic

/-!
# Runs of a pool

A run is a list of steps, each with its time, that can be taken one after the other.  What a step does is
said once: it hands in a task, withdraws one, shuts the pool down, or moves one slot.  A move of a slot
changes the slot and takes tasks from the queue, and it may begin a task and end one.
-/

namespace Pseudoscribe

namespace Pool

/-- The pool after a slot has moved: the slot and the queue are new, tasks were begun and tasks have ended. -/
def moved (p : Pool) (i : Nat) (s : Slot) (queue : List PoolTask) (begun : List (Nat × Nat))
    (ended : List Delivery) : Pool :=
  { p with
    queue
    slots := p.slots.set i s
    started := p.started ++ begun
    delivered := p.delivered ++ ended }

/-- The moves of a slot: the event, the slot behind it, the tasks that still wait, and what was begun and
what has ended. -/
inductive SlotMove (p : Pool) (now i : Nat) (s : Slot) :
    PoolEvent → Slot → List PoolTask → List (Nat × Nat) → List Delivery → Prop
  | begins (task : PoolTask) (rest : List PoolTask) (idle : s.stage = .idle)
    (queue : p.queue = task :: rest) (wanted : p.isWithdrawn task.ticket = false) :
    SlotMove p now i s (.take i) (s.run task now) rest [(task.ticket, now)] []
  | skips (task : PoolTask) (rest : List PoolTask) (idle : s.stage = .idle)
    (queue : p.queue = task :: rest) (withdrawn : p.isWithdrawn task.ticket = true) :
    SlotMove p now i s (.take i) { s with stage := .idle } rest []
      [⟨task.ticket, now, some .cancelled⟩]
  | takesDead (task : PoolTask) (rest : List PoolTask) (idle : s.stage = .idle)
    (queue : p.queue = task :: rest) :
    SlotMove p now i s (.takeDead i) (s.replace (.task task) now) rest [] []
  | exits (idle : s.stage = .idle) :
    SlotMove p now i s (.exit i) (s.replace .nothing now) p.queue [] []
  | killedIdle (idle : s.stage = .idle) (pending : s.killPending = true) :
    SlotMove p now i s (.killIdle i) ({ s with killPending := false }.replace .nothing now) p.queue [] []
  | answers (task : PoolTask) (since : Nat) (answer : Answer) (running : s.stage = .running task since)
    (inTime : now ≤ since + task.timeout.ticks) :
    SlotMove p now i s (.finish i (.answered answer)) s.release p.queue []
      [⟨task.ticket, now, some (.completed answer)⟩]
  | fails (task : PoolTask) (since : Nat) (how : Ending) (killPending : Bool)
    (running : s.stage = .running task since) (fault : how.keepsWorker = false)
    (may : p.mayFinish now s task since how = true) :
    SlotMove p now i s (.finish i how)
      ({ s with killPending }.replace (.outcome task (how.outcome task)) now) p.queue [] []
  | renews (failures retryAt : Nat) (stage : s.stage = .replacing .nothing failures retryAt)
    (due : retryAt ≤ now) :
    SlotMove p now i s (.relaunch i) { s.renew with stage := .idle } p.queue [] []
  | delivers (task : PoolTask) (outcome : TaskOutcome) (failures retryAt : Nat)
    (stage : s.stage = .replacing (.outcome task outcome) failures retryAt) (due : retryAt ≤ now) :
    SlotMove p now i s (.relaunch i) s.renew.release p.queue [] [⟨task.ticket, now, some outcome⟩]
  | resumes (task : PoolTask) (failures retryAt : Nat)
    (stage : s.stage = .replacing (.task task) failures retryAt) (due : retryAt ≤ now)
    (wanted : p.isWithdrawn task.ticket = false) :
    SlotMove p now i s (.relaunch i) (s.renew.run task now) p.queue [(task.ticket, now)] []
  | discards (task : PoolTask) (failures retryAt : Nat)
    (stage : s.stage = .replacing (.task task) failures retryAt) (due : retryAt ≤ now)
    (withdrawn : p.isWithdrawn task.ticket = true) :
    SlotMove p now i s (.relaunch i) { s.renew with stage := .idle } p.queue []
      [⟨task.ticket, now, some .cancelled⟩]
  | retries (debt : Debt) (failures retryAt : Nat) (stage : s.stage = .replacing debt failures retryAt)
    (due : retryAt ≤ now) :
    SlotMove p now i s (.relaunchFails i)
      { s with stage := .replacing debt (failures + 1) (now + Slot.pause failures) } p.queue [] []
  | kills : SlotMove p now i s (.kill i) { s with killPending := true } p.queue [] []

/-- The last moves of a slot, after the shutdown. -/
inductive LastMove (now : Nat) (s : Slot) : Slot → List Delivery → Prop
  | idle (idle : s.stage = .idle) : LastMove now s s.halt []
  | nothing (failures retryAt : Nat) (stage : s.stage = .replacing .nothing failures retryAt) :
    LastMove now s s.halt []
  | outcome (task : PoolTask) (outcome : TaskOutcome) (failures retryAt : Nat)
    (stage : s.stage = .replacing (.outcome task outcome) failures retryAt) :
    LastMove now s s.release.halt [⟨task.ticket, now, some outcome⟩]
  | task (task : PoolTask) (failures retryAt : Nat)
    (stage : s.stage = .replacing (.task task) failures retryAt) :
    LastMove now s s.halt [⟨task.ticket, now, some .cancelled⟩]

/-- All that a step can do. -/
inductive Step (p : Pool) (now : Nat) : PoolEvent → Pool → Prop
  | submit (task : PoolTask) (open_ : p.allStopped = false) (room : p.hasRoom = true) :
    Step p now (.submit task) { p with queue := p.queue ++ [task] }
  | withdraw (ticket : Nat) :
    Step p now (.withdraw ticket) { p with withdrawn := ticket :: p.withdrawn }
  | shutdown : Step p now .shutdown { p with isShut := true }
  | slot {e : PoolEvent} {i : Nat} {s s' : Slot} {queue : List PoolTask} {begun : List (Nat × Nat)}
    {ended : List Delivery} (found : p.slots[i]? = some s)
    (move : SlotMove p now i s e s' queue begun ended) :
    Step p now e (p.moved i s' queue begun ended)
  | stop {i : Nat} {s s' : Slot} {ended : List Delivery} (found : p.slots[i]? = some s)
    (shut : p.isShut = true) (move : LastMove now s s' ended) :
    Step p now (.stop i) ((p.moved i s' p.queue [] ended).dropQueue now)

section Inversion

variable {p q : Pool} {now i : Nat} {s : Slot}

theorem step_dispatch {e : PoolEvent} {task : PoolTask} {queue : List PoolTask} {s' : Slot}
    (found : p.slots[i]? = some s)
    (hrun : p.isWithdrawn task.ticket = false →
      SlotMove p now i s e (s'.run task now) queue [(task.ticket, now)] [])
    (hskip : p.isWithdrawn task.ticket = true →
      SlotMove p now i s e { s' with stage := .idle } queue [] [⟨task.ticket, now, some .cancelled⟩]) :
    Step p now e ({ p with queue }.dispatch now i s' task) := by
  have hsame : ({ p with queue } : Pool).isWithdrawn task.ticket = p.isWithdrawn task.ticket := rfl
  unfold dispatch
  rw [hsame]
  cases hw : p.isWithdrawn task.ticket with
  | true =>
    have h := Step.slot found (hskip hw)
    rw [moved, List.append_nil] at h
    exact h
  | false =>
    have h := Step.slot found (hrun hw)
    rw [moved, List.append_nil] at h
    exact h

theorem step_payDebt {debt : Debt} {failures retryAt : Nat} (found : p.slots[i]? = some s)
    (stage : s.stage = .replacing debt failures retryAt) (due : retryAt ≤ now) :
    Step p now (.relaunch i) (p.payDebt now i s.renew debt) := by
  cases debt with
  | nothing =>
    have h := Step.slot found (.renews failures retryAt stage due)
    rw [moved, List.append_nil, List.append_nil] at h
    exact h
  | outcome task outcome =>
    have h := Step.slot found (.delivers task outcome failures retryAt stage due)
    rw [moved, List.append_nil] at h
    exact h
  | task task =>
    exact step_dispatch found (fun hw => .resumes task failures retryAt stage due hw)
      fun hw => .discards task failures retryAt stage due hw

theorem step_finish {task : PoolTask} {since : Nat} {how : Ending} (found : p.slots[i]? = some s)
    (running : s.stage = .running task since) (may : p.mayFinish now s task since how = true) :
    Step p now (.finish i how) (p.finish now i s task how) := by
  have hfail (hf : how.keepsWorker = false) (killPending : Bool) : Step p now (.finish i how)
      (p.setSlot i ({ s with killPending }.replace (.outcome task (how.outcome task)) now)) := by
    have h := Step.slot found (.fails task since how killPending running hf may)
    rw [moved, List.append_nil, List.append_nil] at h
    exact h
  cases how with
  | answered a =>
    have h := Step.slot found (.answers task since a running (by simpa [mayFinish] using may))
    rw [moved, List.append_nil] at h
    exact h
  | killed => exact hfail rfl false
  | _ => exact hfail rfl s.killPending

theorem step_stop (found : p.slots[i]? = some s) (h : p.slotStep? now i s (.stop i) = some q) :
    Step p now (.stop i) q := by
  have hlast {s' : Slot} {ended : List Delivery} (shut : p.isShut = true)
      (move : LastMove now s s' ended) : Step p now (.stop i)
        (Pool.dropQueue { p.setSlot i s' with delivered := p.delivered ++ ended } now) := by
    have h := Step.stop found shut move
    rw [moved, List.append_nil] at h
    exact h
  rw [slotStep?] at h
  split at h
  · next shut idle =>
    cases h
    have h := hlast shut (.idle idle)
    rw [List.append_nil] at h
    exact h
  · next debt failures retryAt shut stage =>
    cases h
    cases debt with
    | nothing =>
      have h := hlast shut (.nothing failures retryAt stage)
      rw [List.append_nil] at h
      exact h
    | outcome task outcome => exact hlast shut (.outcome task outcome failures retryAt stage)
    | task task => exact hlast shut (.task task failures retryAt stage)
  · cases h

theorem step_slotStep {e : PoolEvent} (he : e.slot? = some i) (found : p.slots[i]? = some s)
    (h : p.slotStep? now i s e = some q) : Step p now e q := by
  have hmove {s' : Slot} (move : SlotMove p now i s e s' p.queue [] []) :
      Step p now e (p.setSlot i s') := by
    have h := Step.slot found move
    rw [moved, List.append_nil, List.append_nil] at h
    exact h
  cases e with
  | submit | withdraw | shutdown => cases he
  | stop =>
    cases he
    exact step_stop found h
  | take =>
    cases he
    rw [slotStep?] at h
    split at h
    · next task rest idle queue =>
      cases h
      exact step_dispatch found (fun hw => .begins task rest idle queue hw)
        fun hw => .skips task rest idle queue hw
    · cases h
  | takeDead =>
    cases he
    rw [slotStep?] at h
    split at h
    · next task rest idle queue =>
      cases h
      have h : Step p now (.takeDead i) _ := .slot found (.takesDead task rest idle queue)
      rw [moved, List.append_nil, List.append_nil] at h
      exact h
    · cases h
  | exit =>
    cases he
    rw [slotStep?] at h
    split at h
    · next idle => cases h; exact hmove (.exits idle)
    · cases h
  | killIdle =>
    cases he
    rw [slotStep?] at h
    split at h
    · next hidle => cases h; exact hmove (.killedIdle hidle.1 hidle.2)
    · cases h
  | finish _ how =>
    cases he
    rw [slotStep?] at h
    split at h
    · next task since running =>
      split at h
      · next may => cases h; exact step_finish found running may
      · cases h
    · cases h
  | relaunch =>
    cases he
    rw [slotStep?] at h
    split at h
    · next debt failures retryAt stage =>
      split at h
      · next due => cases h; exact step_payDebt found stage due
      · cases h
    · cases h
  | relaunchFails =>
    cases he
    rw [slotStep?] at h
    split at h
    · next debt failures retryAt stage =>
      split at h
      · next due => cases h; exact hmove (.retries debt failures retryAt stage due)
      · cases h
    · cases h
  | kill =>
    cases he
    cases h
    exact hmove .kills

/-- What a step does. -/
theorem step_cases {e : PoolEvent} (h : p.step? now e = some q) : Step p now e q := by
  have hslot (i : Nat) (he : e.slot? = some i)
      (h : (p.slots[i]?.bind fun s => p.slotStep? now i s e) = some q) : Step p now e q := by
    obtain ⟨s, found, hs⟩ := Option.bind_eq_some_iff.1 h
    exact step_slotStep he found hs
  cases e with
  | submit task =>
    rw [step?] at h
    split at h
    · next hopen =>
      cases h
      rw [Bool.and_eq_true, Bool.not_eq_true'] at hopen
      exact .submit task hopen.1 hopen.2
    · cases h
  | withdraw ticket => cases h; exact .withdraw ticket
  | shutdown => cases h; exact .shutdown
  | _ => exact hslot _ rfl h

end Inversion

/-! ## What a step leaves alone -/

section Frame

variable (p : Pool) (now : Nat)

@[simp] theorem slots_dropQueue : (p.dropQueue now).slots = p.slots := by
  unfold dropQueue
  split <;> rfl

@[simp] theorem isShut_dropQueue : (p.dropQueue now).isShut = p.isShut := by
  unfold dropQueue
  split <;> rfl

@[simp] theorem withdrawn_dropQueue : (p.dropQueue now).withdrawn = p.withdrawn := by
  unfold dropQueue
  split <;> rfl

@[simp] theorem started_dropQueue : (p.dropQueue now).started = p.started := by
  unfold dropQueue
  split <;> rfl

theorem allStopped_dropQueue : (p.dropQueue now).allStopped = p.allStopped := by
  rw [allStopped, slots_dropQueue, allStopped]

theorem delivered_dropQueue : ∃ dropped, (p.dropQueue now).delivered = p.delivered ++ dropped ∧
    ∀ d ∈ dropped, d.outcome = none := by
  unfold dropQueue
  split
  · refine ⟨_, rfl, fun d hd => ?_⟩
    obtain ⟨task, -, rfl⟩ := List.mem_map.1 hd
    rfl
  · exact ⟨[], (List.append_nil _).symm, fun _ hd => by cases hd⟩

variable {p now} {q : Pool} {i : Nat} {s s' : Slot} {e : PoolEvent}

/-- A slot behind a move is the one before it, or the one that has moved. -/
theorem getElem?_set_slots {j : Nat} {x : Slot} (found : p.slots[i]? = some s)
    (h : (p.slots.set i s')[j]? = some x) : (i ≠ j ∧ p.slots[j]? = some x) ∨ (i = j ∧ s' = x) := by
  rw [List.getElem?_set] at h
  split at h
  · next hij =>
    rw [if_pos (List.getElem?_eq_some_iff.1 found).1] at h
    exact .inr ⟨hij, Option.some.inj h⟩
  · next hij => exact .inl ⟨hij, h⟩

theorem Step.isWithdrawn (h : Step p now e q) {t : Nat} (ht : p.isWithdrawn t = true) :
    q.isWithdrawn t = true := by
  cases h with
  | withdraw ticket => exact List.contains_iff_mem.2 (.tail _ (List.contains_iff_mem.1 ht))
  | stop => rwa [Pool.isWithdrawn, withdrawn_dropQueue]
  | _ => exact ht

theorem Step.started (h : Step p now e q) : p.started ⊆ q.started := by
  cases h with
  | slot => exact List.subset_append_left _ _
  | stop =>
    rw [started_dropQueue]
    exact List.subset_append_left _ _
  | _ => exact List.Subset.refl _

theorem Step.delivered (h : Step p now e q) : p.delivered ⊆ q.delivered := by
  cases h with
  | slot => exact List.subset_append_left _ _
  | stop found shut move =>
    obtain ⟨dropped, hd, -⟩ := delivered_dropQueue (p.moved _ _ p.queue [] _) now
    rw [hd, moved, List.append_assoc]
    exact List.subset_append_left _ _
  | _ => exact List.Subset.refl _

end Frame

/-! ## Runs -/

/-- A task of one second with nothing to do. -/
def idleTask (ticket : Nat) : PoolTask where
  ticket
  chunk := {}
  spec := .embedded {}
  language := ⟨"python"⟩
  attempt := 1
  timeout := .ofSeconds 1

theorem start_eq {workers capacity : Nat} {p : Pool} (h : start workers capacity = .ok p) :
    p = { capacity, slots := List.replicate workers {} } := by
  unfold start at h
  split at h
  · cases h
  · split at h
    · cases h
    · cases h
      rfl

/-- Take steps one after the other; nothing if one of them cannot be taken. -/
def run? (p : Pool) : List (Nat × PoolEvent) → Option Pool
  | [] => some p
  | (now, e) :: rest => (p.step? now e).bind (run? · rest)

theorem run?_append (p : Pool) (xs ys : List (Nat × PoolEvent)) :
    p.run? (xs ++ ys) = (p.run? xs).bind (·.run? ys) := by
  induction xs generalizing p with
  | nil => rfl
  | cons x xs ih =>
    obtain ⟨now, e⟩ := x
    rw [List.cons_append, run?, run?, Option.bind_assoc]
    exact congrArg _ (funext ih)

theorem run?_concat {p r : Pool} {history : List (Nat × PoolEvent)} {now : Nat} {e : PoolEvent} :
    p.run? (history ++ [(now, e)]) = some r ↔
      ∃ q, p.run? history = some q ∧ q.step? now e = some r := by
  rw [run?_append, Option.bind_eq_some_iff]
  simp only [run?, Option.bind_fun_some]

/-- What holds at first and is kept by every step holds behind every run. -/
theorem run_induction {p : Pool} {P : List (Nat × PoolEvent) → Pool → Prop} (start : P [] p)
    (step : ∀ {history q now e r}, p.run? history = some q → q.step? now e = some r → P history q →
      P (history ++ [(now, e)]) r)
    {history : List (Nat × PoolEvent)} {q : Pool} (h : p.run? history = some q) : P history q := by
  induction history using List.reverseRecOn generalizing q with
  | nil =>
    cases h
    exact start
  | append_singleton history x ih =>
    obtain ⟨m, hm, hstep⟩ := run?_concat.1 h
    exact step hm hstep (ih hm)

end Pool

end Pseudoscribe
