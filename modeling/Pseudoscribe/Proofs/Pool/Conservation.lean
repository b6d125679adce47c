import Pseudoscribe.Proofs.Pool.Flow

/-!
# No task is lost or done twice

Every accepted task is taken by at most one slot, begun at most once and ended at most once.  One that was to be
given up when it was taken is not begun.  When all slots have stopped every task has ended, and the wait for
it comes to an end.
-/

namespace Pseudoscribe

namespace Pool

/-! ## Tasks that are given up -/

/-- A task that is to be given up and was not begun. -/
structure GivenUp (q : Pool) (t : Nat) : Prop where
  withdrawn : q.isWithdrawn t = true
  notBegun : t ∉ q.begun
  notWorking : t ∉ q.working
  outcome : ∀ d ∈ q.delivered, d.ticket = t → d.outcome = some .cancelled ∨ d.outcome = none

section Moves

variable {p q : Pool} {now i : Nat} {s s' : Slot} {e : PoolEvent} {queue : List PoolTask}
  {begun : List (Nat × Nat)} {ended : List Delivery}

theorem SlotMove.wanted (move : SlotMove p now i s e s' queue begun ended) :
    ∀ x ∈ begun, p.isWithdrawn x.1 = false := by
  cases move <;> simp [*]

/-- What ends in a slot was worked on there, or it is given up. -/
theorem SlotMove.work_of_ended (move : SlotMove p now i s e s' queue begun ended) :
    ∀ d ∈ ended, s.stage.work? = some d.ticket ∨ d.outcome = some .cancelled := by
  cases move <;> simp [Stage.work?, Debt.work?, *]

theorem LastMove.work_of_ended (move : LastMove now s s' ended) :
    ∀ d ∈ ended, s.stage.work? = some d.ticket ∨ d.outcome = some .cancelled := by
  cases move <;> simp [Stage.work?, Debt.work?, *]

theorem GivenUp.step {t : Nat} (hg : GivenUp p t) (h : Step p now e q) : GivenUp q t := by
  have hwork {i : Nat} {s : Slot} {d : Delivery} (found : p.slots[i]? = some s) (hd : d.ticket = t) :
      s.stage.work? ≠ some d.ticket := fun hw => hg.notWorking (hd ▸ mem_working found hw)
  have hbegun : t ∉ q.begun := by
    cases h with
    | slot found move =>
      rw [begun, moved, List.map_append, List.mem_append, not_or]
      refine ⟨hg.notBegun, fun ht => ?_⟩
      obtain ⟨x, hx, rfl⟩ := List.mem_map.1 ht
      exact Bool.false_ne_true ((move.wanted x hx).symm.trans hg.withdrawn)
    | stop =>
      rw [begun, started_dropQueue, moved, List.append_nil]
      exact hg.notBegun
    | _ => exact hg.notBegun
  refine ⟨h.isWithdrawn hg.withdrawn, hbegun, ?_, ?_⟩
  · have hflow := (h.flow t).working
    rw [← List.count_eq_zero] at hbegun ⊢
    have := List.count_eq_zero.2 hg.notWorking
    omega
  · cases h with
    | slot found move =>
      rintro d hd hdt
      obtain hd | hd := List.mem_append.1 hd
      · exact hg.outcome d hd hdt
      · exact .inl ((move.work_of_ended d hd).resolve_left (hwork found hdt))
    | stop found _ move =>
      rintro d hd hdt
      obtain ⟨dropped, hdelivered, hnone⟩ := delivered_dropQueue (p.moved _ _ p.queue [] _) now
      rw [hdelivered] at hd
      obtain hd | hd := List.mem_append.1 hd
      · obtain hd | hd := List.mem_append.1 hd
        · exact hg.outcome d hd hdt
        · exact .inl ((move.work_of_ended d hd).resolve_left (hwork found hdt))
      · exact .inr (hnone d hd)
    | _ => exact hg.outcome

theorem GivenUp.run {t : Nat} (hg : GivenUp p t) {history : List (Nat × PoolEvent)}
    (h : p.run? history = some q) : GivenUp q t :=
  run_induction (P := fun _ q => GivenUp q t) hg (fun _ hstep hg => hg.step (step_cases hstep)) h

end Moves

/-! ## When all slots have stopped -/

theorem SlotMove.stopped {p : Pool} {now i : Nat} {s s' : Slot} {e : PoolEvent} {queue : List PoolTask}
    {begun : List (Nat × Nat)} {ended : List Delivery}
    (move : SlotMove p now i s e s' queue begun ended) (h : s'.stage = .stopped) :
    s.stage = .stopped ∧ queue = p.queue := by
  cases move <;> first | exact ⟨h, rfl⟩ | cases h

theorem allStopped_of_moved {p : Pool} {i : Nat} {s s' : Slot} {queue : List PoolTask}
    {begun : List (Nat × Nat)} {ended : List Delivery} (found : p.slots[i]? = some s)
    (hs : s'.stage = .stopped → s.stage = .stopped) (h : (p.moved i s' queue begun ended).allStopped = true) :
    s'.stage = .stopped ∧ p.allStopped = true := by
  have hall : ∀ x ∈ p.slots.set i s', x.stage = .stopped := by
    simpa only [allStopped, moved, List.all_eq_true, beq_iff_eq] using h
  obtain ⟨hi, hget⟩ := List.getElem?_eq_some_iff.1 found
  have hs' := hall s' (List.mem_set hi s')
  refine ⟨hs', ?_⟩
  simp only [allStopped, List.all_eq_true, beq_iff_eq]
  intro x hx
  have hback : (p.slots.set i s').set i s = p.slots := by
    rw [List.set_set, ← hget, List.set_getElem_self]
  rw [← hback] at hx
  obtain hx | rfl := List.mem_or_eq_of_mem_set hx
  · exact hall x hx
  · exact hs hs'

theorem queue_of_allStopped {workers capacity : Nat} {p q : Pool} {history : List (Nat × PoolEvent)}
    (hstart : start workers capacity = .ok p) (hrun : p.run? history = some q)
    (h : q.allStopped = true) : q.queue = [] := by
  refine run_induction (P := fun _ q => q.allStopped = true → q.queue = []) ?start ?step hrun h
  case start =>
    rw [start_eq hstart]
    exact fun _ => rfl
  case step =>
    intro history q now e r _ hstep ih hstop
    cases step_cases hstep with
    | submit task hopen =>
      have hsame : q.allStopped = true := hstop
      rw [hopen] at hsame
      cases hsame
    | withdraw | shutdown => exact ih hstop
    | slot found move =>
      obtain ⟨hs', hq⟩ := allStopped_of_moved found (fun hs => (move.stopped hs).1) hstop
      exact (move.stopped hs').2.trans (ih hq)
    | stop =>
      rw [allStopped_dropQueue] at hstop
      rw [dropQueue, if_pos hstop]

theorem held_of_allStopped {q : Pool} (h : q.allStopped = true) : q.pending = [] ∧ q.working = [] := by
  have hall : ∀ s ∈ q.slots, s.stage = .stopped := by
    simpa only [allStopped, List.all_eq_true, beq_iff_eq] using h
  constructor
  · exact List.filterMap_eq_nil_iff.2 fun s hs => by rw [hall s hs]; rfl
  · exact List.filterMap_eq_nil_iff.2 fun s hs => by rw [hall s hs]; rfl

/-! ## Waiting for a task -/

theorem outcomeSignal_ne_never {q : Pool} {t : Nat} (h : t ∈ q.ended) : q.outcomeSignal t ≠ .never := by
  obtain ⟨d, hd, hdt⟩ := List.mem_map.1 h
  unfold outcomeSignal
  split
  · exact fun h => by cases h
  · exact fun h => by cases h
  · next hf => exact absurd (beq_iff_eq.2 hdt) (List.find?_eq_none.1 hf d hd)

/-- A wait comes to an end when the outcome is given or lost. -/
theorem wait?_isSome {now : Nat} {timeout grace : Duration} {started : Signal Unit}
    {outcome : Signal TaskOutcome} (h : outcome ≠ .never) :
    (Collected.wait? now timeout grace started outcome).isSome = true := by
  have hend : (Collected.ofOutcome? now outcome).isSome = true := by
    cases outcome with
    | never => exact absurd rfl h
    | given | lost => rfl
  obtain ⟨c, hc⟩ := Option.isSome_iff_exists.1 hend
  unfold Collected.wait?
  rw [hc]
  split
  · rfl
  · dsimp only
    split <;> rfl

theorem wait?_lost (now time : Nat) (timeout grace : Duration) :
    Collected.wait? now timeout grace (.lost time) (.lost time) =
      some ⟨Collected.dropped, max now time, false⟩ := by
  simp only [Collected.wait?, Signal.time?, Collected.ofOutcome?]
  exact if_pos (Nat.le_add_right _ _)

/-- The task has ended.  Every wait for it comes to an end, and if it was dropped, with the report of a crash. -/
structure Settled (q : Pool) (t : Nat) : Prop where
  ended : t ∈ q.ended
  wait : ∀ now timeout grace,
    (Collected.wait? now timeout grace (q.startSignal t) (q.outcomeSignal t)).isSome = true
  dropped : t ∈ q.dropped → ∀ now timeout grace, ∃ time,
    Collected.wait? now timeout grace (q.startSignal t) (q.outcomeSignal t) =
      some ⟨Collected.dropped, time, false⟩

theorem settled_of_ended {q : Pool} {t : Nat} (hnodup : q.ended.Nodup) (hended : t ∈ q.ended)
    (hdropped : t ∈ q.dropped → t ∉ q.begun) : Settled q t := by
  refine ⟨hended, fun _ _ _ => wait?_isSome (outcomeSignal_ne_never hended), ?_⟩
  intro ht now timeout grace
  have hbegun := hdropped ht
  obtain ⟨d, hd, rfl⟩ := List.mem_map.1 ht
  obtain ⟨hd, hnone⟩ := List.mem_filter.1 hd
  have hfind := find?_delivered hnodup hd
  have hlookup : q.started.lookup d.ticket = none := by
    rw [List.lookup_eq_none_iff]
    intro x hx
    exact bne_iff_ne.2 fun h => hbegun (List.mem_map.2 ⟨x, hx, h.symm⟩)
  have hstart : q.startSignal d.ticket = .lost d.time := by
    rw [startSignal, hlookup, hfind]
  have houtcome : q.outcomeSignal d.ticket = .lost d.time := by
    obtain ⟨ticket, time, outcome⟩ := d
    obtain rfl : outcome = none := Option.isNone_iff_eq_none.1 hnone
    rw [outcomeSignal, hfind]
  rw [hstart, houtcome]
  exact ⟨_, wait?_lost _ _ _ _⟩

/-! ## Conservation -/

/-- What has become of the tasks that were handed in. -/
structure Conserved (p : Pool) (history : List (Nat × PoolEvent)) (q : Pool) : Prop where
  places : (handedIn history).Perm (q.waiting ++ q.pending ++ q.working ++ q.ended)
  taken : (p.takings history).map (·.2) ⊆ handedIn history
  takenOnce : ((p.takings history).map (·.2)).Nodup
  begun : q.begun ⊆ (p.takings history).map (·.2)
  begunOnce : q.begun.Nodup
  ended : q.ended ⊆ handedIn history
  endedOnce : q.ended.Nodup
  /-- a task that was to be given up when it was taken is not begun and is told to be given up -/
  givenUp : ∀ {before after : List (Nat × PoolEvent)} {now : Nat} {e : PoolEvent} {m : Pool} {t : Nat},
    history = before ++ (now, e) :: after → p.run? before = some m → t ∈ (m.taken e).map (·.2) →
    m.isWithdrawn t = true →
    t ∉ q.begun ∧ (∀ d ∈ q.delivered, d.ticket = t → d.outcome = some .cancelled) ∧
      (t ∈ q.pending ∨ t ∈ q.ended)
  settled : q.allStopped = true → ∀ t ∈ handedIn history, Settled q t

section Once

variable {workers capacity : Nat} {p q : Pool} {history : List (Nat × PoolEvent)}

/-- A task that is taken when it is to be given up is given up. -/
theorem givenUp_of_taken (hstart : start workers capacity = .ok p) (hnodup : (handedIn history).Nodup)
    (hrun : p.run? history = some q) {before after : List (Nat × PoolEvent)} {now : Nat} {e : PoolEvent}
    {m : Pool} {t : Nat} (hsplit : history = before ++ (now, e) :: after)
    (hbefore : p.run? before = some m) (ht : t ∈ (m.taken e).map (·.2))
    (hwithdrawn : m.isWithdrawn t = true) : GivenUp q t := by
  have hone : (handedIn before).count t ≤ 1 := by
    rw [hsplit, handedIn, List.flatMap_append] at hnodup
    exact List.nodup_iff_count_le_one.1 hnodup.of_append_left t
  obtain ⟨hbegun, hworking, hended⟩ := (account hstart hbefore t).fresh hone (mem_waiting_of_taken ht)
  have hm : GivenUp m t := by
    refine ⟨hwithdrawn, hbegun, hworking, fun d hd hdt => ?_⟩
    exact absurd (List.mem_map.2 ⟨d, hd, hdt⟩) hended
  rw [hsplit, run?_append, hbefore, Option.bind_some] at hrun
  exact hm.run hrun

/-- No task is lost, and none is taken, begun or ended twice. -/
theorem conserved (hstart : start workers capacity = .ok p) (hrun : p.run? history = some q)
    (hnodup : (handedIn history).Nodup) : Conserved p history q := by
  have haccount := account hstart hrun
  have hone := List.nodup_iff_count_le_one.1 hnodup
  refine ⟨?_, ?_, nodup_takings hstart hrun hnodup, ?_, nodup_begun hstart hrun hnodup, ?_,
    nodup_ended hstart hrun hnodup, ?_, ?_⟩
  · rw [List.perm_iff_count]
    intro t
    have hended := count_ended q t
    obtain ⟨hqueue, hslots, -, -⟩ := haccount t
    simp only [List.count_append]
    omega
  · intro t ht
    have ht := List.count_pos_iff.2 ht
    obtain ⟨hqueue, -, -, -⟩ := haccount t
    exact List.count_pos_iff.1 (by omega)
  · intro t ht
    have ht := List.count_pos_iff.2 ht
    obtain ⟨-, -, hbegun, -⟩ := haccount t
    exact List.count_pos_iff.1 (by omega)
  · intro t ht
    have ht := List.count_pos_iff.2 ht
    have hended := count_ended q t
    obtain ⟨hqueue, hslots, -, -⟩ := haccount t
    exact List.count_pos_iff.1 (by omega)
  · intro before after now e m t hsplit hbefore ht hwithdrawn
    have hgiven := givenUp_of_taken hstart hnodup hrun hsplit hbefore ht hwithdrawn
    have htaken := List.count_pos_iff.2 (List.map_subset _ (mem_takings hsplit hbefore).2 ht)
    have hone := hone t
    have hended := count_ended q t
    have hworking := List.count_eq_zero.2 hgiven.notWorking
    obtain ⟨hqueue, hslots, -, -⟩ := haccount t
    refine ⟨hgiven.notBegun, fun d hd hdt => ?_, ?_⟩
    · refine (hgiven.outcome d hd hdt).resolve_right fun hnone => ?_
      have hdropped : t ∈ q.dropped :=
        List.mem_map.2 ⟨d, List.mem_filter.2 ⟨hd, Option.isNone_iff_eq_none.2 hnone⟩, hdt⟩
      have := List.count_pos_iff.2 hdropped
      omega
    · rw [← List.count_pos_iff, ← List.count_pos_iff]
      omega
  · intro hstop t ht
    have ht := List.count_pos_iff.2 ht
    have hone := hone t
    have hended := count_ended q t
    have hwaiting : q.waiting = [] := by rw [waiting, queue_of_allStopped hstart hrun hstop, List.map_nil]
    obtain ⟨hpending, hworking⟩ := held_of_allStopped hstop
    obtain ⟨hqueue, hslots, hbegun, -⟩ := haccount t
    rw [hwaiting, List.count_nil] at hqueue
    rw [hpending, hworking, List.count_nil] at hslots
    refine settled_of_ended (nodup_ended hstart hrun hnodup) (List.count_pos_iff.1 (by omega)) fun hdropped => ?_
    have := List.count_pos_iff.2 hdropped
    rw [← List.count_eq_zero]
    omega

end Once

/-- Two slots and four tasks.  The second one is to be given up while its slot waits for a new worker, the third
one's worker breaks down, and the fourth one still waits when the last slot stops. -/
def lastDay : List (Nat × PoolEvent) :=
  [(0, .submit (idleTask 1)), (0, .submit (idleTask 2)), (0, .submit (idleTask 3)), (1, .take 0),
    (2, .withdraw 2), (3, .takeDead 1), (4, .relaunch 1), (5, .take 1), (6, .finish 1 (.broken "lost")),
    (7, .relaunchFails 1), (8, .submit (idleTask 4)), (9, .shutdown), (10, .stop 1),
    (11, .finish 0 .withdrawn), (12, .stop 0)]

theorem conserved_lastDay : ∃ p q, start 2 3 = .ok p ∧ p.run? lastDay = some q ∧
    (handedIn lastDay).Nodup ∧ Conserved p lastDay q ∧ q.allStopped = true ∧ q.ended = [2, 3, 1, 4] :=
  ⟨_, _, rfl, rfl, by decide, @conserved 2 3 _ _ _ rfl rfl (by decide), rfl, rfl⟩

end Pool

end Pseudoscribe
