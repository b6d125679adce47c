import Pseudoscribe.Proofs.Run.Cancellation
import Pseudoscribe.Proofs.Run.Published
import Pseudoscribe.Proofs.Service.Kept
import Pseudoscribe.Proofs.Tracker.Steps

/-!
# Progress

A run counts the chunks that have ended, and this count is its progress and stands in the event that it was cancelled.
Chunks that were withdrawn on their way are counted too, although the result does not report them as done.  So the
count agrees with the result exactly if no chunk was withdrawn, and what is recorded of a request in the
background falls at its end only if a withdrawn chunk was counted before.
-/

namespace Pseudoscribe

/-- How many chunks of a result were withdrawn when they had been begun. -/
def Assembly.withdrawnChunks (a : Assembly) : Nat := a.chunks.countP fun x => x.status == .cancelled && x.attempts != 0

namespace ChunkRun

/-- An attempt at the chunk was begun; if the chunk has ended as cancelled its end says so. -/
structure Tried (c : ChunkRun) : Prop where
  attempt : c.attempt ≠ 0
  final : ∀ final, c.stage = .ended final → final.status = .cancelled → final.attempts ≠ 0

theorem tried_start (now : Nat) (p : Provenance) (chunk : Chunk) : (start now p chunk).1.Tried := by
  unfold start
  split
  · refine ⟨Nat.one_ne_zero, fun final hended hcancelled => ?_⟩
    cases hended
    cases hcancelled
  · exact ⟨Nat.one_ne_zero, fun final hended => by cases hended⟩

theorem Tried.step {o : Options} {now : Nat} {c c' : ChunkRun} {input : ChunkInput} {notes : List Note}
    (h : c.Tried) (hstep : Step o now c input c' notes) : c'.Tried := by
  cases hstep with
  | accepted => exact ⟨h.attempt, fun final hended => by cases hended⟩
  | ends x =>
    rw [conclude_fst]
    refine ⟨h.attempt, fun final hended _ => ?_⟩
    dsimp only [TaskOutcome.stageAfter] at hended
    cases hverdict : x.verdict? o c.attempt with
    | none =>
      rw [hverdict] at hended
      cases hended
    | some verdict =>
      rw [hverdict] at hended
      cases hended
      rw [TaskOutcome.attempts_of_verdict hverdict]
      exact h.attempt
  | wakes =>
    rw [wake_fst]
    exact ⟨Nat.succ_ne_zero _, fun final hended => by cases hended⟩
  | givesUp =>
    rw [cancel_fst]
    refine ⟨h.attempt, fun final hended _ => ?_⟩
    cases hended
    exact h.attempt

end ChunkRun

namespace Run

open Assembly

/-! ## Chunks that were begun -/

/-- Every chunk on its way was tried, and so was every one that was withdrawn. -/
structure Tried (r : Run) : Prop where
  onWay : ∀ c ∈ r.onWay, c.Tried
  finals : ∀ p ∈ r.finals, p.2.status = .cancelled → p.2.attempts ≠ 0

theorem Tried.place {r : Run} {c : ChunkRun} (h : r.Tried) (hc : c.Tried) (notes : List Note) :
    (r.place c notes).1.Tried := by
  refine ⟨fun x hx => ?_, fun p hp => ?_⟩
  · rcases mem_onWay_place hx with hx | hx
    · exact h.onWay x hx
    · obtain ⟨rfl, -⟩ := mem_remaining hx
      exact hc
  · rw [finals_place] at hp
    rcases mem_finals_place hp with hp | ⟨-, hended⟩
    · exact h.finals p hp
    · exact hc.final p.2 hended

theorem Tried.move {r s : Run} {now : Nat} {m : RunMove} (h : r.Tried) (hmove : Move r now m s) : s.Tried := by
  cases hmove with
  | next chunk rest =>
    have hrest : ({ r with waiting := rest } : Run).Tried := ⟨h.onWay, h.finals⟩
    exact hrest.place (ChunkRun.tried_start now r.provenance chunk) _
  | chunk hfound htaken =>
    obtain ⟨hc, -⟩ := mem_of_find? hfound
    exact h.place ((h.onWay _ hc).step (ChunkRun.step_cases htaken)) _
  | cancel | conclude => exact ⟨h.onWay, h.finals⟩

theorem Leads.tried {may : Run → RunMove → Prop} {r s : Run} {ms : List (Nat × RunMove)} {begun : List Nat}
    (h : r.Tried) (hleads : Leads may r ms begun s) : s.Tried := by
  induction hleads with
  | refl => exact h
  | step now m before allowed made ih => exact ih.move (move_cases made)

theorem tried_new (now : Nat) (request : Request) (spec : BackendSpec) (cancelled : Bool) :
    (new now request spec cancelled).Tried :=
  ⟨fun _ h => absurd h List.not_mem_nil, fun _ h => absurd h List.not_mem_nil⟩

/-- The chunks that have ended stay so. -/
theorem Leads.finals_prefix {may : Run → RunMove → Prop} {r s : Run} {ms : List (Nat × RunMove)}
    {begun : List Nat} (h : Leads may r ms begun s) : r.finals <+: s.finals := by
  induction h with
  | refl => exact List.prefix_refl _
  | step now m before allowed made ih =>
    refine ih.trans ?_
    cases move_cases made with
    | next | chunk =>
      rw [finals_place]
      exact List.prefix_append _ _
    | cancel | conclude => exact List.prefix_refl _

/-! ## Counting -/

/-- How many ends are reported is how many there are, for ends that chunks have only that were begun. -/
theorem Orderly.countP_reports {p : ChunkReport → Bool} {q : ChunkEnd → Bool} {r : Run} {begun : List Nat}
    (h : r.Orderly begun) {a : Assembly} (ha : r.result = some a) (hnone : q (.cancelled 0) = false)
    (hpq : ∀ c report, Reports (endOf r.finals) c report → p report = q (endOf r.finals c)) :
    a.chunks.countP p = r.finals.countP (q ·.2) := by
  have hperm := h.perm_reports (g := fun x => if q x.2 then some () else none)
    (k := fun x => if p x then some () else none) ha (fun _ => by rw [hnone]; rfl) fun c report hr => by
      rw [hpq c report hr]
  have hlength := hperm.length_eq
  rw [List.length_filterMap_eq_countP, List.length_filterMap_eq_countP] at hlength
  have hsome (b : Bool) : (if b then some () else none).isSome = b := by cases b <;> rfl
  simpa only [hsome] using hlength.symm

/-- What is counted is what is done and what was withdrawn. -/
theorem completed_eq {r : Run} {begun : List Nat} (horder : r.Orderly begun) (htried : r.Tried) {a : Assembly}
    (ha : r.result = some a) : r.completed = a.doneChunks + a.withdrawnChunks := by
  have hdone : a.doneChunks = r.finals.countP (·.2.status != .cancelled) :=
    horder.countP_reports (q := (·.status != .cancelled)) ha rfl fun c report hr => by rw [hr.status]
  have hwithdrawn : a.withdrawnChunks = r.finals.countP fun p => p.2.status == .cancelled && p.2.attempts != 0 :=
    horder.countP_reports (q := fun final => final.status == .cancelled && final.attempts != 0) ha rfl
      fun c report hr => by rw [hr.status, hr.attempts]
  have hall : (r.finals.countP fun p => p.2.status == .cancelled && p.2.attempts != 0) =
      r.finals.countP fun p => decide (¬ (p.2.status != .cancelled) = true) := by
    refine List.countP_congr fun p hp => ?_
    have htried := htried.finals p hp
    simp only [Bool.and_eq_true, beq_iff_eq, bne_iff_ne, decide_eq_true_eq, ne_eq, not_not]
    exact ⟨fun h => h.1, fun h => ⟨h, htried h⟩⟩
  rw [hdone, hwithdrawn, hall]
  exact List.length_eq_countP_add_countP _

theorem withdrawnChunks_eq_zero {a : Assembly} :
    a.withdrawnChunks = 0 ↔ ∀ x ∈ a.chunks, x.status = .cancelled → x.attempts = 0 := by
  simp [withdrawnChunks]

/-- What is recorded of a request in the background as the number of its chunks that are done. -/
def recorded (r : Run) : Nat :=
  match r.result with
  | some a => a.doneChunks
  | none => r.completed

/-- While a run has no result the ends are counted that there are, and when it has one they stay. -/
theorem recorded_le {r s : Run} {ms : List (Nat × RunMove)} {begun first : List Nat} {may : Run → RunMove → Prop}
    (horder : r.Orderly first) (h : Leads may r ms begun s)
    (hcounted : s.result = none ∨ ∀ p ∈ r.finals, p.2.status ≠ .cancelled) : r.recorded ≤ s.recorded := by
  have hprefix := h.finals_prefix
  unfold recorded
  cases hr : r.result with
  | some a =>
    rw [h.goesOn.result a hr]
  | none =>
    cases hs : s.result with
    | none => exact hprefix.length_le
    | some a =>
      have hnone := hcounted.resolve_left (by rw [hs]; exact nofun)
      -- all ends that were counted are ends of chunks that are done
      have hdone : r.finals.countP (·.2.status != .cancelled) = r.completed :=
        List.countP_eq_length.2 fun p hp => bne_iff_ne.2 (hnone p hp)
      have hreported : a.doneChunks = s.finals.countP (·.2.status != .cancelled) :=
        (h.orderly horder).countP_reports (q := (·.status != .cancelled)) hs rfl fun c report hr => by rw [hr.status]
      dsimp only
      rw [hreported, ← hdone]
      exact hprefix.sublist.countP_le

end Run

/-! ## The register -/

namespace Register

/-- How far a request is does not change when it ends. -/
theorem completedChunks_finish (r : Register) (now : Int) (id : RequestId) (state : RequestState)
    (result : Option Assembly) (error : Option String) :
    ((r.attempt (r.finish now id state result error)).2.find? id).map (·.completedChunks) =
      (r.find? id).map (·.completedChunks) := by
  have hupdate := r.find?_updateOpen (f := fun t => { t with state, result, error, finishedAt := some now })
    (fun _ => rfl) id id
  rw [attempt_finish, hupdate, if_pos rfl]
  cases r.find? id with
  | none => rfl
  | some t =>
    rw [Option.map_some, Option.map_some, Option.map_some]
    split <;> rfl

end Register

namespace Service

theorem register_record (v : Service) (step : Register → Except TrackerError Register) :
    (v.record step).register = (v.register.attempt (step v.register)).2 := by
  unfold record
  cases step v.register <;> rfl

/-- What the register then says of a request in the background that is followed, if its run has not come to a halt. -/
theorem completedChunks_follow {v : Service} {e : Errand} {r : Run} (hrun : e.run.bind v.engine.run? = some r)
    (hgoing : r.result = none → r.isStranded = false) :
    ((v.follow e).register.find? e.request.id).map (·.completedChunks) =
      (v.register.find? e.request.id).map fun _ => r.recorded := by
  unfold follow Run.recorded
  dsimp only
  rw [hrun]
  dsimp only
  cases hresult : r.result with
  | none =>
    dsimp only
    rw [hgoing hresult, if_neg Bool.false_ne_true]
    dsimp only
    rw [Register.find?_setProgress, Option.map_map]
    rfl
  | some a =>
    dsimp only
    rw [keep_eq, register_record, Register.complete, Register.completedChunks_finish, Register.find?_setProgress,
      Option.map_map]
    rfl

end Service

/-! ## Agreement -/

namespace Run

/-- Progress and the result.  Whatever happens to a run, what is recorded of it does not fall as long as it has no
result, and does not fall with the result if no withdrawn chunk was counted before.  When there is a
result, the number of chunks that have ended, which is the last progress of the run and stands in the event of a cancelled
one, is the number of chunks that are done and of those that were withdrawn.  So it is the number of chunks
that are done exactly if every cancelled chunk is one that was never begun. -/
theorem progress_agrees_iff {now : Nat} {request : Request} {spec : BackendSpec} {cancelled : Bool}
    {ms ms' : List (Nat × RunMove)} {notes notes' : List Note} {r s : Run}
    (hbefore : Tale (new now request spec cancelled) ms notes r) (hbehind : Tale r ms' notes' s) :
    (s.result = none ∨ (∀ p ∈ r.finals, p.2.status ≠ .cancelled) → r.recorded ≤ s.recorded) ∧
    (∀ a, s.result = some a →
      (a.cancelled = true → (Note.events (notes ++ notes')).getLast? = some (.cancelled s.completed s.total)) ∧
      s.completed = a.doneChunks + a.withdrawnChunks ∧
      (s.completed = a.doneChunks ↔ ∀ x ∈ a.chunks, x.status = .cancelled → x.attempts = 0)) ∧
    ∀ (v : Service) (e : Errand), e.run.bind v.engine.run? = some s → (s.result = none → s.isStranded = false) →
      ((v.follow e).register.find? e.request.id).map (·.completedChunks) =
        (v.register.find? e.request.id).map fun _ => s.recorded := by
  obtain ⟨begun, hleads⟩ := hbefore.exists_leads
  obtain ⟨begun', hleads'⟩ := hbehind.exists_leads
  have hfirst := orderly_new now request spec cancelled
  have horder := hleads.orderly hfirst
  have htried := (hleads.trans hleads').tried (tried_new now request spec cancelled)
  refine ⟨recorded_le horder hleads', fun a ha => ?_, fun v e hrun hgoing => Service.completedChunks_follow hrun hgoing⟩
  have hcount := completed_eq (hleads'.orderly horder) htried ha
  refine ⟨fun hcancelled => ?_, hcount, ?_⟩
  · rw [(hbefore.trans hbehind).getLast?_events ha, lastWord, if_pos hcancelled]
  · rw [← withdrawnChunks_eq_zero, hcount]
    exact Nat.add_eq_left

/-- Of two chunks the second is converted and the first one is withdrawn: both have ended, and one of them is done. -/
theorem progress_agrees_iff_of_hanging : ∃ notes notes' r s a,
    Tale (new 0 twoCalls default false) untilStop notes r ∧ Tale r behindStop notes' s ∧ s.result = some a ∧
    r.recorded ≤ s.recorded ∧ (Note.events (notes ++ notes')).getLast? = some (.cancelled 2 2) ∧
    a.doneChunks = 1 ∧ a.withdrawnChunks = 1 := by
  have hmade : (((new 0 twoCalls default false).makes? anyMove untilStop).any fun r =>
      r.finals.all (·.2.status != .cancelled) && (r.makes? anyMove behindStop).any fun s =>
        s.completed == 2 && s.total == 2 && s.result.any fun a => a.cancelled && a.doneChunks == 1) = true := by
    decide +kernel
  obtain ⟨r, hr, hmade⟩ := (Option.any_eq_true _ _).1 hmade
  rw [Bool.and_eq_true, List.all_eq_true] at hmade
  obtain ⟨s, hs, hend⟩ := (Option.any_eq_true _ _).1 hmade.2
  simp only [Bool.and_eq_true, beq_iff_eq] at hend
  obtain ⟨⟨hcompleted, htotal⟩, hend⟩ := hend
  obtain ⟨a, ha, hend⟩ := (Option.any_eq_true _ _).1 hend
  rw [Bool.and_eq_true, beq_iff_eq] at hend
  obtain ⟨begun, hleads⟩ := exists_leads_of_makes hr
  obtain ⟨begun', hleads'⟩ := exists_leads_of_makes hs
  obtain ⟨notes, htale⟩ := hleads.exists_tale
  obtain ⟨notes', htale'⟩ := hleads'.exists_tale
  obtain ⟨hgrows, hresult, -⟩ := progress_agrees_iff htale htale'
  obtain ⟨hlast, hcount, -⟩ := hresult a ha
  rw [hcompleted, htotal] at hlast
  refine ⟨notes, notes', r, s, a, htale, htale', ha, hgrows (.inr fun p hp => bne_iff_ne.1 (hmade.1 p hp)),
    hlast hend.1, hend.2, ?_⟩
  omega

/-! ### A line that hangs -/

/-- One line. -/
def hangingLine : Request := { id := default, source := "a\n", language := .python, options := {} }

/-- It is withdrawn when the request is to stop. -/
def untilWithdrawn : List (Nat × RunMove) :=
  [(0, .next), (0, .chunk 0 .accepted), (50, .cancel), (50, .chunk 0 .withdrawn)]

/-- A chunk that was withdrawn is counted, although by the result nothing is done; and what is recorded falls. -/
theorem exists_withdrawn_counted : ∃ notes notes' r s a,
    Tale (new 0 hangingLine default false) untilWithdrawn notes r ∧ Tale r [(50, .conclude)] notes' s ∧
    s.result = some a ∧ (Note.events (notes ++ notes')).getLast? = some (.cancelled 1 1) ∧ a.doneChunks = 0 ∧
    r.recorded = 1 ∧ s.recorded = 0 := by
  have hmade : (((new 0 hangingLine default false).makes? anyMove untilWithdrawn).any fun r =>
      r.recorded == 1 && (r.makes? anyMove [(50, .conclude)]).any fun s =>
        s.completed == 1 && s.total == 1 && s.recorded == 0 && s.result.any fun a =>
          a.cancelled && a.doneChunks == 0) = true := by
    decide +kernel
  obtain ⟨r, hr, hmade⟩ := (Option.any_eq_true _ _).1 hmade
  rw [Bool.and_eq_true, beq_iff_eq] at hmade
  obtain ⟨s, hs, hend⟩ := (Option.any_eq_true _ _).1 hmade.2
  simp only [Bool.and_eq_true, beq_iff_eq] at hend
  obtain ⟨⟨⟨hcompleted, htotal⟩, hrecorded⟩, hend⟩ := hend
  obtain ⟨a, ha, hend⟩ := (Option.any_eq_true _ _).1 hend
  rw [Bool.and_eq_true, beq_iff_eq] at hend
  obtain ⟨begun, hleads⟩ := exists_leads_of_makes hr
  obtain ⟨begun', hleads'⟩ := exists_leads_of_makes hs
  obtain ⟨notes, htale⟩ := hleads.exists_tale
  obtain ⟨notes', htale'⟩ := hleads'.exists_tale
  have hlast := (htale.trans htale').getLast?_events ha
  rw [lastWord, if_pos hend.1, hcompleted, htotal] at hlast
  exact ⟨notes, notes', r, s, a, htale, htale', ha, hlast, hend.2, hmade.1, hrecorded⟩

end Run

end Pseudoscribe
