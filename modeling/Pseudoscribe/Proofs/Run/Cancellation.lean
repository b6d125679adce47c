import Pseudoscribe.Proofs.Assembly.Ownership
import Pseudoscribe.Proofs.Run.Result

/-!
# Cancellation

From the moment when a request is to stop, all that happens is that the chunks on their way are withdrawn and the
result is put together.  No attempt is handed to the pool any more.  What was converted before stays converted,
and the other chunks are kept as they stood in the source.
-/

namespace Pseudoscribe

/-! ## Withdrawing a chunk -/

namespace ChunkRun

/-- A chunk that is withdrawn has ended. -/
theorem ended_of_withdrawn {o : Options} {now : Nat} {c c' : ChunkRun} {notes : List Note}
    (h : Step o now c .withdrawn c' notes) : ∃ attempts, c'.stage = .ended (.cancelled attempts) := by
  cases h with
  | ends x hstage houtcome =>
    have hcancelled : x = .cancelled := by
      rcases hstage with hstage | hstage <;> rw [hstage] at houtcome <;> exact (Option.some.inj houtcome).symm
    rw [conclude_fst, hcancelled]
    exact ⟨c.attempt, rfl⟩
  | givesUp =>
    rw [cancel_fst]
    exact ⟨c.attempt, rfl⟩

theorem exists_withdrawal {c : ChunkRun} (o : Options) (now : Nat) (h : c.stage.final? = none) :
    (c.step? now o .withdrawn).isSome = true := by
  rw [step?]
  cases hstage : c.stage with
  | ended final =>
    rw [hstage] at h
    cases h
  | offered | underWay | resting => rfl

end ChunkRun

namespace Run

/-! ## Runs that are to stop -/

/-- What a run still has to do before it has a result, when it is to stop. -/
def stopsLeft (r : Run) : Nat := r.onWay.length + if r.result.isSome then 0 else 1

/-- The move withdraws a chunk or puts the result together.  In particular it begins no chunk and hands no attempt
to the pool. -/
def IsStopping (m : RunMove) : Prop := m = .conclude ∨ ∃ i, m = .chunk i .withdrawn

/-- These moves lead from one state of a run that is to stop to another. -/
structure Stops (r : Run) (moves : List (Nat × RunMove)) (begun : List Nat) (s : Run) : Prop where
  stopped : s.cancelled = true
  begun : begun = []
  stopping : ∀ p ∈ moves, IsStopping p.2
  /-- each of them is one that had to be made -/
  count : moves.length + s.stopsLeft = r.stopsLeft
  /-- the chunks that have ended stay, and all others that end are cancelled -/
  finals : ∃ more, s.finals = r.finals ++ more ∧ ∀ p ∈ more, p.2.status = .cancelled

/-- A chunk that is withdrawn leaves the others on their way. -/
theorem exists_place_withdrawn {r : Run} {begun : List Nat} {now : Nat} {c c' : ChunkRun} {notes : List Note}
    (horder : r.Orderly begun) (hc : c ∈ r.onWay)
    (hstep : ChunkRun.Step r.options now c .withdrawn c' notes) : ∃ others attempts,
      r.onWay.Perm (c :: others) ∧ (r.place c' notes).1.onWay.Perm others ∧
      (r.place c' notes).1.finals = r.finals ++ [(c'.chunk.index, .cancelled attempts)] := by
  obtain ⟨attempts, hended⟩ := ChunkRun.ended_of_withdrawn hstep
  obtain ⟨others, hbefore, hbehind⟩ := exists_onWay_place_known notes horder.nodup_onWay hc
    (ChunkRun.chunk_of_step hstep)
  have hgone : remaining c' = [] := by
    rw [remaining, hended]
    rfl
  rw [hgone, List.nil_append] at hbehind
  refine ⟨others, attempts, hbefore, hbehind, ?_⟩
  rw [finals_place, hended]
  rfl

/-- One move of a run that is to stop. -/
theorem stops_of_move {r s : Run} {begun : List Nat} {now : Nat} {m : RunMove} (horder : r.Orderly begun)
    (hstop : r.cancelled = true) (h : Move r now m s) : Stops r [(now, m)] (r.begins? m).toList s := by
  cases h with
  | next chunk rest hwaiting hroom hgoing =>
    rw [hstop] at hgoing
    cases hgoing
  | cancel hgoing =>
    rw [hstop] at hgoing
    cases hgoing
  | conclude hempty hlast hopen =>
    refine ⟨hstop, rfl, fun p hp => ?_, ?_, [], (List.append_nil _).symm, fun p hp => absurd hp List.not_mem_nil⟩
    · rw [List.mem_singleton.1 hp]
      exact .inl rfl
    · rw [stopsLeft, stopsLeft, hopen]
      dsimp only [List.length_singleton, Option.isSome_some, Option.isSome_none]
      rw [if_pos rfl, if_neg Bool.false_ne_true, Nat.add_zero, Nat.add_comm]
  | @chunk i input c c' notes hfound htaken htimed hmode =>
    -- nothing else happens to a chunk of a run that is to stop
    obtain rfl : input = .withdrawn := by
      rw [hstop] at hmode
      cases input <;> first | rfl | cases hmode
    obtain ⟨hc, -⟩ := mem_of_find? hfound
    obtain ⟨others, attempts, hbefore, hbehind, hfinals⟩ := exists_place_withdrawn horder hc
      (ChunkRun.step_cases htaken)
    refine ⟨(cancelled_place r c' notes).trans hstop, rfl, fun p hp => ?_, ?_, _, hfinals, fun p hp => ?_⟩
    · rw [List.mem_singleton.1 hp]
      exact .inr ⟨i, rfl⟩
    · rw [stopsLeft, stopsLeft, result_place, hbefore.length_eq, hbehind.length_eq, List.length_cons,
        List.length_cons, List.length_nil]
      omega
    · rw [List.mem_singleton.1 hp]
      rfl

theorem Stops.refl {r : Run} (hstop : r.cancelled = true) : Stops r [] [] r :=
  ⟨hstop, rfl, fun _ hp => absurd hp List.not_mem_nil, Nat.zero_add _, [], (List.append_nil _).symm,
    fun _ hp => absurd hp List.not_mem_nil⟩

theorem Stops.trans {r s t : Run} {ms ms' : List (Nat × RunMove)} {begun begun' : List Nat}
    (h : Stops r ms begun s) (h' : Stops s ms' begun' t) : Stops r (ms ++ ms') (begun ++ begun') t := by
  obtain ⟨more, hmore, hcancelled⟩ := h.finals
  obtain ⟨last, hlast, hcancelled'⟩ := h'.finals
  refine ⟨h'.stopped, ?_, fun p hp => ?_, ?_, more ++ last, ?_, fun p hp => ?_⟩
  · rw [h.begun, h'.begun, List.append_nil]
  · rcases List.mem_append.1 hp with hp | hp
    · exact h.stopping p hp
    · exact h'.stopping p hp
  · rw [List.length_append, ← h.count, ← h'.count, Nat.add_assoc]
  · rw [hlast, hmore, List.append_assoc]
  · rcases List.mem_append.1 hp with hp | hp
    · exact hcancelled p hp
    · exact hcancelled' p hp

/-- From the moment when a run is to stop, it only stops. -/
theorem Leads.stops {may : Run → RunMove → Prop} {r s : Run} {ms : List (Nat × RunMove)}
    {begun first : List Nat} (horder : r.Orderly first) (hstop : r.cancelled = true)
    (h : Leads may r ms begun s) : Stops r ms begun s := by
  induction h with
  | refl => exact .refl hstop
  | step now m before allowed made ih =>
    exact ih.trans (stops_of_move (before.orderly horder) ih.stopped (move_cases made))

/-- Every chunk on its way can be withdrawn, and leaves the others. -/
theorem exists_withdrawal {r : Run} {begun : List Nat} (horder : r.Orderly begun) (hstop : r.cancelled = true)
    (htimed : r.timeout?.isSome = true) {c : ChunkRun} {others : List ChunkRun} (hc : r.onWay.Perm (c :: others))
    (now : Nat) : ∃ s notes, r.move? now (.chunk c.chunk.index .withdrawn) = some (s, notes) ∧
      s.onWay.Perm others := by
  have hmem : c ∈ r.onWay := hc.symm.subset List.mem_cons_self
  obtain ⟨⟨c', notes⟩, htaken⟩ := Option.isSome_iff_exists.1
    (ChunkRun.exists_withdrawal r.options now (horder.going c hmem))
  obtain ⟨others', attempts, hbefore, hbehind, -⟩ := exists_place_withdrawn horder hmem
    (ChunkRun.step_cases htaken)
  have hsame : others'.Perm others := (List.perm_cons c).1 (hbefore.symm.trans hc)
  exact ⟨_, _, move?_chunk (horder.find?_eq hmem) htaken htimed hstop.symm, hbehind.trans hsame⟩

/-- A run that is to stop can go on until it has a result, unless attempts are on their way that cannot be
made. -/
theorem exists_stopping_move {r : Run} {begun : List Nat} (horder : r.Orderly begun)
    (hstop : r.cancelled = true) (hcan : r.timeout?.isSome = true ∨ r.onWay = []) (hopen : r.result = none)
    (now : Nat) : ∃ m, (r.move? now m).isSome = true := by
  cases honWay : r.onWay with
  | nil => exact ⟨.conclude, exists_move (.conclude honWay (.inr hstop) hopen)⟩
  | cons c others =>
    have htimed : r.timeout?.isSome = true := hcan.resolve_right (honWay ▸ List.cons_ne_nil c others)
    obtain ⟨s, notes, hmade, -⟩ := exists_withdrawal horder hstop htimed (.of_eq honWay) now
    exact ⟨.chunk c.chunk.index .withdrawn, by rw [hmade]; rfl⟩

/-! ### At once -/

theorem makeAll_cons_of_move {r s : Run} {now : Nat} {m : RunMove} {notes : List Note}
    (h : r.move? now m = some (s, notes)) (ms : List RunMove) :
    (r.makeAll now (m :: ms)).1 = (s.makeAll now ms).1 := by
  rw [makeAll, h]

/-- Chunks are withdrawn one after the other until none is left. -/
theorem exists_makeAll_withdrawn {r : Run} {begun : List Nat} (horder : r.Orderly begun)
    (hstop : r.cancelled = true) (htimed : r.timeout?.isSome = true) (now : Nat) {cs : List ChunkRun}
    (hcs : r.onWay.Perm cs) (ms : List RunMove) : ∃ s : Run, s.cancelled = true ∧ s.onWay = [] ∧
      (r.makeAll now (cs.map (fun c => .chunk c.chunk.index .withdrawn) ++ ms)).1 = (s.makeAll now ms).1 := by
  induction cs generalizing r begun with
  | nil => exact ⟨r, hstop, hcs.eq_nil, rfl⟩
  | cons c cs ih =>
    obtain ⟨s, notes, hmade, honWay⟩ := exists_withdrawal horder hstop htimed hcs now
    have hmove := move_cases hmade
    have htimed' : s.timeout?.isSome = true := by
      rw [timeout?, options, (fixed_of_move hmove).1]
      exact htimed
    obtain ⟨t, ht, hempty, hrest⟩ := ih (horder.move hmove) (stops_of_move horder hstop hmove).stopped htimed'
      honWay
    refine ⟨t, ht, hempty, ?_⟩
    rw [← hrest, List.map_cons, List.cons_append]
    exact makeAll_cons_of_move hmade _

/-- No chunk is begun any more. -/
theorem makeAll_next {r : Run} (hstop : r.cancelled = true) (now : Nat) (chunks : List Chunk)
    (ms : List RunMove) :
    (r.makeAll now (chunks.map (fun _ => .next) ++ ms)).1 = (r.makeAll now ms).1 := by
  have hnone : r.move? now .next = none := by
    rw [move?, next?, hstop, Bool.not_true]
    split
    · rfl
    · rw [Bool.and_false, if_neg Bool.false_ne_true]
  induction chunks with
  | nil => rfl
  | cons c cs ih =>
    rw [List.map_cons, List.cons_append, makeAll, hnone]
    exact ih

/-- With all moves that need nothing from outside a run that is to stop comes to its result. -/
theorem isSome_result_settle {r : Run} {begun : List Nat} (horder : r.Orderly begun)
    (hstop : r.cancelled = true) (htimed : r.timeout?.isSome = true) (now : Nat) :
    (r.settle now).1.result.isSome = true := by
  obtain ⟨s, hs, hempty, hrest⟩ := exists_makeAll_withdrawn horder hstop htimed now (.refl r.onWay)
    (r.waiting.map (fun _ => .next) ++ [.conclude])
  rw [settle, ownMoves, List.append_assoc, hrest, makeAll_next hs, makeAll, makeAll]
  cases hresult : s.result with
  | some a =>
    have hnone : s.move? now .conclude = none := by
      rw [move?, conclude?, hresult, Option.isNone_some, Bool.and_false, if_neg Bool.false_ne_true]
    rw [hnone]
    exact Option.isSome_iff_exists.2 ⟨a, hresult⟩
  | none =>
    obtain ⟨⟨t, notes⟩, hmade⟩ := Option.isSome_iff_exists.1
      (@exists_move s _ now .conclude (.conclude hempty (.inr hs) hresult))
    rw [hmade]
    have hconclude := move_cases hmade
    cases hconclude
    rfl

end Run

/-! ## What is left -/

namespace Assembly

/-- A result that keeps what it can of the chunks. -/
structure Salvaged (language : Language) (chunks : List Chunk) (ends : Chunk → ChunkEnd) (a : Assembly) :
    Prop where
  reports : List.Forall₂ (Reports ends) chunks a.chunks
  /-- it counts as cancelled exactly if one of the chunks was -/
  flag : a.cancelled = true ↔ ∃ r ∈ a.chunks, r.status = .cancelled
  /-- the one error of a chunk that was cancelled -/
  error : ∀ c ∈ chunks, (ends c).status = .cancelled →
    a.errorsFor c.index = [⟨c.index, "cancelled before completion, source kept verbatim"⟩]
  /-- the lines of all chunks, with the imports at the head -/
  code : a.code.toList = hoistedCode language ends (ownedLines ends chunks)
  /-- the source text of a chunk that was not converted, but for blank lines with which the code would begin
  behind imports that are moved -/
  verbatim : ∀ c ∈ chunks, (ends c).status ≠ .succeeded → ∃ dropped kept,
    c.text.toList = dropped ++ kept ∧ Text.isBlank dropped = true ∧ kept <:+: a.code.toList ∧
    (dropped ≠ [] → Moving language ends chunks)
  /-- the lines of any chunk that are not moved, but for such blank lines -/
  kept : ∀ c ∈ chunks, ∃ isLast dropped kept,
    staying language ends ((Text.pieces (share ends c isLast)).map (c, ·)) = dropped ++ kept ∧
    (∀ t ∈ dropped, Text.isBlank t = true) ∧ kept.flatten <:+: a.code.toList ∧
    (dropped ≠ [] → Moving language ends chunks)

theorem errorsOf_of_cancelled {ends : Chunk → ChunkEnd} {c : Chunk} (h : (ends c).status = .cancelled) :
    errorsOf ends c = [⟨c.index, "cancelled before completion, source kept verbatim"⟩] := by
  unfold errorsOf
  cases hfinal : ends c with
  | cancelled attempts => rfl
  | converted | abandoned =>
    rw [hfinal] at h
    cases h

/-- Some report has the status exactly if some chunk ended like that. -/
theorem exists_report_iff {ends : Chunk → ChunkEnd} {chunks : List Chunk} {reports : List ChunkReport}
    (h : List.Forall₂ (Reports ends) chunks reports) (status : ChunkStatus) :
    (∃ r ∈ reports, r.status = status) ↔ ∃ c ∈ chunks, (ends c).status = status := by
  induction h with
  | nil => simp
  | cons hr _ ih => simp only [List.mem_cons, exists_eq_or_imp, ih, hr.status]

end Assembly

namespace Run

open Assembly

theorem salvaged_reportOf (id : RequestId) (language : Language) {plan : ChunkPlan} (ends : Chunk → ChunkEnd)
    (h : (plan.chunks.map Chunk.index).Nodup) :
    Salvaged language plan.chunks ends (reportOf id language plan ends) := by
  obtain ⟨reports, hreports, hall⟩ := reports_addEach ends { id } plan.chunks
  have howned : Owned language ends (ofEnds id plan.chunks ends) (ownedLines ends plan.chunks) := by
    obtain ⟨htext, hwithin, hmovable⟩ := owned_addEach language ends id plan.chunks
    exact ⟨htext, hwithin, hmovable⟩
  have hchunks : List.Forall₂ (Reports ends) plan.chunks ((ofEnds id plan.chunks ends).hoist language).1.chunks :=
    reports_hoist language (hreports ▸ hall)
  have herrors : ((ofEnds id plan.chunks ends).hoist language).1.errors = plan.chunks.flatMap (errorsOf ends) := by
    rw [hoist_fst]
    exact errors_addEach ends { id } plan.chunks
  have hcancelled : ((ofEnds id plan.chunks ends).hoist language).1.cancelled =
      plan.chunks.any fun c => (ends c).status == .cancelled := by
    rw [hoist_fst]
    rfl
  rw [reportOf_eq]
  refine ⟨hchunks, ?_, fun c hc hstatus => ?_, howned.code_hoist, fun c hc hsource => ?_, fun c hc => ?_⟩
  · dsimp only
    rw [hcancelled, exists_report_iff hchunks, List.any_eq_true]
    simp only [beq_iff_eq]
  · unfold errorsFor
    dsimp only
    rw [herrors, filter_errorsOf h hc, errorsOf_of_cancelled hstatus]
  · dsimp only
    rw [howned.code_hoist]
    exact exists_verbatim language hc hsource
  · dsimp only
    rw [howned.code_hoist]
    exact exists_kept language ends hc

/-- A chunk keeps the end to which it came before the run was to stop, and all others are cancelled. -/
theorem endOf_of_stops {r s : Run} {moves : List (Nat × RunMove)} {begun begun' : List Nat}
    (horder : s.Orderly begun) (h : Stops r moves begun' s) (c : Chunk) :
    (∀ final, (c.index, final) ∈ r.finals → endOf s.finals c = final) ∧
      (c.index ∉ r.finals.map Prod.fst → (endOf s.finals c).status = .cancelled) := by
  obtain ⟨more, hmore, hcancelled⟩ := h.finals
  constructor
  · intro final hfinal
    exact endOf_of_mem horder.belong.nodup (hmore ▸ List.mem_append_left _ hfinal)
  · intro hnone
    by_cases hmem : c.index ∈ s.finals.map Prod.fst
    · obtain ⟨⟨i, final⟩, hfinal, rfl⟩ := List.mem_map.1 hmem
      rw [endOf_of_mem horder.belong.nodup hfinal]
      rw [hmore] at hfinal
      rcases List.mem_append.1 hfinal with hfinal | hfinal
      · exact absurd (List.mem_map_of_mem hfinal) hnone
      · exact hcancelled _ hfinal
    · rw [endOf_of_notMem hmem]
      rfl

/-- Cancellation is safe.  From any moment at which a run is to stop, nothing is begun and no attempt is handed to
the pool.  The run can always go on until it has a result, and comes to it with as many moves as chunks are on
their way and one more, all of which it makes by itself.  The result counts as cancelled exactly if a chunk
does; each such chunk has one error and its source text in the code, and each chunk that was converted before has
its code there, with the imports moved to the head. -/
theorem cancellation_safe {request : Request} {spec : BackendSpec} {cancelled : Bool} {now : Nat}
    {ms ms' : List (Nat × RunMove)} {begun begun' : List Nat} {r s : Run}
    (hleads : Leads anyMove (new now request spec cancelled) ms begun r) (hstop : r.cancelled = true)
    (hrest : Leads anyMove r ms' begun' s) :
    Stops r ms' begun' s ∧
    (request.options.timeout?.isSome = true ∨ s.onWay = [] → s.result = none →
      ∀ t, ∃ m, (s.move? t m).isSome = true) ∧
    (request.options.timeout?.isSome = true → ∀ t, (s.settle t).1.result.isSome = true) ∧
    ∀ a, s.result = some a →
      Salvaged request.language r.plan.chunks (endOf s.finals) a ∧
      ∀ c ∈ r.plan.chunks, (∀ final, (c.index, final) ∈ r.finals → endOf s.finals c = final) ∧
        (c.index ∉ r.finals.map Prod.fst → (endOf s.finals c).status = .cancelled) := by
  have hbefore := hleads.orderly (orderly_new now request spec cancelled)
  have hbehind := hrest.orderly hbefore
  have hstops := hrest.stops hbefore hstop
  obtain ⟨hrequest, -, -⟩ := hleads.fixed
  obtain ⟨hrequest', -, hplan⟩ := hrest.fixed
  have hsame : s.request = request := hrequest'.trans hrequest
  have htimeout : s.timeout? = request.options.timeout? := by rw [timeout?, options, hsame]
  refine ⟨hstops, fun hcan hopen t => ?_, fun htimed t => ?_,
    fun a ha => ⟨?_, fun c _ => endOf_of_stops hbehind hstops c⟩⟩
  · exact exists_stopping_move hbehind hstops.stopped (htimeout ▸ hcan) hopen t
  · exact isSome_result_settle hbehind hstops.stopped (htimeout ▸ htimed) t
  · rw [hbehind.result_eq ha, hsame, ← hplan]
    exact salvaged_reportOf _ _ _ hbehind.nodup_index

/-! ### A chunk that hangs -/

/-- Two chunks of one call each, with empty lines before the first. -/
def twoCalls : Request :=
  { id := default
    source := "\n\n\nf(0)\ng(1)\n"
    language := .python
    options := { maxChunkSize := 8, workerCount := 2 } }

/-- The second call is converted, and then the request is to stop while the first one still hangs. -/
def untilStop : List (Nat × RunMove) :=
  [(0, .next), (0, .next), (0, .chunk 0 .accepted), (0, .chunk 1 .accepted),
    (1, .chunk 1 (.outcome (.completed (.ofCode "import os\n# g(1)\n" 1 {})))), (50, .cancel)]

def behindStop : List (Nat × RunMove) := [(50, .chunk 0 .withdrawn), (50, .conclude)]

theorem cancellation_safe_of_hanging : ∃ begun begun' r s a,
    Leads anyMove (new 0 twoCalls default false) untilStop begun r ∧ r.cancelled = true ∧
    Leads anyMove r behindStop begun' s ∧ s.result = some a ∧ Stops r behindStop begun' s ∧
    Salvaged .python r.plan.chunks (endOf s.finals) a := by
  have hmade : (((new 0 twoCalls default false).makes? anyMove untilStop).any fun r =>
      r.cancelled && ((r.makes? anyMove behindStop).bind Run.result).isSome) = true := by decide +kernel
  obtain ⟨r, hr, hrest⟩ := (Option.any_eq_true _ _).1 hmade
  rw [Bool.and_eq_true] at hrest
  obtain ⟨begun, hleads⟩ := exists_leads_of_makes hr
  obtain ⟨begun', s, a, hleads', ha⟩ := exists_result_of_makes hrest.2
  obtain ⟨hstops, -, -, hresult⟩ := cancellation_safe hleads hrest.1 hleads'
  exact ⟨begun, begun', r, s, a, hleads, hrest.1, hleads', ha, hstops, (hresult a ha).1⟩

/-- The text of a chunk that was cancelled need not stand in the code as it is: it loses empty lines at its
beginning to an import that is moved to the head. -/
theorem exists_cancelled_not_verbatim : ∃ begun s a c,
    Leads anyMove (new 0 twoCalls default false) (untilStop ++ behindStop) begun s ∧ s.result = some a ∧
    c ∈ s.plan.chunks ∧ (endOf s.finals c).status = .cancelled ∧ ¬ c.text.toList <:+: a.code.toList := by
  have hmade : (((new 0 twoCalls default false).makes? anyMove (untilStop ++ behindStop)).any fun s =>
      s.result.any fun a => s.plan.chunks.any fun c =>
        (endOf s.finals c).status == .cancelled && !decide (c.text.toList <:+: a.code.toList)) = true := by
    decide +kernel
  obtain ⟨s, hs, hmade⟩ := (Option.any_eq_true _ _).1 hmade
  obtain ⟨a, ha, hmade⟩ := (Option.any_eq_true _ _).1 hmade
  obtain ⟨c, hc, hmade⟩ := List.any_eq_true.1 hmade
  obtain ⟨begun, hleads⟩ := exists_leads_of_makes hs
  simp only [Bool.and_eq_true, beq_iff_eq, Bool.not_eq_true', decide_eq_false_iff_not] at hmade
  exact ⟨begun, s, a, c, hleads, ha, hc, hmade.1, hmade.2⟩

end Run

end Pseudoscribe
