import Mathlib.Data.List.Flatten
import Mathlib.Logic.Function.Basic
import Pseudoscribe.Proofs.Run.Figures

/-!
# Metrics that runs share

Many runs can tell the same metrics what they count, and their figures are taken down as they come.  When all of them
have ended the sums agree with one another and with the results: every attempt at a chunk is counted once by itself and
once with its chunk, every chunk that was begun has one end, and every request is counted either with its result or
as rejected.
-/

namespace Pseudoscribe

/-- How many chunks of a result were tried at all. -/
def Assembly.triedChunks (a : Assembly) : Nat := a.chunks.countP (·.attempts != 0)

namespace Metrics

/-- The metrics of requests that have come to these ends. -/
structure Conserved (m : Metrics) (outcomes : List (Except RunError Assembly)) : Prop where
  /-- the attempts of the chunks are the attempts that were counted one by one -/
  attempts : (m.stats "chunk").counter "attempts" = (m.stats "chunk.attempt").count
  /-- every chunk has ended in one of three ways -/
  ends : (m.stats "chunk").counter "succeeded" + (m.stats "chunk").counter "abandoned" +
    (m.stats "chunk").counter "cancelled" = (m.stats "chunk").count
  /-- all attempts are retries but the first one at each chunk that was tried -/
  retries : (m.stats "chunk").counter "retries" +
    total ((outcomes.filterMap Except.toOption).map Assembly.triedChunks) = (m.stats "chunk").counter "attempts"
  /-- every attempt is counted with the state that it came to, and nothing else is -/
  states : total ((m.stats "chunk.attempt").counters.map Prod.snd) = (m.stats "chunk.attempt").count
  names : ∀ c ∈ (m.stats "chunk.attempt").counters, ∃ s : TaskState, c.1 = s.name
  results : (m.stats "translation").count = outcomes.countP (·.isOk)
  rejections : (m.stats "translation.rejected").count = outcomes.countP (!·.isOk)

end Metrics

/-! ## What the ends of chunks amount to -/

namespace ChunkEnd

/-- One chunk adds its attempts, its retries, and one to the ends of its kind. -/
theorem amountOf_counters (final : ChunkEnd) :
    amountOf "attempts" final.counters = final.attempts ∧
    amountOf "retries" final.counters + (if final.attempts != 0 then 1 else 0) = final.attempts ∧
    amountOf "succeeded" final.counters + amountOf "abandoned" final.counters +
      amountOf "cancelled" final.counters = 1 := by
  have hretries : final.attempts - 1 + (if final.attempts != 0 then 1 else 0) = final.attempts := by
    cases final.attempts <;> rfl
  cases final with
  | converted a n | abandoned reason n | cancelled n => exact ⟨rfl, hretries, rfl⟩

theorem total_amounts (ends : List ChunkEnd) :
    total (ends.map fun e => amountOf "attempts" e.counters) = total (ends.map attempts) ∧
    total (ends.map fun e => amountOf "retries" e.counters) + ends.countP (·.attempts != 0) =
      total (ends.map attempts) ∧
    total (ends.map fun e => amountOf "succeeded" e.counters) +
      total (ends.map fun e => amountOf "abandoned" e.counters) +
      total (ends.map fun e => amountOf "cancelled" e.counters) = ends.length := by
  induction ends with
  | nil => exact ⟨rfl, rfl, rfl⟩
  | cons final ends ih =>
    obtain ⟨hattempts, hretries, hends⟩ := ih
    obtain ⟨hattempts', hretries', hends'⟩ := final.amountOf_counters
    simp only [List.map_cons, total_cons, List.countP_cons, List.length_cons]
    refine ⟨?_, ?_, ?_⟩ <;> omega

end ChunkEnd

theorem total_states (states : List TaskState) :
    total ((states.map TaskState.counters).map fun cs => total (cs.map Prod.snd)) = states.length := by
  induction states with
  | nil => rfl
  | cons s states ih =>
    rw [List.map_cons, List.map_cons, total_cons, ih, List.length_cons]
    exact Nat.add_comm 1 _

namespace Note

/-- The notes count chunks that have ended like this and the attempts at them, for requests that have come to these
ends. -/
structure Accounts (notes : List Note) (ends : List ChunkEnd) (outcomes : List (Except RunError Assembly)) :
    Prop where
  chunks : (figures "chunk" notes).Perm (ends.map ChunkEnd.counters)
  attempts : ∃ states : List TaskState, (figures "chunk.attempt" notes).Perm (states.map TaskState.counters) ∧
    states.length = total (ends.map ChunkEnd.attempts)
  tried : ends.countP (·.attempts != 0) = total ((outcomes.filterMap Except.toOption).map Assembly.triedChunks)
  results : (figures "translation" notes).length = outcomes.countP (·.isOk)
  rejections : (figures "translation.rejected" notes).length = outcomes.countP (!·.isOk)

namespace Accounts

variable {notes more : List Note} {ends ends' : List ChunkEnd} {outcomes outcomes' : List (Except RunError Assembly)}

theorem nil : Accounts [] [] [] := ⟨.nil, ⟨[], .nil, rfl⟩, rfl, rfl, rfl⟩

theorem append (h : Accounts notes ends outcomes) (h' : Accounts more ends' outcomes') :
    Accounts (notes ++ more) (ends ++ ends') (outcomes ++ outcomes') := by
  obtain ⟨states, hstates, hlength⟩ := h.attempts
  obtain ⟨states', hstates', hlength'⟩ := h'.attempts
  refine ⟨?_, ⟨states ++ states', ?_, ?_⟩, ?_, ?_, ?_⟩
  · rw [figures_append, List.map_append]
    exact h.chunks.append h'.chunks
  · rw [figures_append, List.map_append]
    exact hstates.append hstates'
  · rw [List.length_append, hlength, hlength', List.map_append, total_append]
  · rw [List.countP_append, h.tried, h'.tried, List.filterMap_append, List.map_append, total_append]
  · rw [figures_append, List.length_append, h.results, h'.results, List.countP_append]
  · rw [figures_append, List.length_append, h.rejections, h'.rejections, List.countP_append]

/-- In which order the notes come does not matter. -/
theorem perm (h : Accounts notes ends outcomes) (hperm : more.Perm notes) : Accounts more ends outcomes := by
  have hfigures (name : String) : (figures name more).Perm (figures name notes) := hperm.filterMap _
  obtain ⟨states, hstates, hlength⟩ := h.attempts
  exact ⟨(hfigures _).trans h.chunks, ⟨states, (hfigures _).trans hstates, hlength⟩, h.tried,
    (hfigures _).length_eq.trans h.results, (hfigures _).length_eq.trans h.rejections⟩

/-- Metrics that were told notes that account for the ends of requests are conserved. -/
theorem conserved_ofNotes (h : Accounts notes ends outcomes) : (Metrics.ofNotes notes).Conserved outcomes := by
  have hchunk := Metrics.madeOf_ofNotes notes "chunk"
  have hattempt := Metrics.madeOf_ofNotes notes "chunk.attempt"
  obtain ⟨states, hstates, hlength⟩ := h.attempts
  obtain ⟨hattempts, hretries, hends⟩ := ChunkEnd.total_amounts ends
  have hcounter (key : String) : ((Metrics.ofNotes notes).stats "chunk").counter key =
      total (ends.map fun e => amountOf key e.counters) := by
    rw [hchunk.counter, Run.total_perm (h.chunks.map _), List.map_map]
    rfl
  have hcount : ((Metrics.ofNotes notes).stats "chunk.attempt").count = states.length := by
    rw [hattempt.count, hstates.length_eq, List.length_map]
  refine ⟨?_, ?_, ?_, ?_, fun c hc => ?_, ?_, ?_⟩
  · rw [hcounter, hattempts, hcount, hlength]
  · rw [hcounter, hcounter, hcounter, hends, hchunk.count, h.chunks.length_eq, List.length_map]
  · rw [hcounter, hcounter, ← h.tried, hretries, hattempts]
  · rw [hattempt.sum, Run.total_perm (hstates.map _), total_states, hcount]
  · obtain ⟨cs, hcs, hname⟩ := hattempt.names c hc
    obtain ⟨s, -, rfl⟩ := List.mem_map.1 (hstates.subset hcs)
    exact ⟨s, List.mem_singleton.1 hname⟩
  · rw [(Metrics.madeOf_ofNotes notes "translation").count, h.results]
  · rw [(Metrics.madeOf_ofNotes notes "translation.rejected").count, h.rejections]

end Accounts

end Note

/-! ## Requests that have come to an end -/

/-- What is told of a request that is rejected. -/
def RunError.rejection (err : RunError) : List Note :=
  [.figure "translation.rejected" none [], .event (.failed err.message)]

namespace Run

/-- A request has come to this end, and this was told of it: whatever moves its run has made until there was a
result, or why there is no run. -/
inductive Completed : Except RunError Assembly → List Note → Prop
  | ok {now : Nat} {request : Request} {spec : BackendSpec} {cancelled : Bool} {ms : List (Nat × RunMove)}
    {notes : List Note} {r : Run} {a : Assembly} (tale : Tale (new now request spec cancelled) ms notes r)
    (result : r.result = some a) : Completed (.ok a) (.event (.started r.total) :: notes)
  | error (err : RunError) : Completed (.error err) err.rejection

/-- A run with a result has counted the chunks that have ended, and all attempts were attempts at these. -/
theorem Completed.exists_accounts {outcome : Except RunError Assembly} {notes : List Note}
    (h : Completed outcome notes) : ∃ ends, Note.Accounts notes ends [outcome] := by
  cases h with
  | error err => exact ⟨[], .nil, ⟨[], .nil, rfl⟩, rfl, rfl, rfl⟩
  | @ok now request spec cancelled ms notes r a tale result =>
    have hcounted := tale.counted
    obtain ⟨begun, hleads⟩ := tale.exists_leads
    have horder := hleads.orderly (orderly_new now request spec cancelled)
    obtain ⟨hempty, -, -⟩ := horder.result a result
    have hfigures (name : String) : Note.figures name (.event (.started r.total) :: notes) = Note.figures name notes :=
      rfl
    obtain ⟨states, hstates, hlength⟩ := hcounted.attempts
    refine ⟨r.finals.map Prod.snd, ?_, ⟨states, ?_, ?_⟩, ?_, ?_, ?_⟩
    · rw [hfigures, hcounted.chunks, List.map_map]
      exact .refl _
    · rw [hfigures, hstates]
    · rw [hlength, attemptsMade, hempty, List.map_map]
      rfl
    · -- chunks that were never begun are reported as withdrawn, without any attempt
      have hreported := horder.countP_reports (p := fun x => x.attempts != 0) (q := fun final => final.attempts != 0)
        result rfl fun c report hr => by rw [hr.attempts]
      rw [List.countP_map]
      exact hreported.symm
    · rw [hfigures, hcounted.result, result]
      rfl
    · rw [hfigures, hcounted.accepted]
      rfl

theorem exists_accounts {outcomes : List (Except RunError Assembly)} {told : List (List Note)}
    (h : List.Forall₂ Completed outcomes told) : ∃ ends, Note.Accounts told.flatten ends outcomes := by
  induction h with
  | nil => exact ⟨[], .nil⟩
  | cons hfirst _ ih =>
    obtain ⟨ends, hends⟩ := hfirst.exists_accounts
    obtain ⟨ends', hends'⟩ := ih
    exact ⟨ends ++ ends', hends.append hends'⟩

theorem conserved_of_completed {outcomes : List (Except RunError Assembly)} {told : List (List Note)}
    {log : List Note} (h : List.Forall₂ Completed outcomes told) (hlog : log.Perm told.flatten) :
    (Metrics.ofNotes log).Conserved outcomes := by
  obtain ⟨ends, hends⟩ := exists_accounts h
  exact (hends.perm hlog).conserved_ofNotes

end Run

/-! ## The metrics of an engine -/

namespace Engine

/-- What a request has come to that was answered like this, if it has ended. -/
def outcome? (e : Engine) : Except RunError Nat → Option (Except RunError Assembly)
  | .ok number => (e.result? number).map .ok
  | .error err => some (.error err)

/-- An engine with metrics that were empty when it had no runs yet, and its answers to the requests that it was given
since then.  Between them it does what it can with its runs, and stops some. -/
inductive History : List (Except RunError Nat) → Engine → Prop
  | fresh (e : Engine) (runs : e.runs = []) (metrics : e.metrics = {}) : History [] e
  | works {answers : List (Except RunError Nat)} {e e' : Engine} (before : History answers e)
    (works : e.Works e') : History answers e'
  | start {answers : List (Except RunError Nat)} {e : Engine} (before : History answers e) (request : Request)
    (cancelled : Bool) : History (answers ++ [(e.start request cancelled).1]) (e.start request cancelled).2

/-- A request that is carried out is answered once. -/
theorem History.carryOut {answers : List (Except RunError Nat)} {e : Engine} (h : History answers e)
    (request : Request) (stopAt : Option Nat) :
    History (answers ++ [(e.carryOut request stopAt).1]) (e.carryOut request stopAt).2 := by
  have hstart := h.start request (stopAt == some 0)
  unfold Engine.carryOut
  split
  · next err e' hfound =>
    rw [hfound] at hstart
    exact hstart
  · next number e' hfound =>
    rw [hfound] at hstart
    cases stopAt with
    | none => exact hstart.works (e'.works_await number none)
    | some time => exact hstart.works (e'.works_awaitCancelled number time)

theorem numbers_follow (e : Engine) (n : Nat) (step : Run × List Note) :
    (e.follow n step).runs.map Prod.fst = e.runs.map Prod.fst := by
  have hruns : (e.follow n step).runs = (e.setRun n step.1).runs := runs_tellAll _ _ _
  rw [hruns, setRun, List.map_map]
  refine List.map_congr_left fun x _ => ?_
  dsimp only [Function.comp_apply]
  split
  · next heq => exact heq.symm
  · rfl

theorem metrics_follow (e : Engine) (n : Nat) (step : Run × List Note) :
    (e.follow n step).metrics = e.metrics.noteAll step.2 := metrics_tellAll (e.setRun n step.1) _ _

/-- What was told of a request that was answered like this, if this was told of the runs. -/
def toldOf (told : Nat → List Note) : Except RunError Nat → List Note
  | .ok number => told number
  | .error err => err.rejection

/-- All that a run has told since it was begun. -/
def Tells (r : Run) (notes : List Note) : Prop :=
  ∃ now request spec cancelled ms inner, Run.Tale (.new now request spec cancelled) ms inner r ∧
    notes = .event (.started r.total) :: inner

/-- The metrics of an engine were told what its runs have told and why other requests were rejected, in some order. -/
structure Recorded (answers : List (Except RunError Nat)) (e : Engine) (told : Nat → List Note)
    (log : List Note) : Prop where
  numbered : e.Numbered
  /-- the runs are those of the requests that were not rejected -/
  runs : e.runs.map Prod.fst = answers.filterMap Except.toOption
  nodup : (answers.filterMap Except.toOption).Nodup
  tells : ∀ n r, e.run? n = some r → Tells r (told n)
  metrics : e.metrics = .ofNotes log
  perm : log.Perm (answers.flatMap (toldOf told))

theorem toldOf_update_of_ne {told : Nat → List Note} {n : Nat} (notes : List Note) {answer : Except RunError Nat}
    (h : answer ≠ .ok n) : toldOf (Function.update told n notes) answer = toldOf told answer := by
  cases answer with
  | error err => rfl
  | ok m =>
    have hm : m ≠ n := fun heq => h (by rw [heq])
    exact Function.update_of_ne hm _ _

theorem flatMap_toldOf_update {told : Nat → List Note} {n : Nat} (notes : List Note)
    {answers : List (Except RunError Nat)} (h : n ∉ answers.filterMap Except.toOption) :
    answers.flatMap (toldOf (Function.update told n notes)) = answers.flatMap (toldOf told) := by
  refine List.flatMap_congr fun answer hanswer => toldOf_update_of_ne notes fun heq => h ?_
  exact List.mem_filterMap.2 ⟨answer, hanswer, by rw [heq]; rfl⟩

/-- What a run tells next is told of its request alone. -/
theorem perm_flatMap_toldOf {told : Nat → List Note} {n : Nat} (more : List Note)
    {answers : List (Except RunError Nat)} (hnodup : (answers.filterMap Except.toOption).Nodup)
    (hn : n ∈ answers.filterMap Except.toOption) :
    (answers.flatMap (toldOf (Function.update told n (told n ++ more)))).Perm
      (answers.flatMap (toldOf told) ++ more) := by
  obtain ⟨answer, hanswer, hok⟩ := List.mem_filterMap.1 hn
  obtain rfl : answer = .ok n := by
    cases answer with
    | error err => cases hok
    | ok m => rw [Option.some.inj hok]
  -- the number was given once, so no answer before or behind is about this run
  obtain ⟨before, behind, rfl⟩ := List.append_of_mem hanswer
  rw [List.filterMap_append, List.filterMap_cons_some (by rfl : (Except.ok n : Except RunError Nat).toOption = some n),
    List.nodup_append, List.nodup_cons] at hnodup
  obtain ⟨-, ⟨hbehind, -⟩, hbefore⟩ := hnodup
  have hnew : toldOf (Function.update told n (told n ++ more)) (.ok n) = told n ++ more := Function.update_self _ _ _
  rw [List.flatMap_append, List.flatMap_cons, List.flatMap_append, List.flatMap_cons, hnew,
    flatMap_toldOf_update _ fun hmem => hbefore n hmem n List.mem_cons_self rfl, flatMap_toldOf_update _ hbehind]
  simp only [List.append_assoc, toldOf]
  exact (List.perm_append_comm.append_left _).append_left _

namespace Recorded

variable {answers : List (Except RunError Nat)} {e e' : Engine} {told : Nat → List Note} {log : List Note}

theorem still (h : Recorded answers e told log) (hstill : e.Still e') : Recorded answers e' told log := by
  have hrun (n : Nat) : e'.run? n = e.run? n := congrArg (List.lookup n) hstill.runs
  refine ⟨(goesOn_of_aside hstill.toAside).numbered h.numbered, ?_, h.nodup, fun n r hr => ?_, ?_, h.perm⟩
  · rw [hstill.runs, h.runs]
  · exact h.tells n r ((hrun n).symm.trans hr)
  · rw [hstill.metrics, h.metrics]

theorem mem_answers (h : Recorded answers e told log) {n : Nat} {r : Run} (hrun : e.run? n = some r) :
    n ∈ answers.filterMap Except.toOption := by
  obtain ⟨before, behind, hruns, -⟩ := List.lookup_eq_some_iff.1 hrun
  rw [← h.runs, hruns, List.map_append]
  exact List.mem_append_right _ List.mem_cons_self

/-- A run takes over a step, and its notes are taken down. -/
theorem follow (h : Recorded answers e told log) {n : Nat} {r s : Run} {more : List Note} (hrun : e.run? n = some r)
    (hgoes : r.GoesOn s) (htells : Tells s (told n ++ more)) :
    Recorded answers (e.follow n (s, more)) (Function.update told n (told n ++ more)) (log ++ more) := by
  refine ⟨(goesOn_follow hrun hgoes).numbered h.numbered, ?_, h.nodup, fun m t ht => ?_, ?_, ?_⟩
  · rw [numbers_follow, h.runs]
  · rw [run?_follow] at ht
    by_cases hm : m = n
    · subst hm
      rw [if_pos rfl, hrun, Option.map_some] at ht
      obtain rfl := Option.some.inj ht
      rw [Function.update_self]
      exact htells
    · rw [if_neg hm] at ht
      rw [Function.update_of_ne hm]
      exact h.tells m t ht
  · rw [metrics_follow, h.metrics, Metrics.ofNotes_append]
  · exact (h.perm.append_right more).trans (perm_flatMap_toldOf more h.nodup (h.mem_answers hrun)).symm

theorem feed (h : Recorded answers e told log) (n : Nat) (m : RunMove) :
    ∃ told' log', Recorded answers (e.feed n m) told' log' := by
  unfold Engine.feed
  split
  · next step hstep =>
    obtain ⟨r, hrun, htook⟩ := Option.bind_eq_some_iff.1 hstep
    obtain ⟨s, more⟩ := step
    obtain ⟨made, htale⟩ := Run.exists_tale_step htook
    obtain ⟨now, request, spec, cancelled, ms, inner, hbefore, htold⟩ := h.tells n r hrun
    refine ⟨_, _, h.follow hrun (Run.goesOn_of_step htook)
      ⟨now, request, spec, cancelled, _, _, hbefore.trans htale, ?_⟩⟩
    rw [htold, htale.total_eq, List.cons_append]
  · exact ⟨told, log, h⟩

theorem works (h : Recorded answers e told log) (hworks : e.Works e') :
    ∃ told' log', Recorded answers e' told' log' := by
  induction hworks with
  | refl => exact ⟨told, log, h⟩
  | still _ hstill ih =>
    obtain ⟨told', log', hrecorded⟩ := ih
    exact ⟨told', log', hrecorded.still hstill⟩
  | feed _ n m ih =>
    obtain ⟨told', log', hrecorded⟩ := ih
    exact hrecorded.feed n m

/-- A request that is rejected is recorded as such. -/
theorem reject (h : Recorded answers e told log) (id : RequestId) (err : RunError) :
    Recorded (answers ++ [.error err]) (e.tellAll id err.rejection) told (log ++ err.rejection) := by
  have hgoes := e.goesOn_tellAll id err.rejection
  have hoks : (answers ++ [Except.error err]).filterMap Except.toOption = answers.filterMap Except.toOption := by
    rw [List.filterMap_append]
    exact List.append_nil _
  refine ⟨hgoes.numbered h.numbered, ?_, hoks ▸ h.nodup, h.tells, ?_, ?_⟩
  · rw [hoks, ← h.runs, runs_tellAll]
  · rw [metrics_tellAll, h.metrics, Metrics.ofNotes_append]
  · rw [List.flatMap_append]
    exact h.perm.append_right _

/-- A run is added under the next number, of which nothing was told yet. -/
theorem add (h : Recorded answers e told log) {r : Run} {now : Nat} {request : Request} {spec : BackendSpec}
    {cancelled : Bool} {ms : List (Nat × RunMove)} {inner : List Note}
    (htale : Run.Tale (.new now request spec cancelled) ms inner r) :
    ∃ told' log', Recorded (answers ++ [.ok e.nextRun])
      (({ e with runs := e.runs ++ [(e.nextRun, r)], nextRun := e.nextRun + 1 } : Engine).follow e.nextRun
        (r, .event (.started r.total) :: inner)) told' log' := by
  obtain ⟨hadd, hrun⟩ := goesOn_add h.numbered r
  have hnew : e.nextRun ∉ answers.filterMap Except.toOption := by
    intro hmem
    rw [← h.runs] at hmem
    obtain ⟨x, hx, heq⟩ := List.mem_map.1 hmem
    exact absurd (h.numbered x hx) (by rw [heq]; exact Nat.lt_irrefl _)
  have hoks : (answers ++ [Except.ok e.nextRun]).filterMap Except.toOption =
      answers.filterMap Except.toOption ++ [e.nextRun] := List.filterMap_append
  refine ⟨Function.update told e.nextRun (.event (.started r.total) :: inner),
    log ++ .event (.started r.total) :: inner, ?_, ?_, ?_, fun m s hs => ?_, ?_, ?_⟩
  · exact (goesOn_follow hrun (.refl r)).numbered (hadd.numbered h.numbered)
  · rw [numbers_follow, hoks, ← h.runs]
    exact List.map_append
  · rw [hoks, List.nodup_append]
    refine ⟨h.nodup, List.nodup_singleton _, fun m hm k hk heq => hnew ?_⟩
    rwa [← List.mem_singleton.1 hk, ← heq]
  · rw [run?_follow] at hs
    by_cases hm : m = e.nextRun
    · subst hm
      rw [if_pos rfl, hrun, Option.map_some] at hs
      obtain rfl := Option.some.inj hs
      rw [Function.update_self]
      exact ⟨now, request, spec, cancelled, ms, inner, htale, rfl⟩
    · rw [if_neg hm, run?_add_of_ne r hm] at hs
      rw [Function.update_of_ne hm]
      exact h.tells m s hs
  · rw [metrics_follow, Metrics.ofNotes_append, ← h.metrics]
  · have hself : toldOf (Function.update told e.nextRun (.event (.started r.total) :: inner)) (.ok e.nextRun) =
        .event (.started r.total) :: inner := Function.update_self _ _ _
    rw [List.flatMap_append, flatMap_toldOf_update _ hnew, List.flatMap_singleton, hself]
    exact h.perm.append_right _

/-- A request is answered: it is rejected, or its run is begun with. -/
theorem start (h : Recorded answers e told log) (request : Request) (cancelled : Bool) :
    ∃ told' log', Recorded (answers ++ [(e.start request cancelled).1]) (e.start request cancelled).2 told' log' := by
  have hclear : e.Still (e.clear request).2 := by
    rw [clear_snd]
    exact ⟨⟨rfl, rfl, rfl, rfl⟩, rfl⟩
  unfold Engine.start
  split
  · next err e' hfound =>
    rw [hfound] at hclear
    exact ⟨_, _, (h.still hclear).reject request.id err⟩
  · next spec e' hfound =>
    rw [hfound] at hclear
    obtain ⟨made, inner, htale, hnotes⟩ := Run.exists_tale_start e'.now request spec cancelled
    dsimp only
    -- the start of a run is not to be carried out here
    generalize Run.start e'.now request spec cancelled = first at htale hnotes ⊢
    obtain ⟨r, notes⟩ := first
    dsimp only at htale hnotes
    obtain rfl := hnotes
    obtain ⟨told', log', hadded⟩ := (h.still hclear).add htale
    exact hadded.works (works_offerAll _ _)

end Recorded

theorem History.recorded {answers : List (Except RunError Nat)} {e : Engine} (h : History answers e) :
    ∃ told log, Recorded answers e told log := by
  induction h with
  | fresh e hruns hmetrics =>
    refine ⟨fun _ => [], [], ?_, ?_, .nil, fun n r hr => ?_, hmetrics, .nil⟩
    · intro x hx
      rw [hruns] at hx
      cases hx
    · rw [hruns]
      rfl
    · rw [run?, hruns] at hr
      cases hr
  | works _ hworks ih =>
    obtain ⟨told, log, hrecorded⟩ := ih
    exact hrecorded.works hworks
  | start _ request cancelled ih =>
    obtain ⟨told, log, hrecorded⟩ := ih
    exact hrecorded.start request cancelled

/-- When all requests have come to an end, the metrics were told what these ends account for. -/
theorem Recorded.exists_completed {answers : List (Except RunError Nat)} {e : Engine} {told : Nat → List Note}
    {log : List Note} (h : Recorded answers e told log) {outcomes : List (Except RunError Assembly)}
    (hends : List.Forall₂ (fun answer outcome => e.outcome? answer = some outcome) answers outcomes) :
    List.Forall₂ Run.Completed outcomes (answers.map (toldOf told)) := by
  rw [List.forall₂_map_right_iff]
  refine hends.flip.imp fun outcome answer hend => ?_
  cases answer with
  | error err =>
    obtain rfl := Option.some.inj hend
    exact .error err
  | ok n =>
    obtain ⟨a, hresult, rfl⟩ := Option.map_eq_some_iff.1 hend
    obtain ⟨r, hrun, hr⟩ := Option.bind_eq_some_iff.1 hresult
    obtain ⟨now, request, spec, cancelled, ms, inner, htale, htold⟩ := h.tells n r hrun
    rw [toldOf, htold]
    exact .ok htale hr

/-- The figures of requests that have come to an end are conserved: however many runs tell the same metrics what they
count, and in whichever order their notes come; and so they are in an engine, whatever it has done with its runs. -/
theorem metrics_conserved :
    (∀ (outcomes : List (Except RunError Assembly)) (told : List (List Note)) (log : List Note),
      List.Forall₂ Run.Completed outcomes told → log.Perm told.flatten →
        (Metrics.ofNotes log).Conserved outcomes) ∧
    ∀ (answers : List (Except RunError Nat)) (outcomes : List (Except RunError Assembly)) (e : Engine),
      History answers e →
        List.Forall₂ (fun answer outcome => e.outcome? answer = some outcome) answers outcomes →
          e.metrics.Conserved outcomes := by
  refine ⟨fun outcomes told log h hlog => Run.conserved_of_completed h hlog, fun answers outcomes e h hends => ?_⟩
  obtain ⟨told, log, hrecorded⟩ := h.recorded
  rw [hrecorded.metrics]
  refine Run.conserved_of_completed (hrecorded.exists_completed hends) ?_
  rw [← List.flatMap_def]
  exact hrecorded.perm

/-! ### Two requests -/

/-- A line for a backend that the engine does not have. -/
def remoteLine : Request := { oneLine with id := ⟨"b"⟩, options := { backend := .remote } }

/-- A request is rejected while the line of another one hangs; and an engine rejects one behind a line that was
converted with the second attempt. -/
theorem metrics_conserved_of_two_requests :
    (∃ notes notes' r s a, Run.Tale (.new 0 Run.hangingLine default false) Run.untilWithdrawn notes r ∧
      Run.Tale r [(50, .conclude)] notes' s ∧ s.result = some a ∧ ∀ err : RunError,
        (Metrics.ofNotes (.event (.started s.total) :: notes ++ err.rejection ++ notes')).Conserved
          [.ok a, .error err]) ∧
    ∃ e a err, History [.ok 0, .error err] e ∧ e.outcome? (.ok 0) = some (.ok a) ∧
      e.metrics.Conserved [.ok a, .error err] ∧
      (e.metrics.stats "chunk").counters = [("succeeded", 1), ("attempts", 2), ("retries", 1)] ∧
      (e.metrics.stats "chunk.attempt").counters = [("failed", 1), ("succeeded", 1)] := by
  constructor
  · have hmade : (((Run.new 0 Run.hangingLine default false).makes? Run.anyMove Run.untilWithdrawn).any fun r =>
        (r.makes? Run.anyMove [(50, .conclude)]).any fun s => s.result.isSome) = true := by decide +kernel
    obtain ⟨r, hr, hmade⟩ := (Option.any_eq_true _ _).1 hmade
    obtain ⟨s, hs, hsome⟩ := (Option.any_eq_true _ _).1 hmade
    obtain ⟨a, ha⟩ := Option.isSome_iff_exists.1 hsome
    obtain ⟨begun, hleads⟩ := Run.exists_leads_of_makes hr
    obtain ⟨begun', hleads'⟩ := Run.exists_leads_of_makes hs
    obtain ⟨notes, htale⟩ := hleads.exists_tale
    obtain ⟨notes', htale'⟩ := hleads'.exists_tale
    refine ⟨notes, notes', r, s, a, htale, htale', ha, fun err => ?_⟩
    refine metrics_conserved.1 _ [.event (.started s.total) :: (notes ++ notes'), err.rejection] _
      (.cons (.ok (htale.trans htale') ha) (.cons (.error err) .nil)) ?_
    rw [List.flatten_cons, List.flatten_cons, List.flatten_nil, List.append_nil, ← List.cons_append,
      List.append_assoc, List.append_assoc]
    exact List.perm_append_comm.append_left _
  · have hhistory := ((History.fresh oneWorker rfl rfl).carryOut oneLine none).carryOut remoteLine none
    have hmade : (oneWorker.carryOut oneLine none).1.toOption = some 0 ∧
        ((oneWorker.carryOut oneLine none).2.carryOut remoteLine none).1.toOption = none ∧
        (((oneWorker.carryOut oneLine none).2.carryOut remoteLine none).2.result? 0).isSome = true ∧
        (((oneWorker.carryOut oneLine none).2.carryOut remoteLine none).2.metrics.stats "chunk").counters =
          [("succeeded", 1), ("attempts", 2), ("retries", 1)] ∧
        (((oneWorker.carryOut oneLine none).2.carryOut remoteLine none).2.metrics.stats "chunk.attempt").counters =
          [("failed", 1), ("succeeded", 1)] := by decide +kernel
    generalize oneWorker.carryOut oneLine none = first at hhistory hmade
    obtain ⟨hok, hmade⟩ := hmade
    generalize first.2.carryOut remoteLine none = second at hhistory hmade
    obtain ⟨herror, hresult, hchunk, hattempt⟩ := hmade
    obtain ⟨answer, e⟩ := first
    obtain ⟨answer', e'⟩ := second
    obtain ⟨a, ha⟩ := Option.isSome_iff_exists.1 hresult
    cases answer with
    | error err => cases hok
    | ok n =>
      obtain rfl : n = 0 := Option.some.inj hok
      cases answer' with
      | ok n => cases herror
      | error err =>
        have hend : e'.outcome? (.ok 0) = some (.ok a) := by rw [outcome?, ha, Option.map_some]
        exact ⟨e', a, err, hhistory, hend, metrics_conserved.2 _ _ _ hhistory (.cons hend (.cons rfl .nil)),
          hchunk, hattempt⟩

end Engine

end Pseudoscribe
