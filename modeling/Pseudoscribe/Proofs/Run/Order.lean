import Pseudoscribe.Proofs.Run.Result

/-!
# Independence of order

How a chunk ends depends on the outcomes of its own attempts, and the result of a run on how its chunks end.  So
it makes no difference in which order the attempts end, how the chunks take turns, and how many of them may be
on their way at the same time.
-/

namespace Pseudoscribe

/-! ## One chunk -/

/-- The end of a chunk whose attempts have these outcomes, by their numbers: the first verdict. -/
def ChunkEnd.Decided (o : Options) (outcomes : Nat → TaskOutcome) (final : ChunkEnd) : Prop :=
  ∃ k, 1 ≤ k ∧ (outcomes k).verdict? o k = some final ∧
    ∀ j, 1 ≤ j → j < k → (outcomes j).verdict? o j = none

theorem ChunkEnd.Decided.unique {o : Options} {outcomes : Nat → TaskOutcome} {final final' : ChunkEnd}
    (h : final.Decided o outcomes) (h' : final'.Decided o outcomes) : final = final' := by
  obtain ⟨k, hk, hfinal, hbefore⟩ := h
  obtain ⟨k', hk', hfinal', hbefore'⟩ := h'
  rcases Nat.lt_trichotomy k k' with hlt | rfl | hlt
  · rw [hbefore' k hk hlt] at hfinal
    cases hfinal
  · exact Option.some.inj (hfinal.symm.trans hfinal')
  · rw [hbefore k' hk' hlt] at hfinal'
    cases hfinal'

/-- The end of a chunk; a blank one is its own conversion. -/
def ChunkEnd.Follows (o : Options) (p : Provenance) (outcomes : Nat → TaskOutcome) (chunk : Chunk)
    (final : ChunkEnd) : Prop :=
  if chunk.isBlank then final = .converted (.ofCode chunk.text 1 p) 0 else final.Decided o outcomes

theorem ChunkEnd.Follows.unique {o : Options} {p : Provenance} {outcomes : Nat → TaskOutcome} {chunk : Chunk}
    {final final' : ChunkEnd} (h : final.Follows o p outcomes chunk)
    (h' : final'.Follows o p outcomes chunk) : final = final' := by
  unfold Follows at h h'
  split at h
  · next hblank =>
    rw [if_pos hblank] at h'
    rw [h, h']
  · next hblank =>
    rw [if_neg hblank] at h'
    exact h.unique h'

namespace ChunkRun

/-- The chunk stands where attempts with these outcomes lead: none before the present one decides, and if it
rests the present one does not either. -/
structure OnTrack (o : Options) (outcomes : Nat → TaskOutcome) (c : ChunkRun) : Prop where
  nonblank : c.chunk.isBlank = false
  pos : 1 ≤ c.attempt
  before : ∀ j, 1 ≤ j → j < c.attempt → (outcomes j).verdict? o j = none
  resting : ∀ time, c.stage = .resting time → (outcomes c.attempt).verdict? o c.attempt = none

theorem onTrack_start {o : Options} (outcomes : Nat → TaskOutcome) (now : Nat) (p : Provenance) {chunk : Chunk}
    (h : chunk.isBlank = false) : (start now p chunk).1.OnTrack o outcomes := by
  rw [start_nonblank h]
  exact ⟨h, Nat.le_refl 1, fun j hj hlt => absurd hj (Nat.not_le.2 hlt), fun time hrests => by cases hrests⟩

/-- A step leads on, and if the chunk ends with it the end is the one that is decided. -/
theorem OnTrack.step {o : Options} {outcomes : Nat → TaskOutcome} {now : Nat} {c c' : ChunkRun}
    {input : ChunkInput} {notes : List Note} (h : c.OnTrack o outcomes) (hstep : Step o now c input c' notes)
    (hgoing : input ≠ .withdrawn) (hheeds : ∀ x ∈ input.outcome? c.stage, x = outcomes c.attempt) :
    (c'.stage.final? = none → c'.OnTrack o outcomes) ∧
      ∀ final, c'.stage = .ended final → final.Decided o outcomes := by
  cases hstep with
  | accepted hstage =>
    refine ⟨fun _ => ⟨h.nonblank, h.pos, h.before, fun time hrests => ?_⟩, fun final hended => ?_⟩
    · cases hrests
    · cases hended
  | ends x hstage houtcome =>
    -- the outcome is the given one, so its verdict says whether this attempt decides
    obtain rfl : x = outcomes c.attempt := hheeds x houtcome
    rw [conclude_fst]
    dsimp only [TaskOutcome.stageAfter]
    cases hverdict : (outcomes c.attempt).verdict? o c.attempt with
    | none =>
      refine ⟨fun _ => ⟨h.nonblank, h.pos, h.before, fun _ _ => hverdict⟩, fun final hended => ?_⟩
      cases hended
    | some final =>
      refine ⟨fun hnone => ?_, fun final' hended => ?_⟩
      · cases hnone
      · cases hended
        exact ⟨c.attempt, h.pos, hverdict, h.before⟩
  | wakes time hstage hdue =>
    have hfailed := h.resting time hstage
    rw [wake_fst]
    refine ⟨fun _ => ⟨h.nonblank, Nat.le_add_left 1 _, fun j hj hlt => ?_, fun time hrests => ?_⟩,
      fun final hended => ?_⟩
    · rcases Nat.lt_succ_iff_lt_or_eq.1 hlt with hlt | rfl
      · exact h.before j hj hlt
      · exact hfailed
    · cases hrests
    · cases hended
  | givesUp => exact absurd rfl hgoing

/-- A chunk that goes on can take a step, with the outcome that is given if its attempt ends. -/
theorem exists_step {c : ChunkRun} (o : Options) (x : TaskOutcome) (t : Nat) (hgoing : c.stage.final? = none) :
    ∃ now input, t ≤ now ∧ input.isWithdrawal = false ∧ (∀ y ∈ input.outcome? c.stage, y = x) ∧
      (c.step? now o input).isSome = true := by
  cases hstage : c.stage with
  | offered =>
    refine ⟨t, .accepted, Nat.le_refl t, rfl, fun y hy => ?_, ?_⟩
    · cases hy
    · rw [step?, if_pos hstage, Option.isSome_some]
  | underWay =>
    refine ⟨t, .outcome x, Nat.le_refl t, rfl, fun y hy => (Option.some.inj hy).symm, ?_⟩
    rw [step?, if_pos hstage, Option.isSome_some]
  | resting time =>
    refine ⟨max t time, .rested, Nat.le_max_left t time, rfl, fun y hy => ?_, ?_⟩
    · cases hy
    · rw [step?, hstage]
      dsimp only
      rw [if_pos (Nat.le_max_right t time), Option.isSome_some]
  | ended final =>
    rw [hstage] at hgoing
    cases hgoing

end ChunkRun

namespace Run

/-! ## Runs with given outcomes -/

/-- The move keeps to the outcomes, by the index of the chunk and the number of the attempt, and the run is not
to stop. -/
def Heeds (outcomes : Nat → Nat → TaskOutcome) (r : Run) : RunMove → Prop
  | .chunk i input => ∀ c ∈ r.find? i, ∀ x ∈ input.outcome? c.stage, x = outcomes i c.attempt
  | .cancel => False
  | .next | .conclude => True

instance (outcomes : Nat → Nat → TaskOutcome) (r : Run) (m : RunMove) : Decidable (Heeds outcomes r m) :=
  match m with
  | .chunk _ _ => inferInstanceAs (Decidable (∀ c ∈ _, ∀ x ∈ _, _))
  | .cancel => inferInstanceAs (Decidable False)
  | .next => inferInstanceAs (Decidable True)
  | .conclude => inferInstanceAs (Decidable True)

/-- The chunks of the run stand, and have ended, as the outcomes say. -/
structure Heedful (outcomes : Nat → Nat → TaskOutcome) (r : Run) : Prop where
  going : r.cancelled = false
  onTrack : ∀ c ∈ r.onWay, c.OnTrack r.options (outcomes c.chunk.index)
  finals : ∀ p ∈ r.finals, ∃ chunk, r.plan.chunks[p.1]? = some chunk ∧
    p.2.Follows r.options r.provenance (outcomes p.1) chunk ∧ (r.timeout? = none → chunk.isBlank = true)

/-- One move that heeds the outcomes. -/
theorem Heedful.move {outcomes : Nat → Nat → TaskOutcome} {r r' : Run} {begun : List Nat} {now : Nat}
    {m : RunMove} (horder : r.Orderly begun) (h : r.Heedful outcomes) (hheeds : Heeds outcomes r m)
    (hmove : Move r now m r') : r'.Heedful outcomes := by
  cases hmove with
  | next chunk rest hwaiting hroom hgoing =>
    obtain ⟨hfirst, hindex, -, -⟩ := horder.next_waiting hwaiting
    have hchunk := ChunkRun.chunk_start now r.provenance chunk
    have hframe := place_fst { r with waiting := rest } (ChunkRun.start now r.provenance chunk).1
      (ChunkRun.start now r.provenance chunk).2
    have hmem {x : ChunkRun} := @mem_onWay_place { r with waiting := rest }
      (ChunkRun.start now r.provenance chunk).1 x (ChunkRun.start now r.provenance chunk).2
    generalize (place { r with waiting := rest } _ _).1 = s at hframe hmem ⊢
    rw [hframe]
    refine ⟨h.going, fun x hx => ?_, fun p hp => ?_⟩
    · rcases hmem hx with hx | hx
      · exact h.onTrack x hx
      · obtain ⟨rfl, hfinal⟩ := mem_remaining hx
        cases hblank : chunk.isBlank with
        | false => exact ChunkRun.onTrack_start _ now r.provenance hblank
        | true =>
          rw [ChunkRun.start, hblank] at hfinal
          cases hfinal
    · rcases mem_finals_place hp with hp | ⟨hp, hended⟩
      · exact h.finals p hp
      · refine ⟨chunk, by rw [hp, hchunk, hindex]; exact hfirst, ?_⟩
        cases hblank : chunk.isBlank with
        | false =>
          rw [ChunkRun.start_nonblank hblank] at hended
          cases hended
        | true =>
          rw [ChunkRun.start, hblank] at hended
          rw [ChunkEnd.Follows, if_pos hblank]
          exact ⟨(ChunkStage.ended.inj hended).symm, fun _ => rfl⟩
  | @chunk i input c c' notes hfound htaken htimed hmode =>
    obtain ⟨hc, hi⟩ := mem_of_find? hfound
    have hchunk : c'.chunk = c.chunk := ChunkRun.chunk_of_step (ChunkRun.step_cases htaken)
    -- a run that is not to stop withdraws nothing
    have hgoing : input ≠ .withdrawn := by
      rintro rfl
      rw [h.going] at hmode
      cases hmode
    obtain ⟨hon, hend⟩ := (h.onTrack c hc).step (ChunkRun.step_cases htaken) hgoing
      fun x hx => hi ▸ hheeds c hfound x hx
    have hframe := place_fst r c' notes
    have hmem {x : ChunkRun} := @mem_onWay_place r c' x notes
    generalize (r.place c' notes).1 = s at hframe hmem ⊢
    rw [hframe]
    refine ⟨h.going, fun x hx => ?_, fun p hp => ?_⟩
    · rcases hmem hx with hx | hx
      · exact h.onTrack x hx
      · obtain ⟨rfl, hfinal⟩ := mem_remaining hx
        rw [hchunk]
        exact hon hfinal
    · rcases mem_finals_place hp with hp | ⟨hp, hended⟩
      · exact h.finals p hp
      · refine ⟨c.chunk, by rw [hp, hchunk]; exact horder.own c hc, ?_⟩
        have hnonblank := (h.onTrack c hc).nonblank
        rw [ChunkEnd.Follows, if_neg (by rw [hnonblank]; exact Bool.false_ne_true), hp, hchunk]
        refine ⟨hend p.2 hended, fun huntimed => ?_⟩
        have huntimed : r.timeout? = none := huntimed
        rw [huntimed] at htimed
        cases htimed
  | cancel => exact absurd hheeds id
  | conclude => exact ⟨h.going, h.onTrack, h.finals⟩

theorem heedful_new (outcomes : Nat → Nat → TaskOutcome) (now : Nat) (request : Request) (spec : BackendSpec) :
    Heedful outcomes (new now request spec false) :=
  ⟨rfl, fun _ h => absurd h List.not_mem_nil, fun _ h => absurd h List.not_mem_nil⟩

/-- Every run that heeds the outcomes. -/
theorem Leads.heedful {outcomes : Nat → Nat → TaskOutcome} {r s : Run} {ms : List (Nat × RunMove)}
    {begun first : List Nat} (hfirst : r.Orderly first) (h : r.Heedful outcomes)
    (hleads : Leads (Heeds outcomes) r ms begun s) : s.Heedful outcomes := by
  induction hleads with
  | refl => exact h
  | step now m before allowed made ih => exact ih.move (before.orderly hfirst) allowed (move_cases made)

section Heedful

variable {outcomes : Nat → Nat → TaskOutcome} {r : Run} {begun : List Nat}

/-- A chunk of a run with a result ended as the outcomes say. -/
theorem Heedful.follows (h : r.Heedful outcomes) (horder : r.Orderly begun) {a : Assembly}
    (ha : r.result = some a) {c : Chunk} (hc : c ∈ r.plan.chunks) :
    (Assembly.endOf r.finals c).Follows r.options r.provenance (outcomes c.index) c ∧
      (r.timeout? = none → c.isBlank = true) := by
  obtain ⟨final, hmem⟩ := horder.exists_final ha h.going hc
  obtain ⟨chunk, hchunk, hfollows⟩ := h.finals _ hmem
  obtain rfl : c = chunk := Option.some.inj ((horder.getElem?_index hc).symm.trans hchunk)
  rw [Assembly.endOf_of_mem horder.belong.nodup hmem]
  exact hfollows

/-- The attempts of the run can be made, or it needs none. -/
def CanEnd (r : Run) : Prop := r.timeout?.isSome = true ∨ ∀ c ∈ r.plan.chunks, c.isBlank = true

/-- As long as a run has no result it can move on, at any later time. -/
theorem Heedful.exists_next (h : r.Heedful outcomes) (horder : r.Orderly begun) (hcan : r.CanEnd)
    (hopen : r.result = none) (t : Nat) :
    ∃ now m, t ≤ now ∧ Heeds outcomes r m ∧ (r.move? now m).isSome = true := by
  cases honWay : r.onWay with
  | nil =>
    cases hwaiting : r.waiting with
    | nil => exact ⟨t, .conclude, Nat.le_refl t, trivial, exists_move (.conclude honWay (.inl hwaiting) hopen)⟩
    | cons chunk rest =>
      have hroom : r.onWay.length < r.limit := by
        rw [honWay]
        exact Nat.lt_of_lt_of_le Nat.zero_lt_one (Nat.le_max_left 1 _)
      exact ⟨t, .next, Nat.le_refl t, trivial, exists_move (.next chunk rest hwaiting hroom h.going)⟩
  | cons c others =>
    have hmem : c ∈ r.onWay := honWay ▸ List.mem_cons_self
    have htimed : r.timeout?.isSome = true := by
      refine hcan.resolve_right fun hall => ?_
      have hblank := hall _ (List.mem_of_getElem? (horder.own c hmem))
      rw [(h.onTrack c hmem).nonblank] at hblank
      cases hblank
    have hfound := horder.find?_eq hmem
    obtain ⟨now, input, htime, hgoing, hheeds, hstep⟩ := ChunkRun.exists_step r.options
      (outcomes c.chunk.index c.attempt) t (horder.going c hmem)
    obtain ⟨⟨c', notes⟩, htaken⟩ := Option.isSome_iff_exists.1 hstep
    refine ⟨now, .chunk c.chunk.index input, htime, fun e he => ?_,
      exists_move (.chunk hfound htaken htimed (hgoing.trans h.going.symm))⟩
    obtain rfl := Option.mem_unique hfound he
    exact hheeds

/-- A run that needs attempts that cannot be made has no result. -/
theorem Heedful.result_none (h : r.Heedful outcomes) (horder : r.Orderly begun) (hcannot : ¬ r.CanEnd) :
    r.result = none := by
  cases hresult : r.result with
  | none => rfl
  | some a =>
    refine absurd ?_ hcannot
    cases htimed : r.timeout? with
    | some d => exact .inl (by rw [htimed]; rfl)
    | none => exact .inr fun c hc => (h.follows horder hresult hc).2 htimed

end Heedful

end Run

/-- The same request with another number of chunks that may be on their way at the same time. -/
def Request.withWorkers (request : Request) (workers : Nat) : Request :=
  { request with options := { request.options with workerCount := workers } }

namespace Run

/-- Two runs for a request that heed the same outcomes, with any number of chunks on their way, come to the same
result. -/
theorem result_unique {outcomes : Nat → Nat → TaskOutcome} {request : Request} {spec : BackendSpec}
    {w now now' : Nat} {ms ms' : List (Nat × RunMove)} {begun begun' : List Nat} {r r' : Run}
    {a a' : Assembly} (hleads : Leads (Heeds outcomes) (new now request spec false) ms begun r)
    (hleads' : Leads (Heeds outcomes) (new now' (request.withWorkers w) spec false) ms' begun' r')
    (ha : r.result = some a) (ha' : r'.result = some a') : a = a' := by
  have horder := hleads.orderly (orderly_new now _ spec false)
  have horder' := hleads'.orderly (orderly_new now' _ spec false)
  have hheedful := hleads.heedful (orderly_new now _ spec false) (heedful_new outcomes now _ spec)
  have hheedful' := hleads'.heedful (orderly_new now' _ spec false) (heedful_new outcomes now' _ spec)
  obtain ⟨hrequest, hspec, hplan⟩ := hleads.fixed
  obtain ⟨hrequest', hspec', hplan'⟩ := hleads'.fixed
  have hsame : r'.plan = r.plan := hplan'.trans hplan.symm
  have hends (c : Chunk) (hc : c ∈ r.plan.chunks) :
      Assembly.endOf r.finals c = Assembly.endOf r'.finals c := by
    have hfollows := (hheedful.follows horder ha hc).1
    have hfollows' := (hheedful'.follows horder' ha' (hsame.symm ▸ hc)).1
    rw [options, provenance, hrequest, hspec] at hfollows
    rw [options, provenance, hrequest', hspec'] at hfollows'
    exact hfollows.unique hfollows'
  rw [horder.result_eq ha, horder'.result_eq ha', hrequest, hrequest', hsame]
  exact reportOf_congr _ _ hends

/-! ## All runs -/

/-- The chunks were begun in the order of the plan, each once, and no more of them are on their way than the
workers. -/
structure Paced (workers : Nat) (begun : List Nat) (r : Run) : Prop where
  room : r.onWay.length ≤ workers
  order : begun = List.range begun.length
  once : r.begunChunks.Perm begun
  /-- all of them were begun when a run has a result that was not to stop -/
  complete : ∀ a, r.result = some a → r.cancelled = false → begun = List.range r.total

/-- A run that began like `first` comes to its end after so many moves, if the attempts can be made that it
needs; else it has none. -/
structure Ends (outcomes : Nat → Nat → TaskOutcome) (first : Run) (moves : Nat) (r : Run) : Prop where
  bounded : moves + r.movesLeft ≤ first.movesLeft
  goesOn : first.CanEnd → r.result = none →
    ∀ t, ∃ now m, t ≤ now ∧ Heeds outcomes r m ∧ (r.move? now m).isSome = true
  stranded : ¬ first.CanEnd → r.result = none

theorem Leads.paced {may : Run → RunMove → Prop} {request : Request} {spec : BackendSpec} {cancelled : Bool}
    {now : Nat} {ms : List (Nat × RunMove)} {begun : List Nat} {r : Run}
    (hw : 1 ≤ request.options.workerCount) (h : Leads may (new now request spec cancelled) ms begun r) :
    Paced request.options.workerCount begun r := by
  have horder : r.Orderly begun := h.orderly (orderly_new now _ spec cancelled)
  have hlimit : r.limit = request.options.workerCount := by
    rw [limit, options, h.fixed.1]
    exact Nat.max_eq_right hw
  refine ⟨hlimit ▸ horder.room, horder.order, horder.once, fun a ha hgoing => ?_⟩
  rw [← horder.length_begun ha hgoing]
  exact horder.order

theorem Leads.ends {outcomes : Nat → Nat → TaskOutcome} {request : Request} {spec : BackendSpec} {now : Nat}
    {ms : List (Nat × RunMove)} {begun : List Nat} {r : Run}
    (h : Leads (Heeds outcomes) (new now request spec false) ms begun r) :
    Ends outcomes (new now request spec false) ms.length r := by
  have hfirst := orderly_new now request spec false
  have horder := h.orderly hfirst
  have hheedful := h.heedful hfirst (heedful_new outcomes now request spec)
  obtain ⟨hrequest, -, hplan⟩ := h.fixed
  have hcan : (new now request spec false).CanEnd ↔ r.CanEnd := by
    rw [CanEnd, CanEnd, timeout?, timeout?, options, options, hrequest, hplan]
  exact ⟨h.bounded hfirst, fun hfine hopen => hheedful.exists_next horder (hcan.1 hfine) hopen,
    fun hstranded => hheedful.result_none horder fun hfine => hstranded (hcan.2 hfine)⟩

/-- The result of a run does not depend on the order in which its attempts end.  Two runs for a request in which
the attempts have the same outcomes come to the same result, however many chunks each may have on its way; such
runs always come to an end if the time limit of the attempts allows any.  And in every run the chunks are begun
in the order of the plan, each once, with never more of them on their way than the request allows. -/
theorem order_independent (outcomes : Nat → Nat → TaskOutcome) (request : Request) (spec : BackendSpec)
    (hw : 1 ≤ request.options.workerCount) :
    (∀ w now now' ms ms' begun begun' r r' a a',
      Leads (Heeds outcomes) (new now request spec false) ms begun r →
      Leads (Heeds outcomes) (new now' (request.withWorkers w) spec false) ms' begun' r' →
      r.result = some a → r'.result = some a' → a = a') ∧
    (∀ now ms begun r, Leads (Heeds outcomes) (new now request spec false) ms begun r →
      Ends outcomes (new now request spec false) ms.length r) ∧
    ∀ now cancelled ms begun r, Leads anyMove (new now request spec cancelled) ms begun r →
      Paced request.options.workerCount begun r :=
  ⟨fun _ _ _ _ _ _ _ _ _ _ _ h h' ha ha' => result_unique h h' ha ha', fun _ _ _ _ h => h.ends,
    fun _ _ _ _ _ h => h.paced hw⟩

/-! ### Two lines, one worker and two -/

/-- Two chunks of one line each. -/
def twoLines : Request :=
  { id := default, source := "a\nb\n", language := .python, options := { maxChunkSize := 2, workerCount := 2 } }

/-- The first attempt at the first chunk is lost. -/
def firstLost : Nat → Nat → TaskOutcome
  | 0, 1 => .crashed "lost"
  | i, _ => .completed (.ofCode (if i = 0 then "A\n" else "B\n") 1 {})

/-- The second chunk ends while the first one rests. -/
def together : List (Nat × RunMove) :=
  [(0, .next), (0, .next), (0, .chunk 0 .accepted), (1, .chunk 0 (.outcome (firstLost 0 1))),
    (1, .chunk 1 .accepted), (2, .chunk 1 (.outcome (firstLost 1 1))), (1000, .chunk 0 .rested),
    (1000, .chunk 0 .accepted), (1001, .chunk 0 (.outcome (firstLost 0 2))), (1001, .conclude)]

/-- The second chunk is begun when the first one has ended. -/
def inTurn : List (Nat × RunMove) :=
  [(0, .next), (0, .chunk 0 .accepted), (1, .chunk 0 (.outcome (firstLost 0 1))), (1000, .chunk 0 .rested),
    (1000, .chunk 0 .accepted), (1001, .chunk 0 (.outcome (firstLost 0 2))), (1001, .next),
    (1001, .chunk 1 .accepted), (1002, .chunk 1 (.outcome (firstLost 1 1))), (1002, .conclude)]

theorem order_independent_two_lines :
    1 ≤ twoLines.options.workerCount ∧
    ∃ begun begun' r r' a a',
      Leads (Heeds firstLost) (new 0 twoLines default false) together begun r ∧
      Leads (Heeds firstLost) (new 0 (twoLines.withWorkers 1) default false) inTurn begun' r' ∧
      r.result = some a ∧ r'.result = some a' ∧ a = a' ∧ begun = [0, 1] ∧ r.CanEnd ∧
      Ends firstLost (new 0 twoLines default false) together.length r ∧ Paced 2 begun r := by
  have hw : 1 ≤ twoLines.options.workerCount := by decide
  obtain ⟨begun, r, a, hleads, ha⟩ := exists_result_of_makes
    (show (((new 0 twoLines default false).makes? (Heeds firstLost) together).bind Run.result).isSome = true by
      decide +kernel)
  obtain ⟨begun', r', a', hleads', ha'⟩ := exists_result_of_makes
    (show (((new 0 (twoLines.withWorkers 1) default false).makes? (Heeds firstLost) inTurn).bind
      Run.result).isSome = true by decide +kernel)
  obtain ⟨hsame, hends, hpaced⟩ := order_independent firstLost twoLines default hw
  have hall := hpaced _ _ _ _ _ (hleads.mono fun _ _ _ => trivial)
  obtain ⟨hrequest, -, hplan⟩ := hleads.fixed
  have htotal : (new 0 twoLines default false).total = 2 := by decide +kernel
  refine ⟨hw, begun, begun', r, r', a, a', hleads, hleads', ha, ha',
    hsame _ _ _ _ _ _ _ _ _ _ _ hleads hleads' ha ha', ?_, ?_, hends _ _ _ _ hleads, hall⟩
  · have hgoing := (hleads.heedful (orderly_new 0 _ _ false) (heedful_new _ 0 _ _)).going
    rw [hall.complete a ha hgoing, total, hplan]
    exact congrArg List.range htotal
  · refine .inl ?_
    rw [timeout?, options, hrequest]
    decide +kernel

end Run

end Pseudoscribe
