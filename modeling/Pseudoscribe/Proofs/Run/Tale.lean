import Pseudoscribe.Proofs.Run.Result

/-!
# What a run tells

With every move a run tells something: of the chunk that it puts back, or of its result.  Of a chunk it tells that it
goes on, and when the chunk is converted or given up that is the last thing told of it.  The last events of
the chunks stand in the order in which these ended, and nothing else is told before there is a result.
-/

namespace Pseudoscribe

/-! ## Events about a chunk -/

namespace EventBody

/-- The event tells that a chunk was converted or given up. -/
def isFarewell : EventBody → Bool
  | chunkCompleted .. | chunkAbandoned .. => true
  | _ => false

/-- The event tells that the chunk goes on: it has entered a state, or it will be tried again. -/
def Passing (chunk : Nat) (b : EventBody) : Prop := b.chunk? = some chunk ∧ b.isFarewell = false

theorem chunk_of_farewell {b : EventBody} (h : b.isFarewell = true) : b.chunk?.isSome = true := by
  cases b <;> first | rfl | cases h

/-- Events about chunks do not end a request. -/
theorem isTerminal_of_chunk {b : EventBody} (h : b.chunk?.isSome = true) : b.isTerminal = false := by
  cases b <;> first | rfl | cases h

end EventBody

namespace ChunkEnd

/-- What is told of a chunk that was given up. -/
def abandonment (index : Nat) : ChunkEnd → List EventBody
  | abandoned reason attempts => [.chunkAbandoned index attempts reason]
  | _ => []

/-- What is told of a chunk that was converted, as one of so many that have ended. -/
def completion (index finished total : Nat) : ChunkEnd → List EventBody
  | converted a attempts => [.chunkCompleted index attempts a.confidence finished total]
  | _ => []

/-- The last thing that is told of a chunk.  Nothing is when it was withdrawn. -/
def farewell (index finished total : Nat) (final : ChunkEnd) : List EventBody :=
  final.abandonment index ++ final.completion index finished total

theorem farewell_eq (index finished total : Nat) (final : ChunkEnd) :
    final.farewell index finished total = [] ∨
      ∃ b : EventBody, final.farewell index finished total = [b] ∧ b.isFarewell = true ∧
        b.chunk? = some index := by
  cases final with
  | converted a attempts => exact .inr ⟨_, rfl, rfl, rfl⟩
  | abandoned reason attempts => exact .inr ⟨_, rfl, rfl, rfl⟩
  | cancelled attempts => exact .inl rfl

theorem mem_farewell {index finished total : Nat} {final : ChunkEnd} {b : EventBody}
    (h : b ∈ final.farewell index finished total) : b.isFarewell = true ∧ b.chunk? = some index := by
  rcases farewell_eq index finished total final with hnone | ⟨last, hlast, hfarewell, hchunk⟩
  · rw [hnone] at h
    cases h
  · rw [hlast] at h
    rw [List.mem_singleton.1 h]
    exact ⟨hfarewell, hchunk⟩

end ChunkEnd

/-! ## Notes about a chunk -/

namespace Note

/-- The event that the note is, if it is one. -/
def event? : Note → Option EventBody
  | .event body => some body
  | _ => none

/-- What notes tell whoever listens. -/
def events (notes : List Note) : List EventBody := notes.filterMap event?

theorem events_append (notes more : List Note) : events (notes ++ more) = events notes ++ events more :=
  List.filterMap_append

/-- The notes tell that the chunk goes on, and then these events. -/
def Speak (chunk : Nat) (notes : List Note) (last : List EventBody) : Prop :=
  ∃ passing, events notes = passing ++ last ∧ ∀ b ∈ passing, b.Passing chunk

theorem speak_of_silent {notes : List Note} (chunk : Nat) (h : events notes = []) : Speak chunk notes [] :=
  ⟨[], h, fun _ hb => absurd hb List.not_mem_nil⟩

theorem speak_event (chunk : Nat) (b : EventBody) : Speak chunk [.event b] [b] :=
  ⟨[], rfl, fun _ hb => absurd hb List.not_mem_nil⟩

/-- Notes that end without a last word can go on. -/
theorem Speak.append {chunk : Nat} {notes more : List Note} {last : List EventBody} (h : Speak chunk notes [])
    (h' : Speak chunk more last) : Speak chunk (notes ++ more) last := by
  obtain ⟨passing, hevents, hpassing⟩ := h
  obtain ⟨passing', hevents', hpassing'⟩ := h'
  refine ⟨passing ++ passing', ?_, fun b hb => ?_⟩
  · rw [events_append, hevents, hevents', List.append_nil, List.append_assoc]
  · rcases List.mem_append.1 hb with hb | hb
    · exact hpassing b hb
    · exact hpassing' b hb

theorem Speak.append_events {chunk : Nat} {notes : List Note} {last : List EventBody}
    (h : Speak chunk notes last) (more : List Note) : Speak chunk (notes ++ more) (last ++ events more) := by
  obtain ⟨passing, hevents, hpassing⟩ := h
  exact ⟨passing, by rw [events_append, hevents, List.append_assoc], hpassing⟩

end Note

namespace ChunkRun

open Note (Speak)

variable {c : ChunkRun} {now : Nat} {o : Options}

theorem speak_enter (c : ChunkRun) (states : List TaskState) : Speak c.chunk.index (c.enter states).2 [] := by
  induction states generalizing c with
  | nil => exact Note.speak_of_silent _ rfl
  | cons s states ih =>
    rw [enter]
    split
    · -- a state that may not follow is complained of, and nothing is told of it
      obtain ⟨passing, hevents, hpassing⟩ := ih c
      exact ⟨passing, hevents, hpassing⟩
    · next lifecycle _ =>
      obtain ⟨passing, hevents, hpassing⟩ := ih { c with lifecycle }
      refine ⟨.chunkState c.chunk.index c.attempt s :: passing, congrArg _ hevents, fun b hb => ?_⟩
      rcases List.mem_cons.1 hb with rfl | hb
      · exact ⟨rfl, rfl⟩
      · exact hpassing b hb

theorem speak_cancel (c : ChunkRun) (now : Nat) : Speak c.chunk.index (c.cancel now).2 [] := by
  unfold cancel
  exact (speak_enter c _).append (Note.speak_of_silent _ rfl)

theorem speak_rest (c : ChunkRun) (now delayMs : Nat) (reason : String) :
    Speak c.chunk.index (c.rest now delayMs reason).2 [] := by
  have hevent : Speak c.chunk.index [.event (.chunkRetrying c.chunk.index c.attempt delayMs reason)] [] := by
    refine ⟨[.chunkRetrying c.chunk.index c.attempt delayMs reason], rfl, fun b hb => ?_⟩
    rw [List.mem_singleton.1 hb]
    exact ⟨rfl, rfl⟩
  unfold rest
  dsimp only
  rw [enter_fst]
  exact (speak_enter c _).append hevent

theorem speak_abandon (c : ChunkRun) (now : Nat) (reason : String) :
    Speak c.chunk.index (c.abandon now reason).2 [.chunkAbandoned c.chunk.index c.attempt reason] := by
  have htold := ((speak_enter c [.abandoned]).append
    (Note.speak_event c.chunk.index (.chunkAbandoned c.chunk.index c.attempt reason))).append_events
      ((c.enter [.abandoned]).1.finish now (.abandoned reason c.attempt)).2
  unfold abandon
  dsimp only
  rw [enter_fst] at htold ⊢
  exact htold

/-- What is told when an attempt has failed depends on whether it was the last. -/
theorem speak_fail (c : ChunkRun) (now : Nat) (o : Options) (x : TaskOutcome) :
    Speak c.chunk.index (c.fail now o x).2
      ((x.exhausted? o c.attempt).toList.flatMap (ChunkEnd.abandonment c.chunk.index)) := by
  unfold fail TaskOutcome.exhausted?
  by_cases hlast : o.maxAttempts ≤ c.attempt
  · rw [if_pos hlast, if_pos hlast]
    exact speak_abandon c now x.reason
  · rw [if_neg hlast, if_neg hlast]
    exact speak_rest c now _ _

/-- What is told at the end of an attempt: at last that the chunk was given up, if it was. -/
theorem speak_conclude (c : ChunkRun) (now : Nat) (o : Options) (x : TaskOutcome) :
    Speak c.chunk.index (c.conclude now o x).2
      ((x.verdict? o c.attempt).toList.flatMap (ChunkEnd.abandonment c.chunk.index)) := by
  have hfigure (s : TaskState) : Speak c.chunk.index [c.attemptFigure now s] [] := Note.speak_of_silent _ rfl
  obtain rfl | ⟨a, rfl, ha⟩ | hfails := x.cancelled_or_succeeds_or_fails
  · exact (hfigure _).append (speak_cancel c now)
  · rw [conclude_completed ha, TaskOutcome.verdict_completed ha]
    exact ((hfigure _).append (speak_enter c _)).append (Note.speak_of_silent _ rfl)
  · have hend := speak_fail (c.enter [.running, x.state]).1 now o x
    rw [enter_fst] at hend
    rw [conclude_of_fails hfails, TaskOutcome.verdict_of_fails hfails, enter_fst]
    exact ((hfigure _).append (speak_enter c _)).append hend

/-- With every step a chunk tells that it goes on, and at last that it was given up, if it was. -/
theorem speak_of_step {c' : ChunkRun} {input : ChunkInput} {notes : List Note}
    (h : Step o now c input c' notes) :
    Speak c.chunk.index notes (c'.stage.final?.toList.flatMap (ChunkEnd.abandonment c.chunk.index)) := by
  cases h with
  | accepted => exact Note.speak_of_silent _ rfl
  | ends x =>
    have hfinal : (c.conclude now o x).1.stage.final? = x.verdict? o c.attempt := by
      rw [conclude_fst, TaskOutcome.stageAfter]
      cases x.verdict? o c.attempt <;> rfl
    rw [hfinal]
    exact speak_conclude c now o x
  | wakes =>
    rw [wake_fst]
    exact speak_enter _ _
  | givesUp =>
    rw [cancel_fst]
    exact speak_cancel c now

/-- Nothing is told of a chunk that is begun, and a blank one is not given up. -/
theorem speak_start (now : Nat) (p : Provenance) (chunk : Chunk) :
    Speak chunk.index (start now p chunk).2
      ((start now p chunk).1.stage.final?.toList.flatMap (ChunkEnd.abandonment chunk.index)) := by
  unfold start
  split
  · exact Note.speak_of_silent _ rfl
  · exact Note.speak_of_silent _ rfl

end ChunkRun

namespace Run

open Note (Speak)

/-! ## What a move tells -/

/-- A chunk that has ended converted is put back with an event. -/
theorem events_place (r : Run) (c : ChunkRun) (notes : List Note) :
    Note.events (r.place c notes).2 = Note.events notes ++
      c.stage.final?.toList.flatMap (ChunkEnd.completion c.chunk.index (r.completed + 1) r.total) := by
  unfold place
  cases hstage : c.stage with
  | offered | underWay | resting => exact (List.append_nil _).symm
  | ended final =>
    have hcount : (r.finals ++ [(c.chunk.index, final)]).length = r.completed + 1 := List.length_append
    dsimp only [ChunkStage.final?, Option.toList_some]
    rw [List.flatMap_singleton, Note.events_append, ← hcount]
    cases final <;> rfl

/-- A chunk that is put back has told that it goes on; when it has ended its last word follows. -/
theorem speak_place {r : Run} {c : ChunkRun} {notes : List Note}
    (h : Speak c.chunk.index notes (c.stage.final?.toList.flatMap (ChunkEnd.abandonment c.chunk.index))) :
    Speak c.chunk.index (r.place c notes).2
      (c.stage.final?.toList.flatMap (ChunkEnd.farewell c.chunk.index (r.completed + 1) r.total)) := by
  obtain ⟨passing, hevents, hpassing⟩ := h
  refine ⟨passing, ?_, hpassing⟩
  rw [events_place, hevents, List.append_assoc]
  cases c.stage.final? with
  | none => rfl
  | some final => simp only [Option.toList_some, List.flatMap_singleton, ChunkEnd.farewell]

/-- The last event of a run. -/
def lastWord (r : Run) (a : Assembly) : EventBody :=
  if a.cancelled then .cancelled r.completed r.total
  else .completed a.success a.confidence a.warnings.length a.errors.length

theorem events_lastNotes (r : Run) (now : Nat) (a : Assembly) :
    Note.events (r.lastNotes now a) = [r.lastWord a] := rfl

/-- Every move puts back a chunk that had not ended, or it is one of the run as a whole, and all are made before
there is a result. -/
inductive Telling (r : Run) (now : Nat) : Run → List Note → Prop
  | chunk (base : Run) (c : ChunkRun) (notes : List Note) (finals : base.finals = r.finals)
    (plan : base.plan = r.plan) (result : base.result = none) (unfinished : r.result = none)
    (going : c.chunk.index ∉ r.finals.map Prod.fst)
    (spoken : Speak c.chunk.index notes (c.stage.final?.toList.flatMap (ChunkEnd.abandonment c.chunk.index))) :
    Telling r now (base.place c notes).1 (base.place c notes).2
  | cancel (unfinished : r.result = none) : Telling r now { r with cancelled := true } []
  | conclude (a : Assembly) (unfinished : r.result = none) :
    Telling r now { r with result := some a } (r.lastNotes now a)

theorem telling_of_move {r s : Run} {begun : List Nat} {now : Nat} {m : RunMove} {notes : List Note}
    (horder : r.Orderly begun) (h : r.move? now m = some (s, notes)) : Telling r now s notes := by
  cases move_cases h with
  | next chunk rest hwaiting hroom hgoing =>
    have hopen := horder.result_none_of_waiting hgoing hwaiting
    rw [move?_next hwaiting hroom hgoing] at h
    have hchunk := ChunkRun.chunk_start now r.provenance chunk
    have hnotes := congrArg Prod.snd (Option.some.inj h)
    subst hnotes
    refine .chunk { r with waiting := rest } _ _ rfl rfl hopen hopen ?_ ?_
    · rw [hchunk]
      exact fun hmem => horder.index_notMem_begunChunks hwaiting (List.mem_append_right _ hmem)
    · rw [hchunk]
      exact ChunkRun.speak_start now r.provenance chunk
  | @chunk i input c c' more hfound htaken htimed hmode =>
    obtain ⟨hc, -⟩ := mem_of_find? hfound
    have hstep := ChunkRun.step_cases htaken
    have hchunk := ChunkRun.chunk_of_step hstep
    have hopen : r.result = none := horder.result_none_of_onWay hc
    rw [move?_chunk hfound htaken htimed hmode] at h
    have hnotes := congrArg Prod.snd (Option.some.inj h)
    subst hnotes
    refine .chunk r _ _ rfl rfl hopen hopen ?_ ?_
    · rw [hchunk]
      exact horder.notMem_finals hc
    · rw [hchunk]
      exact ChunkRun.speak_of_step hstep
  | cancel hgoing hopen =>
    rw [move?_cancel hgoing hopen] at h
    have hnotes := congrArg Prod.snd (Option.some.inj h)
    subst hnotes
    exact .cancel hopen
  | conclude hempty hlast hopen =>
    rw [move?_conclude hempty hlast hopen] at h
    have hnotes := congrArg Prod.snd (Option.some.inj h)
    subst hnotes
    exact .conclude _ hopen

/-! ## Tales -/

/-- Moves, each with its time, lead from one state of a run to another, and this is told on the way. -/
inductive Tale (r : Run) : List (Nat × RunMove) → List Note → Run → Prop
  | refl : Tale r [] [] r
  | step {ms : List (Nat × RunMove)} {notes more : List Note} {s t : Run} (now : Nat) (m : RunMove)
    (before : Tale r ms notes s) (made : s.move? now m = some (t, more)) :
    Tale r (ms ++ [(now, m)]) (notes ++ more) t

theorem Tale.trans {r s t : Run} {ms ms' : List (Nat × RunMove)} {notes notes' : List Note}
    (h : Tale r ms notes s) (h' : Tale s ms' notes' t) : Tale r (ms ++ ms') (notes ++ notes') t := by
  induction h' with
  | refl =>
    rw [List.append_nil, List.append_nil]
    exact h
  | step now m before made ih =>
    rw [← List.append_assoc, ← List.append_assoc]
    exact ih.step now m made

theorem Tale.exists_leads {r s : Run} {ms : List (Nat × RunMove)} {notes : List Note} (h : Tale r ms notes s) :
    ∃ begun, Leads anyMove r ms begun s := by
  induction h with
  | refl => exact ⟨[], .refl⟩
  | step now m before made ih =>
    obtain ⟨begun, hleads⟩ := ih
    exact ⟨_, hleads.step now m trivial made⟩

/-- Whatever moves are made, something is told of them. -/
theorem Leads.exists_tale {may : Run → RunMove → Prop} {r s : Run} {ms : List (Nat × RunMove)}
    {begun : List Nat} (h : Leads may r ms begun s) : ∃ notes, Tale r ms notes s := by
  induction h with
  | refl => exact ⟨[], .refl⟩
  | step now m before allowed made ih =>
    obtain ⟨notes, htale⟩ := ih
    exact ⟨_, htale.step now m made⟩

theorem exists_tale_makeAll (r : Run) (now : Nat) (ms : List RunMove) :
    ∃ made, Tale r made (r.makeAll now ms).2 (r.makeAll now ms).1 := by
  induction ms generalizing r with
  | nil => exact ⟨[], .refl⟩
  | cons m ms ih =>
    rw [makeAll]
    cases hmade : r.move? now m with
    | none => exact ih r
    | some next =>
      obtain ⟨s, notes⟩ := next
      obtain ⟨made, htale⟩ := ih s
      exact ⟨_, (Tale.step now m .refl hmade).trans htale⟩

/-- However a run goes on, it has as many chunks. -/
theorem Tale.total_eq {r s : Run} {ms : List (Nat × RunMove)} {notes : List Note} (h : Tale r ms notes s) :
    s.total = r.total := by
  obtain ⟨begun, hleads⟩ := h.exists_leads
  rw [total, hleads.fixed.2.2, total]

/-- What a run tells that is started, behind that it was started. -/
theorem exists_tale_start (now : Nat) (request : Request) (spec : BackendSpec) (cancelled : Bool) :
    ∃ made notes, Tale (new now request spec cancelled) made notes (start now request spec cancelled).1 ∧
      (start now request spec cancelled).2 =
        .event (.started (start now request spec cancelled).1.total) :: notes := by
  obtain ⟨made, htale⟩ := exists_tale_makeAll (new now request spec cancelled) now
    (new now request spec cancelled).ownMoves
  have htotal : ((new now request spec cancelled).settle now).1.total = (new now request spec cancelled).total :=
    htale.total_eq
  refine ⟨made, _, htale, ?_⟩
  unfold start
  dsimp only
  rw [htotal]
  rfl

theorem exists_tale_step {r s : Run} {now : Nat} {m : RunMove} {notes : List Note}
    (h : r.step? now m = some (s, notes)) : ∃ made, Tale r made notes s := by
  obtain ⟨⟨t, first⟩, hmade, h⟩ := Option.bind_eq_some_iff.1 h
  obtain ⟨made, htale⟩ := exists_tale_makeAll t now t.ownMoves
  obtain ⟨rfl, rfl⟩ := Prod.ext_iff.1 (Option.some.inj h)
  exact ⟨_, (Tale.step now m .refl hmade).trans htale⟩

/-! ## The story of the chunks -/

/-- The last words about chunks that have ended like this, each with its count. -/
def farewells (total : Nat) (finals : List (Nat × ChunkEnd)) : List EventBody :=
  finals.zipIdx.flatMap fun (p, n) => p.2.farewell p.1 (n + 1) total

theorem farewells_concat (total : Nat) (finals : List (Nat × ChunkEnd)) (i : Nat) (final? : Option ChunkEnd) :
    farewells total (finals ++ (final?.map (i, ·)).toList) = farewells total finals ++
      final?.toList.flatMap (ChunkEnd.farewell i (finals.length + 1) total) := by
  unfold farewells
  cases final? with
  | none => simp only [Option.map_none, Option.toList_none, List.append_nil, List.flatMap_nil]
  | some final =>
    rw [Option.map_some, Option.toList_some, Option.toList_some, List.zipIdx_append, List.flatMap_append,
      List.zipIdx_singleton, List.flatMap_singleton, List.flatMap_singleton, Nat.zero_add]

theorem mem_farewells {total : Nat} {finals : List (Nat × ChunkEnd)} {b : EventBody}
    (h : b ∈ farewells total finals) : ∃ i ∈ finals.map Prod.fst, b.chunk? = some i := by
  obtain ⟨⟨p, n⟩, hp, hb⟩ := List.mem_flatMap.1 h
  exact ⟨p.1, List.mem_map_of_mem (List.fst_mem_of_mem_zipIdx hp), (ChunkEnd.mem_farewell hb).2⟩

/-- What was told of the chunks up to here. -/
structure Story (r : Run) (inner : List EventBody) : Prop where
  about : ∀ b ∈ inner, b.chunk?.isSome = true
  /-- the last words about the chunks, in the order in which these have ended -/
  order : inner.filter (·.isFarewell) = farewells r.total r.finals
  /-- nothing is told of a chunk behind its last word -/
  silent : inner.Pairwise fun b b' => b.isFarewell = true → b'.chunk? ≠ b.chunk?

/-- What is told of a chunk until it is put back. -/
theorem events_of_speak {notes : List Note} {i n total : Nat} {final? : Option ChunkEnd}
    (h : Speak i notes (final?.toList.flatMap (ChunkEnd.farewell i n total))) :
    (∀ b ∈ Note.events notes, b.chunk? = some i) ∧
    (Note.events notes).filter (·.isFarewell) = final?.toList.flatMap (ChunkEnd.farewell i n total) ∧
    (Note.events notes).Pairwise fun b b' => b.isFarewell = true → b'.chunk? ≠ b.chunk? := by
  obtain ⟨passing, hevents, hpassing⟩ := h
  have hmem (b : EventBody) (hb : b ∈ final?.toList.flatMap (ChunkEnd.farewell i n total)) :
      b.isFarewell = true ∧ b.chunk? = some i := by
    obtain ⟨final, -, hb⟩ := List.mem_flatMap.1 hb
    exact ChunkEnd.mem_farewell hb
  have hone : (final?.toList.flatMap (ChunkEnd.farewell i n total)).Pairwise fun b b' =>
      b.isFarewell = true → b'.chunk? ≠ b.chunk? := by
    cases final? with
    | none => exact .nil
    | some final =>
      rw [Option.toList_some, List.flatMap_singleton]
      rcases ChunkEnd.farewell_eq i n total final with hnone | ⟨b, hb, -⟩
      · rw [hnone]
        exact .nil
      · rw [hb]
        exact List.pairwise_singleton _ b
  rw [hevents]
  refine ⟨fun b hb => ?_, ?_, List.pairwise_append.2 ⟨?_, hone, ?_⟩⟩
  · rcases List.mem_append.1 hb with hb | hb
    · exact (hpassing b hb).1
    · exact (hmem b hb).2
  · have hnone : passing.filter (·.isFarewell) = [] :=
      List.filter_eq_nil_iff.2 fun b hb => Bool.eq_false_iff.1 (hpassing b hb).2
    rw [List.filter_append, hnone, List.nil_append]
    exact List.filter_eq_self.2 fun b hb => (hmem b hb).1
  · refine List.pairwise_of_forall_mem_list fun b hb _ _ hfarewell => ?_
    rw [(hpassing b hb).2] at hfarewell
    cases hfarewell
  · intro b hb _ _ hfarewell
    rw [(hpassing b hb).2] at hfarewell
    cases hfarewell

/-- The story goes on with a chunk that has not ended yet. -/
theorem Story.chunk {r s : Run} {inner : List EventBody} {notes : List Note} {i : Nat}
    {final? : Option ChunkEnd} (h : r.Story inner)
    (spoken : Speak i notes (final?.toList.flatMap (ChunkEnd.farewell i (r.completed + 1) r.total)))
    (going : i ∉ r.finals.map Prod.fst) (hfinals : s.finals = r.finals ++ (final?.map (i, ·)).toList)
    (htotal : s.total = r.total) : s.Story (inner ++ Note.events notes) := by
  obtain ⟨habout, hlast, hsilent⟩ := events_of_speak spoken
  constructor
  · intro b hb
    rcases List.mem_append.1 hb with hb | hb
    · exact h.about b hb
    · rw [habout b hb, Option.isSome_some]
  · rw [List.filter_append, h.order, hlast, htotal, hfinals, farewells_concat]
    rfl
  · refine List.pairwise_append.2 ⟨h.silent, hsilent, fun b hb b' hb' hfarewell heq => ?_⟩
    -- a chunk of which the last word was told before has ended, and this one has not
    have hended : b ∈ farewells r.total r.finals := h.order ▸ List.mem_filter.2 ⟨hb, hfarewell⟩
    obtain ⟨j, hj, hbj⟩ := mem_farewells hended
    rw [habout b' hb', hbj] at heq
    exact going (Option.some.inj heq ▸ hj)

/-- What a run has told in the end or up to here: the story of its chunks, and then its last word if it has a
result. -/
theorem Tale.exists_story {now : Nat} {request : Request} {spec : BackendSpec} {cancelled : Bool}
    {ms : List (Nat × RunMove)} {notes : List Note} {r : Run}
    (h : Tale (new now request spec cancelled) ms notes r) :
    ∃ inner, r.Story inner ∧ Note.events notes = inner ++ (r.result.map r.lastWord).toList := by
  induction h with
  | refl => exact ⟨[], ⟨fun _ hb => absurd hb List.not_mem_nil, rfl, .nil⟩, rfl⟩
  | @step ms notes more s t time m before made ih =>
    obtain ⟨begun, hleads⟩ := before.exists_leads
    obtain ⟨inner, hstory, hevents⟩ := ih
    rw [Note.events_append, hevents]
    cases telling_of_move (hleads.orderly (orderly_new now request spec cancelled)) made with
    | chunk base c notes hfinals hplan hresult hopen hgoing hspoken =>
      have htotal : base.total = s.total := by rw [total, hplan, total]
      have hcompleted : base.completed = s.completed := by rw [completed, hfinals, completed]
      have hspoken := speak_place (r := base) hspoken
      rw [htotal, hcompleted] at hspoken
      rw [hopen, result_place, hresult]
      refine ⟨_, hstory.chunk hspoken hgoing ?_ ?_, by simp⟩
      · rw [finals_place, hfinals]
      · rw [total, plan_place, hplan, total]
    | cancel hopen =>
      rw [hopen]
      exact ⟨inner, ⟨hstory.about, hstory.order, hstory.silent⟩, List.append_nil _⟩
    | conclude a hopen =>
      rw [hopen, events_lastNotes]
      exact ⟨inner, ⟨hstory.about, hstory.order, hstory.silent⟩, congrArg (· ++ _) (List.append_nil inner)⟩

/-- A run with a result has told of it last. -/
theorem Tale.getLast?_events {now : Nat} {request : Request} {spec : BackendSpec} {cancelled : Bool}
    {ms : List (Nat × RunMove)} {notes : List Note} {r : Run}
    (h : Tale (new now request spec cancelled) ms notes r) {a : Assembly} (ha : r.result = some a) :
    (Note.events notes).getLast? = some (r.lastWord a) := by
  obtain ⟨inner, -, hevents⟩ := h.exists_story
  rw [hevents, ha, Option.map_some, Option.toList_some, List.getLast?_concat]

end Run

end Pseudoscribe
