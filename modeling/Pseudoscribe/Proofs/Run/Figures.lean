import Mathlib.Data.List.Perm.Basic
import Pseudoscribe.Metrics
import Pseudoscribe.Proofs.Service.Progress

/-!
# The figures of a run

Metrics keep, for every name, how many figures were taken down under it and the sums of what these count.  A run has a
figure for each attempt that has ended, with the state that the attempt came to, and one for each chunk that has ended,
in the order in which the chunks have ended.  So the attempts that were counted one by one are those that the ends of
the chunks name, and those of the chunks that are still on their way.
-/

namespace Pseudoscribe

/-! ## Sums by name -/

/-- How much is counted under a name. -/
def amountOf (key : String) (counters : List (String × Nat)) : Nat :=
  total ((counters.filter (·.1 == key)).map Prod.snd)

theorem amountOf_cons (key : String) (c : String × Nat) (counters : List (String × Nat)) :
    amountOf key (c :: counters) = (if c.1 = key then c.2 else 0) + amountOf key counters := by
  unfold amountOf
  by_cases h : c.1 = key
  · rw [List.filter_cons_of_pos (by exact beq_iff_eq.2 h), List.map_cons, total_cons, if_pos h]
  · rw [List.filter_cons_of_neg (by exact fun heq => h (beq_iff_eq.1 heq)), if_neg h, Nat.zero_add]

/-- Change the value under a name, at its place; a name that is new comes last. -/
def alter {α : Type} (name : String) (f : Option α → α) : List (String × α) → List (String × α)
  | [] => [(name, f none)]
  | (n, a) :: rest => if n == name then (n, f (some a)) :: rest else (n, a) :: alter name f rest

theorem lookup_alter {α : Type} (name key : String) (f : Option α → α) (xs : List (String × α)) :
    (alter name f xs).lookup key = if name = key then some (f (xs.lookup name)) else xs.lookup key := by
  induction xs with
  | nil =>
    rw [alter]
    by_cases h : name = key
    · rw [if_pos h, h, List.lookup_cons_self]
      rfl
    · rw [if_neg h, List.lookup_cons, beq_false_of_ne (Ne.symm h)]
  | cons x xs ih =>
    obtain ⟨n, a⟩ := x
    rw [alter]
    by_cases hn : n = name
    · subst hn
      rw [if_pos (beq_self_eq_true n)]
      by_cases h : n = key
      · rw [if_pos h, h, List.lookup_cons_self, List.lookup_cons_self]
      · rw [if_neg h, List.lookup_cons, List.lookup_cons, beq_false_of_ne (Ne.symm h)]
    · rw [if_neg (by exact fun heq => hn (beq_iff_eq.1 heq))]
      by_cases h : n = key
      · have hother : name ≠ key := fun heq => hn (h.trans heq.symm)
        rw [if_neg hother, h, List.lookup_cons_self, List.lookup_cons_self]
      · rw [List.lookup_cons, List.lookup_cons, List.lookup_cons, beq_false_of_ne (Ne.symm h),
          beq_false_of_ne (Ne.symm hn)]
        exact ih

theorem bump_eq (name : String) (k : Nat) (counters : List (String × Nat)) :
    bump name k counters = alter name (fun c => c.getD 0 + k) counters := by
  induction counters with
  | nil => rw [bump, alter, Option.getD_none, Nat.zero_add]
  | cons c counters ih => rw [bump, alter, ih, Option.getD_some]

theorem Metrics.update_eq (name : String) (f : EventStats → EventStats) (events : List (String × EventStats)) :
    update name f events = alter name (fun s => f (s.getD {})) events := by
  induction events with
  | nil => rfl
  | cons x events ih => rw [update, alter, ih, Option.getD_some]

theorem lookup_bump (name key : String) (k : Nat) (counters : List (String × Nat)) :
    ((bump name k counters).lookup key).getD 0 =
      (counters.lookup key).getD 0 + if name = key then k else 0 := by
  rw [bump_eq, lookup_alter]
  by_cases h : name = key
  · rw [if_pos h, if_pos h, h, Option.getD_some]
  · rw [if_neg h, if_neg h, Nat.add_zero]

theorem total_bump (name : String) (k : Nat) (counters : List (String × Nat)) :
    total ((bump name k counters).map Prod.snd) = total (counters.map Prod.snd) + k := by
  induction counters with
  | nil => exact Nat.add_comm k 0
  | cons c counters ih =>
    obtain ⟨n, x⟩ := c
    rw [bump]
    split
    · simp only [List.map_cons, total_cons]
      omega
    · simp only [List.map_cons, total_cons, ih]
      omega

theorem name_of_mem_bump {name : String} {k : Nat} {counters : List (String × Nat)} {c : String × Nat}
    (h : c ∈ bump name k counters) : c.1 = name ∨ c.1 ∈ counters.map Prod.fst := by
  induction counters with
  | nil => exact .inl (by rw [List.mem_singleton.1 h])
  | cons d counters ih =>
    obtain ⟨n, x⟩ := d
    rw [bump] at h
    split at h
    · rcases List.mem_cons.1 h with rfl | h
      · exact .inr List.mem_cons_self
      · exact .inr (List.mem_cons_of_mem _ (List.mem_map_of_mem h))
    · rcases List.mem_cons.1 h with rfl | h
      · exact .inr List.mem_cons_self
      · rcases ih h with heq | hmem
        · exact .inl heq
        · exact .inr (List.mem_cons_of_mem _ hmem)

/-! ## What is known of the events of a name -/

namespace EventStats

/-- Nothing but these figures was taken down. -/
structure MadeOf (s : EventStats) (figures : List (List (String × Nat))) : Prop where
  count : s.count = figures.length
  counter : ∀ key, s.counter key = total (figures.map (amountOf key))
  sum : total (s.counters.map Prod.snd) = total (figures.map fun cs => total (cs.map Prod.snd))
  names : ∀ c ∈ s.counters, ∃ cs ∈ figures, c.1 ∈ cs.map Prod.fst

theorem madeOf_nil : ({} : EventStats).MadeOf [] :=
  ⟨rfl, fun _ => rfl, rfl, fun _ h => absurd h List.not_mem_nil⟩

theorem count_add (s : EventStats) (d : Option Duration) (counters : List (String × Nat)) :
    (s.add d counters).count = s.count + 1 := by
  cases d <;> rfl

theorem counters_add (s : EventStats) (d : Option Duration) (counters : List (String × Nat)) :
    (s.add d counters).counters = counters.foldl (fun cs c => bump c.1 c.2 cs) s.counters := by
  cases d <;> rfl

theorem MadeOf.add {s : EventStats} {figures : List (List (String × Nat))} (h : s.MadeOf figures)
    (d : Option Duration) (counters : List (String × Nat)) :
    (s.add d counters).MadeOf (figures ++ [counters]) := by
  have hfold (start : List (String × Nat)) :
      (∀ key, ((counters.foldl (fun cs c => bump c.1 c.2 cs) start).lookup key).getD 0 =
        (start.lookup key).getD 0 + amountOf key counters) ∧
      total ((counters.foldl (fun cs c => bump c.1 c.2 cs) start).map Prod.snd) =
        total (start.map Prod.snd) + total (counters.map Prod.snd) ∧
      ∀ c ∈ counters.foldl (fun cs c => bump c.1 c.2 cs) start,
        c.1 ∈ start.map Prod.fst ∨ c.1 ∈ counters.map Prod.fst := by
    -- what was counted before grows with every counter, so it has to be any
    induction counters generalizing start with
    | nil => exact ⟨fun _ => rfl, rfl, fun c hc => .inl (List.mem_map_of_mem hc)⟩
    | cons x counters ih =>
      obtain ⟨hlookup, htotal, hnames⟩ := ih (bump x.1 x.2 start)
      refine ⟨fun key => ?_, ?_, fun c hc => ?_⟩
      · rw [List.foldl_cons, hlookup, lookup_bump, amountOf_cons, Nat.add_assoc]
      · rw [List.foldl_cons, htotal, total_bump, List.map_cons, total_cons, Nat.add_assoc]
      · rcases hnames c hc with hmem | hmem
        · obtain ⟨y, hy, hyc⟩ := List.mem_map.1 hmem
          rcases name_of_mem_bump hy with heq | hold
          · exact .inr (by rw [← hyc, heq]; exact List.mem_cons_self)
          · exact .inl (hyc ▸ hold)
        · exact .inr (List.mem_cons_of_mem _ hmem)
  obtain ⟨hlookup, htotal, hnames⟩ := hfold s.counters
  rw [← counters_add s d] at hlookup htotal hnames
  refine ⟨?_, fun key => ?_, ?_, fun c hc => ?_⟩
  · rw [count_add, h.count, List.length_append, List.length_singleton]
  · rw [List.map_append, total_append, ← h.counter]
    exact hlookup key
  · rw [List.map_append, total_append, ← h.sum]
    exact htotal
  · rcases hnames c hc with hmem | hmem
    · obtain ⟨y, hy, hyc⟩ := List.mem_map.1 hmem
      obtain ⟨cs, hcs, hname⟩ := h.names y hy
      exact ⟨cs, List.mem_append_left _ hcs, hyc ▸ hname⟩
    · exact ⟨counters, List.mem_append_right _ List.mem_cons_self, hmem⟩

end EventStats

namespace Metrics

/-- What is known of the events of a name; nothing if there were none. -/
def stats (m : Metrics) (name : String) : EventStats := (m.event? name).getD {}

theorem stats_record (m : Metrics) (name key : String) (d : Option Duration) (counters : List (String × Nat)) :
    (m.record name d counters).stats key = if name = key then (m.stats name).add d counters else m.stats key := by
  unfold stats event? record
  rw [update_eq, lookup_alter]
  split
  · rfl
  · rfl

/-- Take down a note, if it is for the metrics. -/
def note (m : Metrics) : Note → Metrics
  | .figure name duration counters => m.record name duration counters
  | _ => m

def noteAll (m : Metrics) (notes : List Note) : Metrics := notes.foldl note m

/-- Metrics that were told these notes, one after the other, and nothing else. -/
def ofNotes (notes : List Note) : Metrics := noteAll {} notes

theorem ofNotes_append (notes more : List Note) : ofNotes (notes ++ more) = (ofNotes notes).noteAll more :=
  List.foldl_append

end Metrics

theorem Engine.metrics_tellAll (e : Engine) (id : RequestId) (notes : List Note) :
    (e.tellAll id notes).metrics = e.metrics.noteAll notes := by
  induction notes generalizing e with
  | nil => rfl
  | cons note notes ih =>
    refine (ih (e.tell id note)).trans ?_
    cases note <;> rfl

/-! ## Figures -/

namespace Note

/-- What the note counts, if it is a figure of the name. -/
def figure? (name : String) : Note → Option (List (String × Nat))
  | .figure n _ counters => if n = name then some counters else none
  | _ => none

/-- What notes count with the figures of a name, one after the other. -/
def figures (name : String) (notes : List Note) : List (List (String × Nat)) := notes.filterMap (figure? name)

theorem figures_append (name : String) (notes more : List Note) :
    figures name (notes ++ more) = figures name notes ++ figures name more := List.filterMap_append

end Note

/-- What is known of the events of a name is made of the figures of the name. -/
theorem Metrics.madeOf_ofNotes (notes : List Note) (name : String) :
    ((Metrics.ofNotes notes).stats name).MadeOf (Note.figures name notes) := by
  induction notes using List.reverseRecOn with
  | nil => exact EventStats.madeOf_nil
  | append_singleton notes note ih =>
    rw [Metrics.ofNotes_append, Note.figures_append]
    cases note with
    | figure n d counters =>
      have hstats : ((Metrics.ofNotes notes).noteAll [.figure n d counters]).stats name = _ :=
        Metrics.stats_record _ n name d counters
      have hfigures : Note.figures name [.figure n d counters] = if n = name then [counters] else [] := by
        unfold Note.figures
        by_cases h : n = name <;> simp [Note.figure?, h]
      rw [hstats, hfigures]
      by_cases h : n = name
      · rw [if_pos h, if_pos h, h]
        exact ih.add d counters
      · rw [if_neg h, if_neg h, List.append_nil]
        exact ih
    | event | violated => exact (List.append_nil (Note.figures name notes)).symm ▸ ih

/-! ## The figures of a chunk -/

/-- What is counted when a chunk has ended. -/
def ChunkEnd.counters (final : ChunkEnd) : List (String × Nat) :=
  [(final.status.name, 1), ("attempts", final.attempts), ("retries", final.attempts - 1)]

/-- What is counted when an attempt has come to a state. -/
def TaskState.counters (s : TaskState) : List (String × Nat) := [(s.name, 1)]

namespace Note

/-- The notes have a figure for each attempt that has come to one of these states, and one for the end of the chunk
if it has ended, and no other ones. -/
structure Counts (notes : List Note) (states : List TaskState) (final? : Option ChunkEnd) : Prop where
  attempts : figures "chunk.attempt" notes = states.map TaskState.counters
  chunk : figures "chunk" notes = final?.toList.map ChunkEnd.counters
  others : ∀ name, name ≠ "chunk.attempt" → name ≠ "chunk" → figures name notes = []

/-- Notes that end before the chunk does can go on. -/
theorem Counts.append {notes more : List Note} {states states' : List TaskState} {final? : Option ChunkEnd}
    (h : Counts notes states none) (h' : Counts more states' final?) :
    Counts (notes ++ more) (states ++ states') final? := by
  refine ⟨?_, ?_, fun name hattempt hchunk => ?_⟩
  · rw [figures_append, h.attempts, h'.attempts, List.map_append]
  · rw [figures_append, h.chunk, h'.chunk, Option.toList_none, List.map_nil, List.nil_append]
  · rw [figures_append, h.others name hattempt hchunk, h'.others name hattempt hchunk, List.nil_append]

theorem figures_of_forall {name : String} {notes : List Note} (h : ∀ n ∈ notes, figure? name n = none) :
    figures name notes = [] := List.filterMap_eq_nil_iff.2 h

/-- Notes without any figure. -/
theorem counts_of_silent {notes : List Note} (h : ∀ n ∈ notes, ∀ name, figure? name n = none) :
    Counts notes [] none :=
  ⟨figures_of_forall fun n hn => h n hn _, figures_of_forall fun n hn => h n hn _,
    fun name _ _ => figures_of_forall fun n hn => h n hn name⟩

theorem counts_event (body : EventBody) : Counts [.event body] [] none :=
  counts_of_silent fun n hn _ => by rw [List.mem_singleton.1 hn]; rfl

end Note

namespace ChunkRun

open Note (Counts)

theorem counts_enter (c : ChunkRun) (states : List TaskState) : Counts (c.enter states).2 [] none := by
  refine Note.counts_of_silent ?_
  induction states generalizing c with
  | nil => exact fun _ h => absurd h List.not_mem_nil
  | cons s states ih =>
    intro n hn name
    rw [enter] at hn
    split at hn
    · rcases List.mem_cons.1 hn with rfl | hn
      · rfl
      · exact ih c n hn name
    · next lifecycle _ =>
      rcases List.mem_cons.1 hn with rfl | hn
      · rfl
      · exact ih { c with lifecycle } n hn name

theorem counts_finish (c : ChunkRun) (now : Nat) (final : ChunkEnd) :
    Counts (c.finish now final).2 [] (some final) := by
  refine ⟨rfl, rfl, fun name _ hchunk => Note.figures_of_forall fun n hn => ?_⟩
  rw [List.mem_singleton.1 hn]
  exact if_neg (Ne.symm hchunk)

theorem counts_attemptFigure (c : ChunkRun) (now : Nat) (s : TaskState) :
    Counts [c.attemptFigure now s] [s] none := by
  refine ⟨rfl, rfl, fun name hattempt _ => Note.figures_of_forall fun n hn => ?_⟩
  rw [List.mem_singleton.1 hn]
  exact if_neg (Ne.symm hattempt)

theorem counts_cancel (c : ChunkRun) (now : Nat) : Counts (c.cancel now).2 [] (some (.cancelled c.attempt)) := by
  have hcounts := (counts_enter c [.cancelled]).append
    (counts_finish (c.enter [.cancelled]).1 now (.cancelled c.attempt))
  unfold cancel
  dsimp only
  rw [enter_fst] at hcounts ⊢
  exact hcounts

theorem counts_fail (c : ChunkRun) (now : Nat) (o : Options) (x : TaskOutcome) :
    Counts (c.fail now o x).2 [] (x.exhausted? o c.attempt) := by
  unfold fail TaskOutcome.exhausted?
  by_cases hlast : o.maxAttempts ≤ c.attempt
  · have hcounts := ((counts_enter c [.abandoned]).append
      (Note.counts_event (.chunkAbandoned c.chunk.index c.attempt x.reason))).append
        (counts_finish (c.enter [.abandoned]).1 now (.abandoned x.reason c.attempt))
    rw [if_pos hlast, if_pos hlast, abandon]
    dsimp only
    rw [enter_fst] at hcounts ⊢
    exact hcounts
  · have hcounts := (counts_enter c [.retrying]).append
      (Note.counts_event (.chunkRetrying c.chunk.index c.attempt (x.delayMs o c.attempt) x.reason))
    rw [if_neg hlast, if_neg hlast, rest]
    dsimp only
    rw [enter_fst]
    exact hcounts

/-- The end of an attempt has one figure, and the end of the chunk one more if the attempt decides. -/
theorem counts_conclude (c : ChunkRun) (now : Nat) (o : Options) (x : TaskOutcome) :
    Counts (c.conclude now o x).2 [x.state] (x.verdict? o c.attempt) := by
  have hfigure := counts_attemptFigure c now x.state
  obtain rfl | ⟨a, rfl, ha⟩ | hfails := x.cancelled_or_succeeds_or_fails
  · exact hfigure.append (counts_cancel c now)
  · have hcounts := (hfigure.append (counts_enter c [.running, .succeeded])).append
      (counts_finish (c.enter [.running, .succeeded]).1 now
        (.converted a (c.enter [.running, .succeeded]).1.attempt))
    rw [conclude_completed ha, TaskOutcome.verdict_completed ha]
    rw [TaskOutcome.state_completed ha, enter_fst] at hcounts
    rw [TaskOutcome.state_completed ha, enter_fst]
    exact hcounts
  · have hcounts := (hfigure.append (counts_enter c [.running, x.state])).append
      (counts_fail (c.enter [.running, x.state]).1 now o x)
    rw [conclude_of_fails hfails, TaskOutcome.verdict_of_fails hfails]
    rw [enter_fst] at hcounts ⊢
    exact hcounts

/-- How many attempts at the chunk have ended. -/
def attemptsMade (c : ChunkRun) : Nat :=
  match c.stage with
  | .offered | .underWay => c.attempt - 1
  | .resting _ => c.attempt
  | .ended final => final.attempts

/-- With every step the attempts that have ended with it are counted, and the chunk if it has ended. -/
theorem exists_counts_of_step {c c' : ChunkRun} {o : Options} {now : Nat} {input : ChunkInput} {notes : List Note}
    (htried : c.Tried) (h : Step o now c input c' notes) :
    ∃ states, Counts notes states c'.stage.final? ∧ c'.attemptsMade = c.attemptsMade + states.length := by
  have hfirst := Nat.pos_of_ne_zero htried.attempt
  cases h with
  | accepted hstage =>
    refine ⟨[], Note.counts_of_silent fun _ hn => absurd hn List.not_mem_nil, ?_⟩
    unfold attemptsMade
    rw [hstage]
    rfl
  | ends x hstage =>
    refine ⟨[x.state], ?_, ?_⟩
    · have hfinal : (c.conclude now o x).1.stage.final? = x.verdict? o c.attempt := by
        rw [conclude_fst, TaskOutcome.stageAfter]
        cases x.verdict? o c.attempt <;> rfl
      rw [hfinal]
      exact counts_conclude c now o x
    · have hmade : (c.conclude now o x).1.attemptsMade = c.attempt := by
        unfold attemptsMade
        rw [conclude_fst]
        dsimp only [TaskOutcome.stageAfter]
        cases hverdict : x.verdict? o c.attempt with
        | none => rfl
        | some final => exact TaskOutcome.attempts_of_verdict hverdict
      have hbefore : c.attemptsMade = c.attempt - 1 := by
        unfold attemptsMade
        rcases hstage with hstage | hstage <;> rw [hstage]
      rw [hmade, hbefore, List.length_singleton, Nat.sub_add_cancel hfirst]
  | wakes time hstage =>
    refine ⟨[], ?_, ?_⟩
    · have hcounts := counts_enter { c with attempt := c.attempt + 1, attemptSince := now, stage := .offered }
        [.submitted]
      rw [wake_fst]
      exact hcounts
    · unfold attemptsMade
      rw [wake_fst, hstage]
      rfl
  | givesUp time hstage =>
    refine ⟨[], ?_, ?_⟩
    · rw [cancel_fst]
      exact counts_cancel c now
    · unfold attemptsMade
      rw [cancel_fst, hstage]
      rfl

/-- Of a chunk that is begun no attempt has ended; a blank one is counted, as it has ended without any. -/
theorem counts_start (now : Nat) (p : Provenance) (chunk : Chunk) :
    Counts (start now p chunk).2 [] (start now p chunk).1.stage.final? ∧ (start now p chunk).1.attemptsMade = 0 := by
  unfold start
  split
  · exact ⟨counts_finish _ now _, rfl⟩
  · exact ⟨Note.counts_of_silent fun _ hn => absurd hn List.not_mem_nil, rfl⟩

end ChunkRun

/-! ## The figures of a run -/

namespace Run

/-- How many attempts have ended, at chunks that have ended and at chunks on their way. -/
def attemptsMade (r : Run) : Nat :=
  Pseudoscribe.total (r.finals.map (·.2.attempts)) + Pseudoscribe.total (r.onWay.map (·.attemptsMade))

/-- What was counted up to here. -/
structure Counted (r : Run) (notes : List Note) : Prop where
  /-- the chunks that have ended, in their order -/
  chunks : Note.figures "chunk" notes = r.finals.map fun p => p.2.counters
  attempts : ∃ states : List TaskState, Note.figures "chunk.attempt" notes = states.map TaskState.counters ∧
    states.length = r.attemptsMade
  result : (Note.figures "translation" notes).length = r.result.toList.length
  /-- a run that was begun is not rejected -/
  accepted : Note.figures "translation.rejected" notes = []

theorem attempts_remaining_or_final (c : ChunkRun) :
    Pseudoscribe.total ((remaining c).map (·.attemptsMade)) +
      Pseudoscribe.total ((c.stage.final?.map (c.chunk.index, ·)).toList.map (·.2.attempts)) = c.attemptsMade := by
  unfold remaining
  cases hfinal : c.stage.final? with
  | none => rfl
  | some final =>
    rw [ChunkRun.attemptsMade, ChunkStage.final?_eq_some.1 hfinal]
    exact Nat.zero_add _

theorem attemptsMade_place {r : Run} {c : ChunkRun} {notes : List Note} {others : List ChunkRun}
    (h : (r.place c notes).1.onWay.Perm (remaining c ++ others)) :
    (r.place c notes).1.attemptsMade = c.attemptsMade + Pseudoscribe.total (r.finals.map (·.2.attempts)) +
      Pseudoscribe.total (others.map (·.attemptsMade)) := by
  have honWay := total_perm (h.map (·.attemptsMade))
  have hboth := attempts_remaining_or_final c
  rw [List.map_append, total_append] at honWay
  rw [attemptsMade, finals_place, List.map_append, total_append, honWay]
  omega

/-- Putting a chunk back is told to whoever listens only. -/
theorem figures_place (name : String) (r : Run) (c : ChunkRun) (notes : List Note) :
    Note.figures name (r.place c notes).2 = Note.figures name notes := by
  unfold place
  cases c.stage with
  | offered | underWay | resting => rfl
  | ended final =>
    dsimp only
    rw [Note.figures_append]
    cases final <;> exact List.append_nil _

/-- A chunk that was put back has told of the attempts that have ended. -/
theorem Counted.chunk {r : Run} {c : ChunkRun} {notes more : List Note} {states : List TaskState}
    (h : r.Counted notes) (base : Run) (hcounts : Note.Counts more states c.stage.final?)
    (hfinals : base.finals = r.finals) (hresult : base.result = r.result)
    (hmade : (base.place c more).1.attemptsMade = r.attemptsMade + states.length) :
    (base.place c more).1.Counted (notes ++ (base.place c more).2) := by
  obtain ⟨before, hbefore, hlength⟩ := h.attempts
  have hother (name : String) (hattempt : name ≠ "chunk.attempt") (hchunk : name ≠ "chunk") :
      Note.figures name (notes ++ (base.place c more).2) = Note.figures name notes := by
    rw [Note.figures_append, figures_place, hcounts.others name hattempt hchunk, List.append_nil]
  refine ⟨?_, ⟨before ++ states, ?_, ?_⟩, ?_, ?_⟩
  · rw [Note.figures_append, figures_place, h.chunks, hcounts.chunk, finals_place, hfinals, List.map_append]
    cases c.stage.final? <;> rfl
  · rw [Note.figures_append, figures_place, hbefore, hcounts.attempts, List.map_append]
  · rw [List.length_append, hlength, hmade]
  · rw [hother _ (by decide) (by decide), result_place, hresult, h.result]
  · rw [hother _ (by decide) (by decide), h.accepted]

/-- One move. -/
theorem Counted.move {r s : Run} {begun : List Nat} {now : Nat} {m : RunMove} {notes more : List Note}
    (h : r.Counted notes) (horder : r.Orderly begun) (htried : r.Tried)
    (hmade : r.move? now m = some (s, more)) : s.Counted (notes ++ more) := by
  cases move_cases hmade with
  | next chunk rest hwaiting hroom hgoing =>
    rw [move?_next hwaiting hroom hgoing] at hmade
    obtain rfl := congrArg Prod.snd (Option.some.inj hmade)
    obtain ⟨hcounts, hnone⟩ := ChunkRun.counts_start now r.provenance chunk
    -- a blank chunk has ended at once, and then without any attempt
    have hnew : (ChunkRun.start now r.provenance chunk).1.chunk.index ∉ r.onWay.map (·.chunk.index) := by
      rw [ChunkRun.chunk_start]
      exact horder.index_notMem hwaiting
    have honWay := @onWay_place_new { r with waiting := rest } _ (ChunkRun.start now r.provenance chunk).2 hnew
    have hattempts := attemptsMade_place (honWay ▸ List.perm_append_comm)
    refine h.chunk { r with waiting := rest } hcounts rfl rfl ?_
    rw [hattempts, hnone, Nat.zero_add]
    rfl
  | @chunk i input c c' told hfound htaken htimed hmode =>
    rw [move?_chunk hfound htaken htimed hmode] at hmade
    obtain rfl := congrArg Prod.snd (Option.some.inj hmade)
    obtain ⟨hc, -⟩ := mem_of_find? hfound
    have hstep := ChunkRun.step_cases htaken
    obtain ⟨states, hcounts, hstates⟩ := ChunkRun.exists_counts_of_step (htried.onWay c hc) hstep
    obtain ⟨others, hbefore, hbehind⟩ :=
      exists_onWay_place_known told horder.nodup_onWay hc (ChunkRun.chunk_of_step hstep)
    have hattempts := attemptsMade_place hbehind
    have hold := total_perm (hbefore.map (·.attemptsMade))
    refine h.chunk r hcounts rfl rfl ?_
    rw [hattempts, hstates, attemptsMade, hold, List.map_cons, total_cons]
    omega
  | cancel hgoing hopen =>
    rw [move?_cancel hgoing hopen] at hmade
    obtain rfl := congrArg Prod.snd (Option.some.inj hmade)
    exact (List.append_nil notes).symm ▸ ⟨h.chunks, h.attempts, h.result, h.accepted⟩
  | conclude hempty hlast hopen =>
    rw [move?_conclude hempty hlast hopen] at hmade
    obtain rfl := congrArg Prod.snd (Option.some.inj hmade)
    obtain ⟨states, hstates, hlength⟩ := h.attempts
    have hresult := h.result
    rw [hopen] at hresult
    refine ⟨?_, ⟨states, ?_, hlength⟩, ?_, ?_⟩
    · rw [Note.figures_append, h.chunks]
      exact List.append_nil _
    · rw [Note.figures_append, hstates]
      exact List.append_nil _
    · rw [Note.figures_append, List.length_append, hresult]
      rfl
    · rw [Note.figures_append, h.accepted]
      rfl

theorem Tale.counted {now : Nat} {request : Request} {spec : BackendSpec} {cancelled : Bool}
    {ms : List (Nat × RunMove)} {notes : List Note} {r : Run}
    (h : Tale (new now request spec cancelled) ms notes r) : r.Counted notes := by
  induction h with
  | refl => exact ⟨rfl, ⟨[], rfl, rfl⟩, rfl, rfl⟩
  | step time m before made ih =>
    obtain ⟨begun, hleads⟩ := before.exists_leads
    exact ih.move (hleads.orderly (orderly_new now request spec cancelled))
      (hleads.tried (tried_new now request spec cancelled)) made

end Run

end Pseudoscribe
