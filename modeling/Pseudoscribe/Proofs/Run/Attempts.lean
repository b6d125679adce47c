import Mathlib.Data.List.Chain
import Mathlib.Data.List.Range
import Pseudoscribe.Proofs.Run.Stages

/-!
# The attempts at a chunk

Whatever happens to a chunk that is not blank, its attempts are made one after the other, numbered from 1, with
the delay of the one before between two of them, until one of them decides or the request is to stop.
All states that the chunk goes through are told, and each may follow the one before.
-/

namespace Pseudoscribe

/-- May the second state follow the first? -/
def TaskState.Before (s t : TaskState) : Prop := s.canFollow t = true

instance (s t : TaskState) : Decidable (s.Before t) := inferInstanceAs (Decidable (_ = _))

/-! ## Notes -/

namespace Note

/-- The attempt and the state that the note tells of. -/
def state? : Note → Option (Nat × TaskState)
  | .event (.chunkState _ attempt state) => some (attempt, state)
  | _ => none

/-- The attempt, the delay and the reason of a new attempt that the note announces. -/
def retry? : Note → Option (Nat × Nat × String)
  | .event (.chunkRetrying _ attempt delayMs reason) => some (attempt, delayMs, reason)
  | _ => none

/-- The number of attempts after which a chunk was given up, and the reason. -/
def abandoned? : Note → Option (Nat × String)
  | .event (.chunkAbandoned _ attempts reason) => some (attempts, reason)
  | _ => none

def isViolation : Note → Bool
  | .violated .. => true
  | _ => false

/-- What notes tell of a chunk: the states, the new attempts and that it was given up; they complain of
nothing. -/
structure Tell (notes : List Note) (states : List (Nat × TaskState)) (retries : List (Nat × Nat × String))
    (abandons : List (Nat × String)) : Prop where
  states : notes.filterMap state? = states
  retries : notes.filterMap retry? = retries
  abandons : notes.filterMap abandoned? = abandons
  accepted : ∀ n ∈ notes, n.isViolation = false

theorem Tell.append {notes notes' : List Note} {states states' : List (Nat × TaskState)}
    {retries retries' : List (Nat × Nat × String)} {abandons abandons' : List (Nat × String)}
    (h : Tell notes states retries abandons) (h' : Tell notes' states' retries' abandons') :
    Tell (notes ++ notes') (states ++ states') (retries ++ retries') (abandons ++ abandons') := by
  refine ⟨?_, ?_, ?_, fun n hn => ?_⟩
  · rw [List.filterMap_append, h.states, h'.states]
  · rw [List.filterMap_append, h.retries, h'.retries]
  · rw [List.filterMap_append, h.abandons, h'.abandons]
  · rcases List.mem_append.1 hn with hn | hn
    · exact h.accepted n hn
    · exact h'.accepted n hn

theorem tell_nil : Tell [] [] [] [] := ⟨rfl, rfl, rfl, fun _ h => absurd h List.not_mem_nil⟩

theorem tell_figure (name : String) (duration : Option Duration) (counters : List (String × Nat)) :
    Tell [.figure name duration counters] [] [] [] :=
  ⟨rfl, rfl, rfl, fun n hn => by rw [List.mem_singleton.1 hn]; rfl⟩

theorem tell_states (chunk attempt : Nat) (states : List TaskState) :
    Tell (states.map fun s => .event (.chunkState chunk attempt s)) (states.map (attempt, ·)) [] [] := by
  induction states with
  | nil => exact tell_nil
  | cons s states ih =>
    have hhead : Tell [.event (.chunkState chunk attempt s)] [(attempt, s)] [] [] :=
      ⟨rfl, rfl, rfl, fun n hn => by rw [List.mem_singleton.1 hn]; rfl⟩
    exact hhead.append ih

end Note

/-! ## Lifecycles -/

namespace Lifecycle

/-- The lifecycle after further states. -/
def through (l : Lifecycle) (states : List TaskState) : Lifecycle :=
  states.foldl (fun l s => ⟨l.state :: l.past, s⟩) l

theorem history_through (l : Lifecycle) (states : List TaskState) :
    (l.through states).history = l.history ++ states := by
  induction states generalizing l with
  | nil => exact (List.append_nil _).symm
  | cons s states ih =>
    have hnext : (⟨l.state :: l.past, s⟩ : Lifecycle).history = l.history ++ [s] := by
      rw [history, history, List.reverse_cons]
    rw [through, List.foldl_cons]
    exact (ih _).trans (by rw [hnext, List.append_assoc, List.singleton_append])

theorem getLast?_history (l : Lifecycle) : l.history.getLast? = some l.state := List.getLast?_concat

end Lifecycle

namespace ChunkRun

/-- States that may follow one another are all gone through, and told. -/
theorem enter_of_chain {c : ChunkRun} {states : List TaskState}
    (h : (c.lifecycle.state :: states).IsChain TaskState.Before) :
    c.enter states = ({ c with lifecycle := c.lifecycle.through states },
      states.map fun s => .event (.chunkState c.chunk.index c.attempt s)) := by
  induction states generalizing c with
  | nil => rfl
  | cons s states ih =>
    obtain ⟨hfirst, hrest⟩ := List.isChain_cons_cons.1 h
    have hadvance : c.lifecycle.advance s = .ok ⟨c.lifecycle.state :: c.lifecycle.past, s⟩ := if_pos hfirst
    have htail := @ih { c with lifecycle := ⟨c.lifecycle.state :: c.lifecycle.past, s⟩ } hrest
    rw [enter, hadvance]
    dsimp only
    rw [htail]
    rfl

/-! ## What each kind of step tells -/

variable {c : ChunkRun} {now : Nat} {o : Options}

theorem cancel_told (h : c.lifecycle.state.isTerminal = false) :
    (c.cancel now).1.lifecycle = c.lifecycle.through [.cancelled] ∧
      Note.Tell (c.cancel now).2 [(c.attempt, .cancelled)] [] [] := by
  have hchain : [c.lifecycle.state, .cancelled].IsChain TaskState.Before := by
    refine List.isChain_pair.2 ?_
    generalize c.lifecycle.state = s at h
    cases s <;> first | rfl | cases h
  unfold cancel
  rw [enter_of_chain hchain]
  exact ⟨rfl, (Note.tell_states c.chunk.index c.attempt [.cancelled]).append (Note.tell_figure ..)⟩

theorem abandon_told {reason : String} (h : c.lifecycle.state.Before .abandoned) :
    (c.abandon now reason).1.lifecycle = c.lifecycle.through [.abandoned] ∧
      Note.Tell (c.abandon now reason).2 [(c.attempt, .abandoned)] [] [(c.attempt, reason)] := by
  have hevent : Note.Tell [.event (.chunkAbandoned c.chunk.index c.attempt reason)] [] []
      [(c.attempt, reason)] := ⟨rfl, rfl, rfl, fun n hn => by rw [List.mem_singleton.1 hn]; rfl⟩
  unfold abandon
  rw [enter_of_chain (List.isChain_pair.2 h)]
  exact ⟨rfl, ((Note.tell_states c.chunk.index c.attempt [.abandoned]).append hevent).append
    (Note.tell_figure ..)⟩

theorem rest_told {delayMs : Nat} {reason : String} (h : c.lifecycle.state.Before .retrying) :
    (c.rest now delayMs reason).1.lifecycle = c.lifecycle.through [.retrying] ∧
      Note.Tell (c.rest now delayMs reason).2 [(c.attempt, .retrying)] [(c.attempt, delayMs, reason)] [] := by
  have hevent : Note.Tell [.event (.chunkRetrying c.chunk.index c.attempt delayMs reason)] []
      [(c.attempt, delayMs, reason)] [] := ⟨rfl, rfl, rfl, fun n hn => by rw [List.mem_singleton.1 hn]; rfl⟩
  unfold rest
  rw [enter_of_chain (List.isChain_pair.2 h)]
  exact ⟨rfl, (Note.tell_states c.chunk.index c.attempt [.retrying]).append hevent⟩

theorem wake_told (h : c.lifecycle.state = .retrying) :
    (c.wake now).1.lifecycle = c.lifecycle.through [.submitted] ∧
      Note.Tell (c.wake now).2 [(c.attempt + 1, .submitted)] [] [] := by
  have hbefore : c.lifecycle.state.Before .submitted := by rw [h]; decide
  have henter := @enter_of_chain { c with attempt := c.attempt + 1, attemptSince := now, stage := .offered }
    [.submitted] (List.isChain_pair.2 hbefore)
  unfold wake
  rw [henter]
  exact ⟨rfl, Note.tell_states c.chunk.index (c.attempt + 1) [.submitted]⟩

end ChunkRun

namespace TaskOutcome

/-- The new attempt that is announced after an attempt with this outcome. -/
def retries (o : Options) (attempt : Nat) (x : TaskOutcome) : List (Nat × Nat × String) :=
  match x.verdict? o attempt with
  | some _ => []
  | none => [(attempt, x.delayMs o attempt, x.reason)]

theorem path_isChain (o : Options) (attempt : Nat) (x : TaskOutcome) :
    (TaskState.submitted :: x.path o attempt).IsChain TaskState.Before := by
  obtain rfl | ⟨a, rfl, ha⟩ | hfails := x.cancelled_or_succeeds_or_fails
  · exact (by decide : [TaskState.submitted, .cancelled].IsChain TaskState.Before)
  · rw [path, verdict_completed ha]
    exact (by decide : [TaskState.submitted, .running, .succeeded].IsChain TaskState.Before)
  · rw [path, verdict_of_fails hfails, exhausted?]
    rcases hfails with hstate | hstate
    · rw [hstate]
      split <;> decide
    · rw [hstate]
      split <;> decide

/-- The path leads to the state in which the chunk then stands. -/
theorem getLast?_path (o : Options) (now attempt : Nat) (x : TaskOutcome) :
    (x.path o attempt).getLast? = some (x.stageAfter o now attempt).state := by
  unfold path stageAfter
  cases x.verdict? o attempt with
  | none => rfl
  | some final => cases final <;> rfl

end TaskOutcome

/-- The note of a chunk that was given up. -/
def ChunkStage.abandons : ChunkStage → List (Nat × String)
  | ended (.abandoned reason attempts) => [(attempts, reason)]
  | _ => []

namespace ChunkRun

variable {c : ChunkRun} {now : Nat} {o : Options}

/-- The end of an attempt at a submitted task: the states of its path, and what follows from the verdict. -/
theorem conclude_told {x : TaskOutcome} (h : c.lifecycle.state = .submitted) :
    (c.conclude now o x).1.lifecycle = c.lifecycle.through (x.path o c.attempt) ∧
      Note.Tell (c.conclude now o x).2 ((x.path o c.attempt).map (c.attempt, ·)) (x.retries o c.attempt)
        (x.stageAfter o now c.attempt).abandons := by
  have hrunning {s : TaskState} (hs : TaskState.running.Before s) :
      (c.lifecycle.state :: [.running, s]).IsChain TaskState.Before := by
    rw [h]
    exact List.isChain_cons_cons.2 ⟨rfl, List.isChain_pair.2 hs⟩
  obtain rfl | ⟨a, rfl, ha⟩ | hfails := x.cancelled_or_succeeds_or_fails
  · obtain ⟨hlifecycle, htold⟩ := @cancel_told c now (by rw [h]; rfl)
    exact ⟨hlifecycle, (Note.tell_figure ..).append htold⟩
  · have htold := (Note.tell_states c.chunk.index c.attempt [.running, .succeeded])
    rw [conclude_completed ha, enter_of_chain (hrunning (by decide)), TaskOutcome.path, TaskOutcome.retries,
      TaskOutcome.stageAfter, TaskOutcome.verdict_completed ha]
    exact ⟨rfl, ((Note.tell_figure ..).append htold).append (Note.tell_figure ..)⟩
  · have hstate : TaskState.running.Before x.state := by rcases hfails with hs | hs <;> rw [hs] <;> decide
    have habandon : x.state.Before .abandoned := by rcases hfails with hs | hs <;> rw [hs] <;> decide
    have hrest : x.state.Before .retrying := by rcases hfails with hs | hs <;> rw [hs] <;> decide
    have htold := (Note.tell_states c.chunk.index c.attempt [.running, x.state])
    rw [conclude_of_fails hfails, enter_of_chain (hrunning hstate), TaskOutcome.path, TaskOutcome.retries,
      TaskOutcome.stageAfter, TaskOutcome.verdict_of_fails hfails, TaskOutcome.exhausted?, fail]
    by_cases hlast : o.maxAttempts ≤ c.attempt
    · rw [if_pos hlast, if_pos hlast]
      obtain ⟨hlifecycle, habandoned⟩ :=
        @abandon_told { c with lifecycle := c.lifecycle.through [.running, x.state] } now x.reason habandon
      exact ⟨hlifecycle, ((Note.tell_figure ..).append htold).append habandoned⟩
    · rw [if_neg hlast, if_neg hlast]
      obtain ⟨hlifecycle, hrested⟩ :=
        @rest_told { c with lifecycle := c.lifecycle.through [.running, x.state] } now
          (x.delayMs o c.attempt) x.reason hrest
      exact ⟨hlifecycle, ((Note.tell_figure ..).append htold).append hrested⟩

end ChunkRun

/-! ## Courses -/

/-- An attempt that has ended. -/
structure Attempt where
  number : Nat
  began : Nat
  ended : Nat
  outcome : TaskOutcome
deriving DecidableEq, Repr

namespace Attempt

def verdict? (o : Options) (a : Attempt) : Option ChunkEnd := a.outcome.verdict? o a.number

/-- The delay after the attempt. -/
def delayMs (o : Options) (a : Attempt) : Nat := a.outcome.delayMs o a.number

end Attempt

namespace ChunkRun

/-- The attempt that an input ends. -/
def ended? (c : ChunkRun) (now : Nat) (input : ChunkInput) : Option Attempt :=
  (input.outcome? c.stage).map (⟨c.attempt, c.attemptSince, now, ·⟩)

/-- The course of a chunk since it was begun: how many steps it took, where it stands, the attempts that have
ended, and all that was told. -/
inductive Course (o : Options) (since : Nat) (p : Provenance) (chunk : Chunk) :
    Nat → ChunkRun → List Attempt → List Note → Prop
  | start : Course o since p chunk 0 (start since p chunk).1 [] (start since p chunk).2
  | step {steps : Nat} {c c' : ChunkRun} {attempts : List Attempt} {notes more : List Note}
    (now : Nat) (input : ChunkInput) (course : Course o since p chunk steps c attempts notes)
    (taken : c.step? now o input = some (c', more)) :
    Course o since p chunk (steps + 1) c' (attempts ++ (c.ended? now input).toList) (notes ++ more)

/-- Where a chunk stands after its attempts.  As long as it goes on they all failed and were not the last; when
it has ended that holds of all but the last one, which has decided, or after which it was withdrawn. -/
def Stands (o : Options) (c : ChunkRun) (attempts : List Attempt) : Prop :=
  match c.stage with
  | .offered | .underWay =>
    c.attempt = attempts.length + 1 ∧ (∀ a ∈ attempts, a.verdict? o = none) ∧
      ∀ a ∈ attempts.getLast?, a.ended + a.delayMs o ≤ c.attemptSince
  | .resting time =>
    c.attempt = attempts.length ∧ (∀ a ∈ attempts, a.verdict? o = none) ∧
      ∃ a ∈ attempts.getLast?, time = a.ended + a.delayMs o
  | .ended final =>
    c.attempt = attempts.length ∧ final.attempts = attempts.length ∧
      (∀ a ∈ attempts.dropLast, a.verdict? o = none) ∧
      ∃ a ∈ attempts.getLast?, a.verdict? o = some final ∨
        (a.verdict? o = none ∧ final = .cancelled attempts.length)

/-- The laws of the course of a chunk. -/
structure Lawful (o : Options) (steps : Nat) (c : ChunkRun) (attempts : List Attempt)
    (notes : List Note) : Prop where
  /-- the attempts have the numbers 1, 2, … -/
  numbered : attempts.map Attempt.number = List.range' 1 attempts.length
  /-- the delay of an attempt is over before the next one begins -/
  waited : attempts.IsChain fun a b => a.ended + a.delayMs o ≤ b.began
  stands : c.Stands o attempts
  /-- every state that was to be entered could be entered -/
  accepted : ∀ n ∈ notes, n.isViolation = false
  /-- the states that were told are the path from the submission -/
  history : c.lifecycle.history = .submitted :: (notes.filterMap Note.state?).map Prod.snd
  path : c.lifecycle.history.IsChain TaskState.Before
  /-- the path leads to where the chunk stands -/
  state : c.lifecycle.history.getLast? = some c.stage.state
  /-- a new attempt is announced after each that does not decide, with its delay -/
  retries : notes.filterMap Note.retry? = attempts.flatMap fun a => a.outcome.retries o a.number
  /-- that the chunk was given up is told once, and only then -/
  abandons : notes.filterMap Note.abandoned? = c.stage.abandons
  within : c.attempt ≤ o.maxAttempts
  /-- it comes to its end -/
  bounded : steps + c.stepsLeft o < 3 * o.maxAttempts
  goesOn : (∃ final, c.stage = .ended final) ∨
    ∃ now input, input ≠ .withdrawn ∧ (c.step? now o input).isSome = true

/-! ## One step keeps the laws -/

section Step

variable {o : Options} {steps now : Nat} {c : ChunkRun} {attempts : List Attempt} {notes : List Note}

theorem goesOn_of_stage {c : ChunkRun} (o : Options) : (∃ final, c.stage = .ended final) ∨
    ∃ now input, input ≠ ChunkInput.withdrawn ∧ (c.step? now o input).isSome = true := by
  cases hstage : c.stage with
  | offered => exact .inr ⟨0, .accepted, ChunkInput.noConfusion, by simp [step?, hstage]⟩
  | underWay => exact .inr ⟨0, .outcome .cancelled, ChunkInput.noConfusion, by simp [step?, hstage]⟩
  | resting time => exact .inr ⟨time, .rested, ChunkInput.noConfusion, by simp [step?, hstage]⟩
  | ended final => exact .inl ⟨final, rfl⟩

theorem Lawful.lifecycle_state (h : Lawful o steps c attempts notes) : c.lifecycle.state = c.stage.state := by
  have hlast := h.state
  rw [Lifecycle.getLast?_history] at hlast
  exact Option.some.inj hlast

/-- What was told up to now and what the step tells, with the states of the path. -/
theorem Lawful.told (h : Lawful o steps c attempts notes) {c' : ChunkRun} {more : List Note}
    {states : List TaskState} {number : Nat} {retries : List (Nat × Nat × String)}
    {abandons : List (Nat × String)}
    (hlifecycle : c'.lifecycle = c.lifecycle.through states)
    (htold : Note.Tell more (states.map (number, ·)) retries abandons)
    (hchain : (c.stage.state :: states).IsChain TaskState.Before) :
    (∀ n ∈ notes ++ more, n.isViolation = false) ∧
      c'.lifecycle.history = .submitted :: ((notes ++ more).filterMap Note.state?).map Prod.snd ∧
      c'.lifecycle.history.IsChain TaskState.Before := by
  have hhistory : c'.lifecycle.history = c.lifecycle.history ++ states := by
    rw [hlifecycle, Lifecycle.history_through]
  refine ⟨fun n hn => ?_, ?_, ?_⟩
  · rcases List.mem_append.1 hn with hn | hn
    · exact h.accepted n hn
    · exact htold.accepted n hn
  · rw [hhistory, h.history, List.filterMap_append, List.map_append, htold.states, List.map_map]
    exact congrArg (fun tail => TaskState.submitted :: (_ ++ tail)) (List.map_id states).symm
  · rw [hhistory]
    refine List.IsChain.append h.path hchain.tail fun s hs t ht => ?_
    rw [h.state, Option.mem_some_iff] at hs
    subst hs
    cases states with
    | nil => cases ht
    | cons u states =>
      obtain rfl := Option.some.inj ht
      exact (List.isChain_cons_cons.1 hchain).1

theorem Lawful.number_getLast (h : Lawful o steps c attempts notes) {a : Attempt}
    (ha : a ∈ attempts.getLast?) : a.number = attempts.length := by
  have hlast := congrArg List.getLast? h.numbered
  rw [List.getLast?_map, ha, Option.map_some, List.getLast?_range'] at hlast
  split at hlast
  · cases hlast
  · have := Option.some.inj hlast
    omega

/-- A chunk rests only when it may be tried again. -/
theorem Lawful.attempt_lt {time : Nat} (h : Lawful o steps c attempts notes)
    (hstage : c.stage = .resting time) : c.attempt < o.maxAttempts := by
  have hstands := h.stands
  rw [Stands, hstage] at hstands
  obtain ⟨hnumber, hfailed, a, ha, -⟩ := hstands
  have hlt := TaskOutcome.lt_maxAttempts (hfailed a (List.mem_of_getLast? ha))
  rwa [h.number_getLast ha, ← hnumber] at hlt

theorem Lawful.bounded_step (h : Lawful o steps c attempts notes) {c' : ChunkRun} {input : ChunkInput}
    {more : List Note} (hstep : Step o now c input c' more) :
    steps + 1 + c'.stepsLeft o < 3 * o.maxAttempts := by
  have hless := stepsLeft_lt_of_step (fun _ hstage => h.attempt_lt hstage) hstep
  have hbounded := h.bounded
  omega

/-- A step that tells of the states of a path keeps the laws.  What is to be shown of it is the number of an
attempt that it ends, that this attempt has waited for the one before, and where the chunk then stands. -/
theorem Lawful.tells (h : Lawful o steps c attempts notes) {c' : ChunkRun} {input : ChunkInput}
    {more : List Note} {states : List TaskState} (number : Nat) (new : Option Attempt)
    (hstep : Step o now c input c' more) (hlifecycle : c'.lifecycle = c.lifecycle.through states)
    (htold : Note.Tell more (states.map (number, ·)) (new.toList.flatMap fun a => a.outcome.retries o a.number)
      c'.stage.abandons)
    (hchain : (c.stage.state :: states).IsChain TaskState.Before)
    (hlast : states.getLast? = some c'.stage.state) (hopen : c.stage.abandons = [])
    (hnumber : ∀ b ∈ new, b.number = attempts.length + 1)
    (hwaited : ∀ b ∈ new, ∀ a ∈ attempts.getLast?, a.ended + a.delayMs o ≤ b.began)
    (hstands : c'.Stands o (attempts ++ new.toList)) (hwithin : c'.attempt ≤ o.maxAttempts) :
    Lawful o (steps + 1) c' (attempts ++ new.toList) (notes ++ more) := by
  obtain ⟨haccepted, hhistory, hpath⟩ := h.told hlifecycle htold hchain
  refine ⟨?_, ?_, hstands, haccepted, hhistory, hpath, ?_, ?_, ?_, hwithin, h.bounded_step hstep,
    goesOn_of_stage o⟩
  · cases new with
    | none => rw [Option.toList_none, List.append_nil, h.numbered]
    | some b => rw [Option.toList_some, List.map_append, h.numbered, List.length_append, List.length_singleton,
        List.range'_1_concat, List.map_singleton, hnumber b rfl, Nat.add_comm 1]
  · cases new with
    | none =>
      rw [Option.toList_none, List.append_nil]
      exact h.waited
    | some b =>
      refine List.IsChain.append h.waited (List.isChain_singleton b) fun a ha d hd => ?_
      obtain rfl := Option.some.inj hd
      exact hwaited b rfl a ha
  · rw [hlifecycle, Lifecycle.history_through, List.getLast?_append, hlast, Option.some_or]
  · rw [List.filterMap_append, h.retries, htold.retries, List.flatMap_append]
  · rw [List.filterMap_append, h.abandons, htold.abandons, hopen, List.nil_append]

theorem Lawful.accept (h : Lawful o steps c attempts notes) (hstage : c.stage = .offered) :
    Lawful o (steps + 1) { c with stage := .underWay } attempts notes := by
  have hstands := h.stands
  have hstate := h.state
  have habandons := h.abandons
  rw [Stands, hstage] at hstands
  rw [hstage] at hstate habandons
  have hbounded := @Lawful.bounded_step o steps 0 c attempts notes h _ _ _ (.accepted hstage)
  exact ⟨h.numbered, h.waited, hstands, h.accepted, h.history, h.path, hstate, h.retries, habandons, h.within,
    hbounded, goesOn_of_stage o⟩

theorem Stands.of_submitted (h : c.Stands o attempts) (hstage : c.stage = .offered ∨ c.stage = .underWay) :
    c.attempt = attempts.length + 1 ∧ (∀ a ∈ attempts, a.verdict? o = none) ∧
      ∀ a ∈ attempts.getLast?, a.ended + a.delayMs o ≤ c.attemptSince := by
  unfold Stands at h
  rcases hstage with hstage | hstage
  · rw [hstage] at h
    exact h
  · rw [hstage] at h
    exact h

theorem stands_after {x : TaskOutcome} (hnumber : c.attempt = attempts.length + 1)
    (hfailed : ∀ a ∈ attempts, a.verdict? o = none) (hstage : c.stage = x.stageAfter o now c.attempt) :
    c.Stands o (attempts ++ [⟨c.attempt, c.attemptSince, now, x⟩]) := by
  have hlength (a : Attempt) : (attempts ++ [a]).length = c.attempt := by
    rw [List.length_append, List.length_singleton, hnumber]
  unfold Stands
  rw [hstage, TaskOutcome.stageAfter]
  cases hverdict : x.verdict? o c.attempt with
  | none =>
    refine ⟨(hlength _).symm, fun a ha => ?_, _, List.getLast?_concat, rfl⟩
    rcases List.mem_append.1 ha with ha | ha
    · exact hfailed a ha
    · rw [List.mem_singleton.1 ha]
      exact hverdict
  | some final =>
    refine ⟨(hlength _).symm, ?_, fun a ha => ?_, _, List.getLast?_concat, .inl hverdict⟩
    · rw [hlength, TaskOutcome.attempts_of_verdict hverdict]
    · rw [List.dropLast_concat] at ha
      exact hfailed a ha

theorem Lawful.conclude {input : ChunkInput} {x : TaskOutcome} (h : Lawful o steps c attempts notes)
    (hstage : c.stage = .offered ∨ c.stage = .underWay) (houtcome : input.outcome? c.stage = some x) :
    Lawful o (steps + 1) (c.conclude now o x).1 (attempts ++ [⟨c.attempt, c.attemptSince, now, x⟩])
      (notes ++ (c.conclude now o x).2) := by
  obtain ⟨hnumber, hfailed, hlast⟩ := h.stands.of_submitted hstage
  have hsubmitted : c.stage.state = .submitted := by rcases hstage with hs | hs <;> rw [hs] <;> rfl
  have hopen : c.stage.abandons = [] := by rcases hstage with hs | hs <;> rw [hs] <;> rfl
  obtain ⟨hlifecycle, htold⟩ := @conclude_told c now o x (h.lifecycle_state.trans hsubmitted)
  have hfst := conclude_fst c now o x
  have hstage' : (c.conclude now o x).1.stage = x.stageAfter o now c.attempt := by rw [hfst]
  have hattempt : (c.conclude now o x).1.attempt = c.attempt := by rw [hfst]
  have hsince : (c.conclude now o x).1.attemptSince = c.attemptSince := by rw [hfst]
  refine h.tells c.attempt (some ⟨c.attempt, c.attemptSince, now, x⟩) (.ends x hstage houtcome) hlifecycle ?_
    (hsubmitted ▸ x.path_isChain o c.attempt) ?_ hopen (fun b hb => ?_) (fun b hb a ha => ?_) ?_
    (hattempt ▸ h.within)
  · rw [Option.toList_some, List.flatMap_singleton, hstage']
    exact htold
  · rw [x.getLast?_path o now, hstage']
  · rw [← Option.some.inj hb]
    exact hnumber
  · rw [← Option.some.inj hb]
    exact hlast a ha
  · have hstands := @stands_after o now (c.conclude now o x).1 attempts x (hattempt.trans hnumber) hfailed
      (by rw [hstage', hattempt])
    rwa [hattempt, hsince] at hstands

theorem Lawful.wake {time : Nat} (h : Lawful o steps c attempts notes) (hstage : c.stage = .resting time)
    (hdue : time ≤ now) : Lawful o (steps + 1) (c.wake now).1 (attempts ++ []) (notes ++ (c.wake now).2) := by
  have hstands := h.stands
  rw [Stands, hstage] at hstands
  obtain ⟨hnumber, hfailed, a, ha, htime⟩ := hstands
  have hretrying : c.stage.state = .retrying := by rw [hstage]; rfl
  obtain ⟨hlifecycle, htold⟩ := @wake_told c now (h.lifecycle_state.trans hretrying)
  have hfst := wake_fst c now
  have hstage' : (c.wake now).1.stage = .offered := by rw [hfst]
  have hattempt : (c.wake now).1.attempt = c.attempt + 1 := by rw [hfst]
  have hsince : (c.wake now).1.attemptSince = now := by rw [hfst]
  refine h.tells (c.attempt + 1) none (.wakes time hstage hdue) hlifecycle ?_ (by rw [hretrying]; decide) ?_
    (by rw [hstage]; rfl) (fun b hb => by cases hb) (fun b hb => by cases hb) ?_ (hattempt ▸ h.attempt_lt hstage)
  · rw [hstage']
    exact htold
  · rw [hstage']
    rfl
  · unfold Stands
    rw [hstage', Option.toList_none, List.append_nil]
    refine ⟨by rw [hattempt, hnumber], hfailed, fun b hb => ?_⟩
    obtain rfl := Option.mem_unique hb ha
    rw [hsince, ← htime]
    exact hdue

theorem Lawful.giveUp {time : Nat} (h : Lawful o steps c attempts notes) (hstage : c.stage = .resting time) :
    Lawful o (steps + 1) (c.cancel now).1 (attempts ++ []) (notes ++ (c.cancel now).2) := by
  have hstands := h.stands
  rw [Stands, hstage] at hstands
  obtain ⟨hnumber, hfailed, a, ha, -⟩ := hstands
  have hretrying : c.stage.state = .retrying := by rw [hstage]; rfl
  have hgoing : c.lifecycle.state.isTerminal = false := by
    rw [h.lifecycle_state, hretrying]
    rfl
  obtain ⟨hlifecycle, htold⟩ := @cancel_told c now hgoing
  have hfst := cancel_fst c now
  have hstage' : (c.cancel now).1.stage = .ended (.cancelled c.attempt) := by rw [hfst]
  have hattempt : (c.cancel now).1.attempt = c.attempt := by rw [hfst]
  refine h.tells c.attempt none (.givesUp time hstage) hlifecycle ?_ (by rw [hretrying]; decide) ?_
    (by rw [hstage]; rfl) (fun b hb => by cases hb) (fun b hb => by cases hb) ?_ (hattempt ▸ h.within)
  · rw [hstage']
    exact htold
  · rw [hstage']
    rfl
  · unfold Stands
    rw [hstage', Option.toList_none, List.append_nil]
    refine ⟨by rw [hattempt, hnumber], hnumber, fun b hb => hfailed b (List.dropLast_subset attempts hb), a, ha,
      .inr ⟨hfailed a (List.mem_of_getLast? ha), by rw [hnumber]⟩⟩

end Step

/-! ## The whole course -/

theorem lawful_start (o : Options) (since : Nat) (p : Provenance) {chunk : Chunk}
    (h : chunk.isBlank = false) :
    Lawful o 0 (start since p chunk).1 [] (start since p chunk).2 := by
  have hpos := maxAttempts_pos o
  rw [start_nonblank h]
  refine ⟨rfl, .nil, ⟨rfl, fun a ha => ?_, fun a ha => ?_⟩, fun n hn => ?_, rfl, .singleton _, rfl, rfl, rfl,
    hpos, ?_, goesOn_of_stage o⟩
  · cases ha
  · cases ha
  · cases hn
  · simp only [stepsLeft, ChunkStage.stepsLeft]
    omega

/-- The law of retries.  Whatever the pool answers and whenever the request is to stop, the attempts at a chunk
that is not blank are numbered from 1, and only the last of them can have decided: it succeeded, was
cancelled, or failed as the last one that may be made.  Between two attempts there is the delay of the first.
Every state that is to be entered can be entered, and the states that are told lead from the submission
to the end of the chunk, which is reached after a bounded number of steps. -/
theorem lawful {o : Options} {since steps : Nat} {p : Provenance} {chunk : Chunk} {c : ChunkRun}
    {attempts : List Attempt} {notes : List Note} (h : chunk.isBlank = false)
    (course : Course o since p chunk steps c attempts notes) : Lawful o steps c attempts notes := by
  induction course with
  | start => exact lawful_start o since p h
  | @step steps c c' attempts notes more now input course taken ih =>
    unfold ended?
    cases step_cases taken with
    | accepted hstage =>
      rw [hstage, List.append_nil]
      exact (List.append_nil attempts).symm ▸ ih.accept hstage
    | ends x hstage houtcome =>
      rw [houtcome]
      exact ih.conclude hstage houtcome
    | wakes time hstage hdue =>
      exact ih.wake hstage hdue
    | givesUp time hstage =>
      rw [hstage]
      exact ih.giveUp hstage

/-- A chunk that may be tried twice is abandoned after a crash and a timeout, with the delay of the first between
them. -/
theorem lawful_two_failures :
    ∃ c attempts notes, ({ text := "x" } : Chunk).isBlank = false ∧
      Course { maxRetries := 1 } 0 {} { text := "x" } 5 c attempts notes ∧
      attempts.map Attempt.outcome = [.crashed "lost", .timedOut (.ofMillis 100)] ∧
      Lawful { maxRetries := 1 } 5 c attempts notes := by
  have hblank : ({ text := "x" } : Chunk).isBlank = false := by decide
  have hstart : Course { maxRetries := 1 } 0 {} { text := "x" } 0 _ _ _ := .start
  have hfirst := Course.step 100 (.outcome (.crashed "lost")) (.step 3 .accepted hstart rfl) rfl
  have hcourse := Course.step 450 (.outcome (.timedOut (.ofMillis 100)))
    (.step 350 .accepted (.step 350 .rested hfirst rfl) rfl) rfl
  exact ⟨_, _, _, hblank, hcourse, rfl, lawful hblank hcourse⟩

end ChunkRun

end Pseudoscribe
