import Pseudoscribe.Run.Chunk

/-!
# The steps of a chunk

What the end of an attempt means for a chunk depends on the outcome and on the number of the attempt alone: the
chunk ends, or it rests and is tried again.  Which states the chunk goes through on the way follows from
that, and all of them may follow one another.
-/

namespace Pseudoscribe

/-! ## Verdicts -/

namespace TaskOutcome

/-- Why an attempt with this outcome is given up or tried again. -/
def reason (x : TaskOutcome) : String := x.failureReason?.getD "unknown failure"

/-- The end of a chunk after a failure of its last attempt. -/
def exhausted? (o : Options) (attempt : Nat) (x : TaskOutcome) : Option ChunkEnd :=
  if o.maxAttempts ≤ attempt then some (.abandoned x.reason attempt) else none

/-- What the outcome of an attempt makes of a chunk; nothing if it is to be tried again. -/
def verdict? (o : Options) (attempt : Nat) (x : TaskOutcome) : Option ChunkEnd :=
  match x with
  | .cancelled => some (.cancelled attempt)
  | .completed a => if a.success then some (.converted a attempt) else exhausted? o attempt x
  | .crashed _ | .timedOut _ => exhausted? o attempt x

/-- The delay after an attempt with this outcome. -/
def delayMs (o : Options) (attempt : Nat) (x : TaskOutcome) : Nat :=
  Retry.delayMs o.retryBackoffMs attempt (x.state == .timedOut)

/-- Where a chunk stands after an attempt. -/
def stageAfter (o : Options) (now attempt : Nat) (x : TaskOutcome) : ChunkStage :=
  match x.verdict? o attempt with
  | some final => .ended final
  | none => .resting (now + x.delayMs o attempt)

/-- The states that an attempt leads a task through that was submitted. -/
def path (o : Options) (attempt : Nat) (x : TaskOutcome) : List TaskState :=
  match x.verdict? o attempt with
  | some (.cancelled _) => [.cancelled]
  | some (.converted ..) => [.running, .succeeded]
  | some (.abandoned ..) => [.running, x.state, .abandoned]
  | none => [.running, x.state, .retrying]

/-- The attempt has failed or taken too long. -/
def Fails (x : TaskOutcome) : Prop := x.state = .failed ∨ x.state = .timedOut

theorem state_completed {a : Answer} (h : a.success = true) : (completed a).state = .succeeded := if_pos h

theorem cancelled_or_succeeds_or_fails (x : TaskOutcome) :
    x = .cancelled ∨ (∃ a, x = .completed a ∧ a.success = true) ∨ x.Fails := by
  cases x with
  | cancelled => exact .inl rfl
  | crashed reason => exact .inr (.inr (.inl rfl))
  | timedOut after => exact .inr (.inr (.inr rfl))
  | completed a =>
    by_cases h : a.success = true
    · exact .inr (.inl ⟨a, rfl, h⟩)
    · exact .inr (.inr (.inl (if_neg h)))

theorem verdict_completed {o : Options} {attempt : Nat} {a : Answer} (h : a.success = true) :
    (completed a).verdict? o attempt = some (.converted a attempt) := if_pos h

theorem verdict_of_fails {o : Options} {attempt : Nat} {x : TaskOutcome} (h : x.Fails) :
    x.verdict? o attempt = x.exhausted? o attempt := by
  cases x with
  | cancelled => rcases h with h | h <;> cases h
  | crashed reason => rfl
  | timedOut after => rfl
  | completed a =>
    refine if_neg fun hsuccess => ?_
    rw [Fails, state_completed hsuccess] at h
    rcases h with h | h <;> cases h

theorem fails_of_verdict {o : Options} {attempt : Nat} {x : TaskOutcome} (h : x.verdict? o attempt = none) :
    x.Fails := by
  obtain rfl | ⟨a, rfl, ha⟩ | hfails := x.cancelled_or_succeeds_or_fails
  · cases h
  · rw [verdict_completed ha] at h
    cases h
  · exact hfails

theorem lt_maxAttempts {o : Options} {attempt : Nat} {x : TaskOutcome} (h : x.verdict? o attempt = none) :
    attempt < o.maxAttempts := by
  rw [verdict_of_fails (fails_of_verdict h), exhausted?] at h
  by_cases hle : o.maxAttempts ≤ attempt
  · rw [if_pos hle] at h
    cases h
  · exact Nat.lt_of_not_le hle

/-- A verdict names the attempt that it was passed on. -/
theorem attempts_of_verdict {o : Options} {attempt : Nat} {x : TaskOutcome} {final : ChunkEnd}
    (h : x.verdict? o attempt = some final) : final.attempts = attempt := by
  obtain rfl | ⟨a, rfl, ha⟩ | hfails := x.cancelled_or_succeeds_or_fails
  · cases h
    rfl
  · rw [verdict_completed ha] at h
    cases h
    rfl
  · rw [verdict_of_fails hfails, exhausted?] at h
    split at h
    · cases h
      rfl
    · cases h

end TaskOutcome

namespace ChunkStatus

/-- The state of a task that ended like this. -/
def state : ChunkStatus → TaskState
  | succeeded => .succeeded
  | abandoned => .abandoned
  | cancelled => .cancelled

end ChunkStatus

namespace ChunkStage

/-- The state of the task of a chunk that stands here. -/
def state : ChunkStage → TaskState
  | offered | underWay => .submitted
  | resting _ => .retrying
  | ended final => final.status.state

/-- A bound for the steps that a chunk can still take that may be tried so often again. -/
def stepsLeft (tries : Nat) : ChunkStage → Nat
  | offered => 3 * tries + 2
  | underWay => 3 * tries + 1
  | resting _ => 3 * tries
  | ended _ => 0

end ChunkStage

theorem TaskOutcome.stepsLeft_stageAfter (o : Options) (now attempt tries : Nat) (x : TaskOutcome) :
    (x.stageAfter o now attempt).stepsLeft tries ≤ 3 * tries := by
  unfold stageAfter
  cases x.verdict? o attempt with
  | none => exact Nat.le_refl _
  | some final => exact Nat.zero_le _

namespace ChunkInput

/-- The outcome with which the input ends the attempt of a chunk that stands here.  A chunk that rests has no
attempt to end. -/
def outcome? (stage : ChunkStage) : ChunkInput → Option TaskOutcome
  | .outcome x => some x
  | .refused => some ChunkRun.refusal
  | .withdrawn =>
    match stage with
    | .resting _ => none
    | _ => some .cancelled
  | .accepted | .rested => none

end ChunkInput

namespace ChunkRun

/-! ## One step -/

/-- All that a step can do. -/
inductive Step (o : Options) (now : Nat) (c : ChunkRun) : ChunkInput → ChunkRun → List Note → Prop
  | accepted (stage : c.stage = .offered) : Step o now c .accepted { c with stage := .underWay } []
  | ends {input : ChunkInput} (x : TaskOutcome) (stage : c.stage = .offered ∨ c.stage = .underWay)
    (outcome : input.outcome? c.stage = some x) :
    Step o now c input (c.conclude now o x).1 (c.conclude now o x).2
  | wakes (time : Nat) (stage : c.stage = .resting time) (due : time ≤ now) :
    Step o now c .rested (c.wake now).1 (c.wake now).2
  | givesUp (time : Nat) (stage : c.stage = .resting time) :
    Step o now c .withdrawn (c.cancel now).1 (c.cancel now).2

theorem step_cases {o : Options} {now : Nat} {c c' : ChunkRun} {input : ChunkInput} {notes : List Note}
    (h : c.step? now o input = some (c', notes)) : Step o now c input c' notes := by
  have htaken {r : ChunkRun × List Note} (h : some r = some (c', notes)) : r.1 = c' ∧ r.2 = notes :=
    Prod.ext_iff.1 (Option.some.inj h)
  cases input with
  | accepted =>
    rw [step?] at h
    split at h
    · next hstage =>
      obtain ⟨rfl, rfl⟩ := htaken h
      exact .accepted hstage
    · cases h
  | refused =>
    rw [step?] at h
    split at h
    · next hstage =>
      obtain ⟨rfl, rfl⟩ := htaken h
      exact .ends refusal (.inl hstage) rfl
    · cases h
  | outcome x =>
    rw [step?] at h
    split at h
    · next hstage =>
      obtain ⟨rfl, rfl⟩ := htaken h
      exact .ends x (.inr hstage) rfl
    · cases h
  | rested =>
    rw [step?] at h
    split at h
    · next time hstage =>
      split at h
      · next hdue =>
        obtain ⟨rfl, rfl⟩ := htaken h
        exact .wakes time hstage hdue
      · cases h
    · cases h
  | withdrawn =>
    rw [step?] at h
    cases hstage : c.stage with
    | offered =>
      rw [hstage] at h
      obtain ⟨rfl, rfl⟩ := htaken h
      exact .ends .cancelled (.inl hstage) (by rw [hstage]; rfl)
    | underWay =>
      rw [hstage] at h
      obtain ⟨rfl, rfl⟩ := htaken h
      exact .ends .cancelled (.inr hstage) (by rw [hstage]; rfl)
    | resting time =>
      rw [hstage] at h
      obtain ⟨rfl, rfl⟩ := htaken h
      exact .givesUp time hstage
    | ended final =>
      rw [hstage] at h
      cases h

/-! ## What a step leaves alone -/

/-- Going through states changes the lifecycle only. -/
theorem enter_fst (c : ChunkRun) (states : List TaskState) :
    (c.enter states).1 = { c with lifecycle := (c.enter states).1.lifecycle } := by
  induction states generalizing c with
  | nil => rfl
  | cons s states ih =>
    rw [enter]
    split
    · exact ih c
    · next lifecycle _ => exact ih { c with lifecycle }

theorem fail_fst (c : ChunkRun) (now : Nat) (o : Options) (x : TaskOutcome) :
    (c.fail now o x).1 = { c with
      lifecycle := (c.fail now o x).1.lifecycle
      stage := match x.exhausted? o c.attempt with
        | some final => .ended final
        | none => .resting (now + x.delayMs o c.attempt) } := by
  unfold fail TaskOutcome.exhausted?
  split
  · rw [abandon]
    dsimp only [finish]
    rw [enter_fst]
    rfl
  · rw [rest]
    dsimp only
    rw [enter_fst]
    rfl

theorem conclude_completed {c : ChunkRun} {now : Nat} {o : Options} {a : Answer} (h : a.success = true) :
    c.conclude now o (.completed a) =
      (((c.enter [.running, .succeeded]).1.finish now
          (.converted a (c.enter [.running, .succeeded]).1.attempt)).1,
        c.attemptFigure now .succeeded :: (c.enter [.running, .succeeded]).2 ++
          ((c.enter [.running, .succeeded]).1.finish now
            (.converted a (c.enter [.running, .succeeded]).1.attempt)).2) := by
  unfold conclude
  dsimp only
  rw [TaskOutcome.state_completed h, if_pos h]

theorem conclude_of_fails {c : ChunkRun} {now : Nat} {o : Options} {x : TaskOutcome} (h : x.Fails) :
    c.conclude now o x =
      (((c.enter [.running, x.state]).1.fail now o x).1,
        c.attemptFigure now x.state :: (c.enter [.running, x.state]).2 ++
          ((c.enter [.running, x.state]).1.fail now o x).2) := by
  cases x with
  | cancelled => rcases h with h | h <;> cases h
  | crashed reason => rfl
  | timedOut after => rfl
  | completed a =>
    unfold conclude
    dsimp only
    rw [if_neg]
    intro hsuccess
    rw [TaskOutcome.Fails, TaskOutcome.state_completed hsuccess] at h
    rcases h with h | h <;> cases h

/-- The end of an attempt changes the lifecycle and the stage only, and the stage is that of the verdict. -/
theorem conclude_fst (c : ChunkRun) (now : Nat) (o : Options) (x : TaskOutcome) :
    (c.conclude now o x).1 = { c with
      lifecycle := (c.conclude now o x).1.lifecycle
      stage := x.stageAfter o now c.attempt } := by
  obtain rfl | ⟨a, rfl, ha⟩ | hfails := x.cancelled_or_succeeds_or_fails
  · unfold conclude
    dsimp only [cancel, finish]
    rw [enter_fst]
    rfl
  · rw [conclude_completed ha, TaskOutcome.stageAfter, TaskOutcome.verdict_completed ha]
    dsimp only [finish]
    rw [enter_fst]
  · rw [conclude_of_fails hfails, TaskOutcome.stageAfter, TaskOutcome.verdict_of_fails hfails]
    dsimp only
    rw [fail_fst, enter_fst]

theorem wake_fst (c : ChunkRun) (now : Nat) :
    (c.wake now).1 = { c with
      attempt := c.attempt + 1
      attemptSince := now
      lifecycle := (c.wake now).1.lifecycle
      stage := .offered } := enter_fst _ _

theorem cancel_fst (c : ChunkRun) (now : Nat) :
    (c.cancel now).1 = { c with
      lifecycle := (c.cancel now).1.lifecycle
      stage := .ended (.cancelled c.attempt) } := by
  rw [cancel]
  dsimp only [finish]
  rw [enter_fst]

/-- A step never changes which chunk it is about. -/
theorem chunk_of_step {o : Options} {now : Nat} {c c' : ChunkRun} {input : ChunkInput} {notes : List Note}
    (h : Step o now c input c' notes) : c'.chunk = c.chunk := by
  cases h with
  | accepted => rfl
  | ends x => rw [conclude_fst]
  | wakes => rw [wake_fst]
  | givesUp => rw [cancel_fst]

/-! ## How many steps are left -/

theorem maxAttempts_pos (o : Options) : 0 < o.maxAttempts := by
  have h : Nat.pow 2 32 = 4294967296 := by decide
  unfold Options.maxAttempts
  omega

/-- A bound for the steps that a chunk can still take. -/
def stepsLeft (o : Options) (c : ChunkRun) : Nat := c.stage.stepsLeft (o.maxAttempts - c.attempt)

/-- A chunk that rests may be tried again. -/
def RestsEarly (o : Options) (c : ChunkRun) : Prop :=
  ∀ time, c.stage = .resting time → c.attempt < o.maxAttempts

theorem restsEarly_of_step {o : Options} {now : Nat} {c c' : ChunkRun} {input : ChunkInput}
    {notes : List Note} (h : Step o now c input c' notes) : c'.RestsEarly o := by
  intro time hrests
  cases h with
  | accepted => cases hrests
  | ends x =>
    rw [conclude_fst] at hrests ⊢
    dsimp only [TaskOutcome.stageAfter] at hrests ⊢
    cases hverdict : x.verdict? o c.attempt with
    | none => exact TaskOutcome.lt_maxAttempts hverdict
    | some final =>
      rw [hverdict] at hrests
      cases hrests
  | wakes =>
    rw [wake_fst] at hrests
    cases hrests
  | givesUp =>
    rw [cancel_fst] at hrests
    cases hrests

theorem stepsLeft_lt_of_step {o : Options} {now : Nat} {c c' : ChunkRun} {input : ChunkInput}
    {notes : List Note} (hc : c.RestsEarly o) (h : Step o now c input c' notes) :
    c'.stepsLeft o < c.stepsLeft o := by
  unfold stepsLeft
  cases h with
  | accepted hstage =>
    rw [hstage]
    exact Nat.lt_succ_self _
  | ends x hstage =>
    have hbehind := x.stepsLeft_stageAfter o now c.attempt (o.maxAttempts - c.attempt)
    have hbefore : 3 * (o.maxAttempts - c.attempt) < c.stage.stepsLeft (o.maxAttempts - c.attempt) := by
      rcases hstage with hstage | hstage <;> rw [hstage] <;> dsimp only [ChunkStage.stepsLeft] <;> omega
    rw [conclude_fst]
    exact Nat.lt_of_le_of_lt hbehind hbefore
  | wakes time hstage =>
    have hmore := hc time hstage
    rw [wake_fst, hstage]
    dsimp only [ChunkStage.stepsLeft]
    omega
  | givesUp time hstage =>
    have hmore := hc time hstage
    rw [cancel_fst, hstage]
    dsimp only [ChunkStage.stepsLeft]
    omega

/-! ## The beginning -/

theorem chunk_start (now : Nat) (p : Provenance) (chunk : Chunk) : (start now p chunk).1.chunk = chunk := by
  unfold start
  split <;> rfl

theorem restsEarly_start {o : Options} (now : Nat) (p : Provenance) (chunk : Chunk) :
    (start now p chunk).1.RestsEarly o := by
  intro time hrests
  unfold start at hrests
  split at hrests <;> cases hrests

theorem stepsLeft_start_lt (o : Options) (now : Nat) (p : Provenance) (chunk : Chunk) :
    (start now p chunk).1.stepsLeft o < 3 * o.maxAttempts := by
  have hpos := maxAttempts_pos o
  unfold start
  split
  · exact Nat.mul_pos (Nat.succ_pos 2) hpos
  · simp only [stepsLeft, ChunkStage.stepsLeft]
    omega

theorem start_nonblank {now : Nat} {p : Provenance} {chunk : Chunk} (h : chunk.isBlank = false) :
    start now p chunk = ({ chunk, since := now }, []) := by
  rw [start, h]
  rfl

end ChunkRun

end Pseudoscribe
