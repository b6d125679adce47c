import Pseudoscribe.Proofs.Tracker.Lifecycle

/-!
# What a poller sees of a request

Someone asks again and again for a request in the register.  The request does not go back, its result and its error
are those that its state calls for, and no more chunks are done than there are.  Each of these can fail only because it
was set so: the state by a step that sets states, the progress by one that sets the progress.
-/

namespace Pseudoscribe

namespace TrackedRequest

/-- The result and the error are those that the state calls for. -/
def Coherent (t : TrackedRequest) : Prop :=
  match t.state with
  | .pending | .running => t.result = none ∧ t.error = none
  | .completed => (∃ a, t.result = some a ∧ a.cancelled = false) ∧ t.error = none
  | .cancelled => (∃ a, t.result = some a ∧ a.cancelled = true) ∧ t.error = none
  | .failed => t.result = none ∧ ∃ message, t.error = some message

/-- A request gets another state by a step that sets it, or because it ends. -/
theorem state_changedBy (t : TrackedRequest) (x : RegisterStep) : (t.changedBy x).state = t.state ∨
    (∃ now id, x = .setState now id (t.changedBy x).state) ∨ (t.changedBy x).state.isFinished = true := by
  cases hended : t.state.isFinished with
  | true =>
    left
    rw [changedBy_of_finished hended]
  | false =>
    cases x with
    | setState now id state => simp [changedBy, hended]
    | complete now id a =>
      right; right
      simp only [changedBy, hended, Bool.false_eq_true, if_false]
      cases a.cancelled <;> rfl
    | fail =>
      right; right
      simp only [changedBy, hended, Bool.false_eq_true, if_false]
      rfl
    | insert | setProgress | cancel | cleanup => simp [changedBy, hended]

/-- A request that has ended changes by a step only that sets its progress. -/
theorem changedBy_eq_of_finished {t : TrackedRequest} (h : t.state.isFinished = true) {x : RegisterStep}
    (hx : ∀ id completed total, x ≠ .setProgress id completed total) : t.changedBy x = t := by
  cases x <;> simp_all [changedBy]

/-- The number of chunks that are done is changed by a step only that sets the progress. -/
theorem progress_changedBy (t : TrackedRequest) (x : RegisterStep) :
    (∃ id, x = .setProgress id (t.changedBy x).completedChunks (t.changedBy x).totalChunks) ∨
      ((t.changedBy x).completedChunks = t.completedChunks ∧ (t.changedBy x).totalChunks = t.totalChunks) := by
  cases x with
  | setProgress id completed total => exact .inl ⟨id, rfl⟩
  | insert | cleanup => exact .inr ⟨rfl, rfl⟩
  | setState | complete | fail | cancel =>
    right
    simp only [changedBy]
    split <;> exact ⟨rfl, rfl⟩

/-- A request that is under way and coherent stays coherent, unless its state is set to one in which it has ended. -/
theorem Coherent.changedBy {t : TrackedRequest} (h : t.Coherent) (hopen : t.state.isFinished = false)
    (x : RegisterStep) : (t.changedBy x).Coherent ∨ ((t.changedBy x).state.isFinished = true ∧
      (t.changedBy x).result = none ∧ (t.changedBy x).error = none ∧
      ∃ now id, x = .setState now id (t.changedBy x).state) := by
  have hnothing : t.result = none ∧ t.error = none := by
    unfold Coherent at h
    cases hstate : t.state <;> simp_all [RequestState.isFinished]
  cases x with
  | setState now id state =>
    simp only [TrackedRequest.changedBy, hopen]
    cases hended : state.isFinished with
    | true => exact .inr ⟨hended, hnothing.1, hnothing.2, now, id, rfl⟩
    | false =>
      left
      cases state <;> first | exact hnothing | cases hended
  | complete now id a =>
    left
    simp only [TrackedRequest.changedBy, hopen, Coherent]
    cases hcancelled : a.cancelled <;> simp [hcancelled]
  | fail now id message =>
    left
    simp [TrackedRequest.changedBy, hopen, Coherent]
  | cancel id =>
    left
    simpa [TrackedRequest.changedBy, hopen, Coherent] using h
  | insert | setProgress | cleanup => exact .inl h

end TrackedRequest

namespace Register

open TrackedRequest

/-- The result and the error of a request are those that its state calls for, or it has neither and its state was set
to one in which it has ended. -/
theorem coherent_or_set {steps : List RegisterStep} {id : RequestId} {t : TrackedRequest}
    (h : (after {} steps).find? id = some t) : t.Coherent ∨ (t.state.isFinished = true ∧ t.result = none ∧
      t.error = none ∧ HasTaken steps id fun _ x => ∃ now, x = .setState now id t.state) := by
  induction steps using List.reverseRecOn generalizing t with
  | nil => cases h
  | append_singleton xs x ih =>
    rw [hasTaken_concat, h, Option.isSome_some]
    rcases known_before_or_new h with ⟨s, hs, rfl⟩ | ⟨-, language, now, -, rfl⟩
    · rw [hs]
      by_cases hid : x.id? = some id
      · rw [if_pos hid]
        cases hended : s.state.isFinished with
        | true =>
          rw [changedBy_of_finished hended x]
          exact (ih hs).imp_right fun ⟨h₁, h₂, h₃, h₄⟩ => ⟨h₁, h₂, h₃, rfl, .inl h₄⟩
        | false =>
          have hcoherent : s.Coherent := (ih hs).resolve_right (by simp [hended])
          rcases hcoherent.changedBy hended x with hc | ⟨h₁, h₂, h₃, now, i, hx⟩
          · exact .inl hc
          · obtain rfl : i = id := by rw [hx] at hid; exact Option.some.inj hid
            exact .inr ⟨h₁, h₂, h₃, rfl, .inr ⟨rfl, now, hx⟩⟩
      · rw [if_neg hid]
        exact (ih hs).imp_right fun ⟨h₁, h₂, h₃, h₄⟩ => ⟨h₁, h₂, h₃, rfl, .inl h₄⟩
    · exact .inl ⟨rfl, rfl⟩

/-- No more chunks are done than there are, unless the progress was set so. -/
theorem progress_or_set {steps : List RegisterStep} {id : RequestId} {t : TrackedRequest}
    (h : (after {} steps).find? id = some t) : t.completedChunks ≤ t.totalChunks ∨
      HasTaken steps id fun _ x => x = .setProgress id t.completedChunks t.totalChunks := by
  induction steps using List.reverseRecOn generalizing t with
  | nil => cases h
  | append_singleton xs x ih =>
    rw [hasTaken_concat, h, Option.isSome_some]
    rcases known_before_or_new h with ⟨s, hs, rfl⟩ | ⟨-, language, now, -, rfl⟩
    · rw [hs]
      by_cases hid : x.id? = some id
      · rw [if_pos hid]
        rcases s.progress_changedBy x with ⟨i, hx⟩ | ⟨hcompleted, htotal⟩
        · obtain rfl : i = id := by rw [hx] at hid; exact Option.some.inj hid
          exact .inr ⟨rfl, .inr ⟨rfl, hx⟩⟩
        · rw [hcompleted, htotal]
          exact (ih hs).imp_right fun htaken => ⟨rfl, .inl htaken⟩
      · rw [if_neg hid]
        exact (ih hs).imp_right fun htaken => ⟨rfl, .inl htaken⟩
    · exact .inl (Nat.le_refl 0)

/-- Two looks at a request, the second after some more steps in which it was known all the time. -/
structure Polled (steps more : List RegisterStep) (id : RequestId) (t t' : TrackedRequest) : Prop where
  /-- it goes back to the beginning only if its state was set so in between -/
  forward : t.state = .running → t'.state = .pending → ∃ now, .setState now id .pending ∈ more
  /-- once it has ended only its progress changes -/
  ended : t.state.isFinished = true →
    t' = { t with completedChunks := t'.completedChunks, totalChunks := t'.totalChunks }
  /-- and that only if it is set -/
  still : t.state.isFinished = true → (∀ completed total, .setProgress id completed total ∉ more) → t' = t
  /-- the result and the error are those that the state calls for, or there is neither and the state was set -/
  coherent : t'.Coherent ∨ (t'.state.isFinished = true ∧ t'.result = none ∧ t'.error = none ∧
    HasTaken (steps ++ more) id fun _ x => ∃ now, x = .setState now id t'.state)
  /-- no more chunks are done than there are, unless the progress was set so -/
  progress : t'.completedChunks ≤ t'.totalChunks ∨
    HasTaken (steps ++ more) id fun _ x => x = .setProgress id t'.completedChunks t'.totalChunks

/-- Whatever is done with the register, a poller sees a request that goes forward and is coherent, but for what was set
otherwise. -/
theorem polled {steps more : List RegisterStep} {id : RequestId} {t t' : TrackedRequest}
    (ht : (after {} steps).find? id = some t) (ht' : (after {} (steps ++ more)).find? id = some t')
    (hstays : (after {} steps).Stays id more) : Polled steps more id t t' := by
  have hdistinct := distinct_empty.after steps
  have hcoherent := coherent_or_set ht'
  have hprogress := progress_or_set ht'
  rw [after_append] at ht'
  have hfirst {s : TrackedRequest} (hs : (after {} steps).find? id = some s) : t = s :=
    Option.some.inj (ht.symm.trans hs)
  refine ⟨fun hrunning hpending => ?_, fun hended => hstays.of_finished hdistinct ht hended ht', fun hended hnone => ?_,
    hcoherent, hprogress⟩
  · by_contra hset
    simp only [not_exists] at hset
    refine hstays.keeps hdistinct (p := fun s => s.state ≠ .pending) ?_ ?_ t' ht' hpending
    · intro s hs
      rw [← hfirst hs, hrunning]
      exact RequestState.noConfusion
    · intro x hx hid s hs hback
      rcases s.state_changedBy x with hsame | ⟨now, i, hstate⟩ | hended
      · exact hs (hsame.symm.trans hback)
      · rw [hback] at hstate
        rw [hstate] at hid hx
        obtain rfl := Option.some.inj hid
        exact hset now hx
      · rw [hback] at hended
        cases hended
  · refine hstays.keeps hdistinct (p := (· = t)) (fun s hs => (hfirst hs).symm) ?_ t' ht'
    rintro x hx hid s rfl
    refine changedBy_eq_of_finished hended ?_
    rintro i completed total rfl
    obtain rfl := Option.some.inj hid
    exact hnone completed total hx

/-- A request is begun, one of its two chunks is done, and then it ends with its result. -/
theorem polled_to_its_end :
    let begun : List RegisterStep := [.insert ⟨"a"⟩ "python" 0, .setState 1 ⟨"a"⟩ .running, .setProgress ⟨"a"⟩ 1 2]
    let ends : List RegisterStep := [.setProgress ⟨"a"⟩ 2 2, .complete 2 ⟨"a"⟩ { id := ⟨"a"⟩ }]
    ∃ t t', (after {} begun).find? ⟨"a"⟩ = some t ∧ (after {} (begun ++ ends)).find? ⟨"a"⟩ = some t' ∧
      (after {} begun).Stays ⟨"a"⟩ ends ∧ t'.state = .completed ∧ Polled begun ends ⟨"a"⟩ t t' := by
  intro begun ends
  have hstays : (after {} begun).Stays ⟨"a"⟩ ends := by decide
  exact ⟨_, _, rfl, rfl, hstays, rfl, polled rfl rfl hstays⟩

/-- Steps that come late or out of order. -/
def outOfOrder : List RegisterStep :=
  [.insert ⟨"a"⟩ "python" 0, .setState 1 ⟨"a"⟩ .running, .setState 2 ⟨"a"⟩ .pending, .setProgress ⟨"a"⟩ 3 2,
    .setState 3 ⟨"a"⟩ .completed, .setProgress ⟨"a"⟩ 1 2]

/-- What a poller sees of the request after the first of these steps. -/
def seenOutOfOrder (count : Nat) : Option TrackedRequest := (after {} (outOfOrder.take count)).find? ⟨"a"⟩

/-- With steps like that a request goes back to the beginning, has more chunks done than there are, is completed without
a result, and changes after it has ended. -/
theorem incoherent_outOfOrder :
    (seenOutOfOrder 2).any (·.state = .running) = true ∧ (seenOutOfOrder 3).any (·.state = .pending) = true ∧
      (seenOutOfOrder 4).any (fun t => t.totalChunks < t.completedChunks) = true ∧
      (seenOutOfOrder 5).any (fun t => t.state = .completed ∧ t.result = none) = true ∧
      seenOutOfOrder 6 ≠ seenOutOfOrder 5 := by
  decide

end Register

end Pseudoscribe
