import Mathlib.Data.List.Infix
import Pseudoscribe.Proofs.Tracker.Steps

/-!
# The life of a request in the register

However steps follow one another, a request in the register has a finish time exactly if it has ended, and then it
stays as it ended until it is forgotten.  It was asked to stop exactly if it was asked while it was under way.  A step
that is refused changes nothing, and one about a request changes no other.
-/

namespace Pseudoscribe.Register

/-! ## Courses of steps -/

/-- The register after some steps. -/
def after (r : Register) (steps : List RegisterStep) : Register := steps.foldl (fun r x => (r.take x).2) r

@[simp] theorem after_nil (r : Register) : r.after [] = r := rfl

theorem after_append (r : Register) (xs ys : List RegisterStep) : r.after (xs ++ ys) = (r.after xs).after ys :=
  List.foldl_append

theorem after_concat (r : Register) (xs : List RegisterStep) (x : RegisterStep) :
    r.after (xs ++ [x]) = ((r.after xs).take x).2 := after_append r xs [x]

theorem Distinct.after {r : Register} (h : r.Distinct) (steps : List RegisterStep) : (r.after steps).Distinct := by
  induction steps generalizing r with
  | nil => exact h
  | cons x xs ih => exact ih (h.take x)

/-- No request is known in the beginning. -/
theorem distinct_empty : ({} : Register).Distinct := List.nodup_nil

theorem find?_after_concat {r : Register} (h : r.Distinct) (xs : List RegisterStep) (x : RegisterStep)
    (id : RequestId) : (r.after (xs ++ [x])).find? id = x.effect id ((r.after xs).find? id) := by
  rw [after_concat, find?_take (h.after xs)]

/-- A request is known all the time while steps are taken. -/
def Stays (r : Register) (id : RequestId) (steps : List RegisterStep) : Prop :=
  ∀ made, made <+: steps → ((r.after made).find? id).isSome = true

instance (r : Register) (id : RequestId) (steps : List RegisterStep) : Decidable (r.Stays id steps) :=
  decidable_of_iff (∀ made ∈ steps.inits, ((r.after made).find? id).isSome = true) (by simp [Stays])

theorem stays_nil {r : Register} {id : RequestId} : r.Stays id [] ↔ (r.find? id).isSome = true := by
  simp [Stays]

theorem stays_concat {r : Register} {id : RequestId} {xs : List RegisterStep} {x : RegisterStep} :
    r.Stays id (xs ++ [x]) ↔ r.Stays id xs ∧ ((r.after (xs ++ [x])).find? id).isSome = true := by
  constructor
  · intro h
    exact ⟨fun made hmade => h made (hmade.trans (List.prefix_append xs [x])), h _ (List.prefix_refl _)⟩
  · rintro ⟨h, hlast⟩ made hmade
    rcases List.prefix_concat_iff.1 hmade with rfl | hmade
    · exact hlast
    · exact h made hmade

theorem Stays.known {r : Register} {id : RequestId} {steps : List RegisterStep} (h : r.Stays id steps) :
    ∃ t, (r.after steps).find? id = some t :=
  Option.isSome_iff_exists.1 (h steps (List.prefix_refl steps))

/-- What all steps about a request that stays keep, holds at their end. -/
theorem Stays.keeps {r : Register} {id : RequestId} {steps : List RegisterStep} (hdistinct : r.Distinct)
    (hstays : r.Stays id steps) {p : TrackedRequest → Prop} (hstart : ∀ t, r.find? id = some t → p t)
    (hkeep : ∀ x ∈ steps, x.id? = some id → ∀ t, p t → p (t.changedBy x)) :
    ∀ t, (r.after steps).find? id = some t → p t := by
  induction steps using List.reverseRecOn with
  | nil => exact hstart
  | append_singleton xs x ih =>
    intro t' ht'
    obtain ⟨hbefore, -⟩ := stays_concat.1 hstays
    obtain ⟨t, ht⟩ := hbefore.known
    have hp : p t := ih hbefore (fun y hy => hkeep y (List.mem_append_left _ hy)) t ht
    rw [find?_after_concat hdistinct, ht] at ht'
    rw [RegisterStep.effect_eq_some ht']
    split
    · next hid => exact hkeep x (by simp) hid t hp
    · exact hp

/-- A request that is known after one more step was known before it, or it is new. -/
theorem known_before_or_new {xs : List RegisterStep} {x : RegisterStep} {id : RequestId} {t' : TrackedRequest}
    (h : (after {} (xs ++ [x])).find? id = some t') :
    (∃ t, (after {} xs).find? id = some t ∧ t' = if x.id? = some id then t.changedBy x else t) ∨
      ((after {} xs).find? id = none ∧
        ∃ language now, x = .insert id language now ∧ t' = { id, language, createdAt := now }) := by
  rw [find?_after_concat distinct_empty] at h
  cases hknown : (after {} xs).find? id with
  | some t =>
    rw [hknown] at h
    exact .inl ⟨t, rfl, RegisterStep.effect_eq_some h⟩
  | none =>
    rw [hknown] at h
    exact .inr ⟨rfl, RegisterStep.effect_none_eq_some h⟩

/-- What holds of new requests and is kept by all steps holds of every request. -/
theorem forall_known {p : TrackedRequest → Prop} (hnew : ∀ id language now, p { id, language, createdAt := now })
    (hkeep : ∀ x t, p t → p (t.changedBy x)) {steps : List RegisterStep} :
    ∀ {id : RequestId} {t : TrackedRequest}, (after {} steps).find? id = some t → p t := by
  induction steps using List.reverseRecOn with
  | nil => nofun
  | append_singleton xs x ih =>
    intro id t' ht'
    rcases known_before_or_new ht' with ⟨t, ht, rfl⟩ | ⟨-, language, now, -, rfl⟩
    · split
      · exact hkeep x t (ih ht)
      · exact ih ht
    · exact hnew id language now

/-! ## What was done since a request was taken in -/

/-- Such a step was taken, in such a register, since the request of an identifier was last taken in. -/
def HasTaken (steps : List RegisterStep) (id : RequestId) (p : Register → RegisterStep → Prop) : Prop :=
  ∃ before x behind, steps = before ++ x :: behind ∧ p (after {} before) x ∧
    (after {} before).Stays id (x :: behind)

theorem hasTaken_concat {xs : List RegisterStep} {x : RegisterStep} {id : RequestId}
    {p : Register → RegisterStep → Prop} : HasTaken (xs ++ [x]) id p ↔
      ((after {} (xs ++ [x])).find? id).isSome = true ∧
        (HasTaken xs id p ∨ (((after {} xs).find? id).isSome = true ∧ p (after {} xs) x)) := by
  constructor
  · rintro ⟨before, y, behind, hsteps, hp, hstays⟩
    rcases List.eq_nil_or_concat behind with rfl | ⟨behind, z, rfl⟩
    · obtain ⟨rfl, heq⟩ := List.append_inj' hsteps rfl
      obtain rfl := List.singleton_inj.1 heq
      obtain ⟨hknown, hlast⟩ := stays_concat.1 (show Stays _ id ([] ++ [x]) from hstays)
      exact ⟨by rwa [after_append], .inr ⟨stays_nil.1 hknown, hp⟩⟩
    · rw [List.concat_eq_append] at hsteps hstays
      have hsplit : xs ++ [x] = (before ++ y :: behind) ++ [z] := by simp [hsteps]
      obtain ⟨rfl, heq⟩ := List.append_inj' hsplit rfl
      obtain rfl := List.singleton_inj.1 heq
      obtain ⟨hstays, hlast⟩ := stays_concat.1 (show Stays _ id ((y :: behind) ++ [x]) from hstays)
      refine ⟨?_, .inl ⟨before, y, behind, rfl, hp, hstays⟩⟩
      rwa [List.append_assoc, after_append]
  · rintro ⟨hlast, ⟨before, y, behind, rfl, hp, hstays⟩ | ⟨hknown, hp⟩⟩
    · refine ⟨before, y, behind ++ [x], by simp, hp, ?_⟩
      rw [← List.cons_append, stays_concat]
      refine ⟨hstays, ?_⟩
      rwa [List.append_assoc, after_append] at hlast
    · refine ⟨xs, x, [], rfl, hp, ?_⟩
      rw [← List.nil_append [x], stays_concat, stays_nil, List.nil_append]
      exact ⟨hknown, by rwa [after_append] at hlast⟩

theorem HasTaken.known {steps : List RegisterStep} {id : RequestId} {p : Register → RegisterStep → Prop}
    (h : HasTaken steps id p) : ((after {} steps).find? id).isSome = true := by
  obtain ⟨before, x, behind, rfl, -, hstays⟩ := h
  rw [after_append]
  exact hstays _ (List.prefix_refl _)

/-! ## The laws -/

/-- A request has a finish time exactly if it has ended. -/
theorem isSome_finishedAt {steps : List RegisterStep} {id : RequestId} {t : TrackedRequest}
    (h : (after {} steps).find? id = some t) : t.finishedAt.isSome = t.state.isFinished := by
  refine forall_known (p := fun t => t.finishedAt.isSome = t.state.isFinished) (fun _ _ _ => rfl) ?_ h
  intro x t ht
  cases x with
  | setState now id state =>
    simp only [TrackedRequest.changedBy]
    split
    · exact ht
    · next hopen => cases hstate : state.isFinished <;> simp_all
  | complete now id a =>
    simp only [TrackedRequest.changedBy]
    split
    · exact ht
    · cases a.cancelled <;> rfl
  | fail now id error =>
    simp only [TrackedRequest.changedBy]
    split
    · exact ht
    · rfl
  | cancel id =>
    simp only [TrackedRequest.changedBy]
    split <;> exact ht
  | insert | setProgress | cleanup => exact ht

/-- A request that has ended and stays keeps everything but its progress. -/
theorem Stays.of_finished {r : Register} {id : RequestId} {steps : List RegisterStep} (hdistinct : r.Distinct)
    (hstays : r.Stays id steps) {t t' : TrackedRequest} (ht : r.find? id = some t) (hended : t.state.isFinished = true)
    (ht' : (r.after steps).find? id = some t') :
    t' = { t with completedChunks := t'.completedChunks, totalChunks := t'.totalChunks } := by
  refine hstays.keeps hdistinct
    (p := fun t' => t' = { t with completedChunks := t'.completedChunks, totalChunks := t'.totalChunks })
    (fun s hs => ?_) (fun x _ _ s hs => ?_) t' ht'
  · obtain rfl := Option.some.inj (ht.symm.trans hs)
    rfl
  · have hfinished : s.state.isFinished = true := by rw [hs]; exact hended
    rw [TrackedRequest.changedBy_of_finished hfinished x, hs]

theorem cancelled_changedBy (t : TrackedRequest) (x : RegisterStep) : (t.changedBy x).cancelled = true ↔
    t.cancelled = true ∨ ((∃ id, x = .cancel id) ∧ t.state.isFinished = false) := by
  cases x with
  | cancel id => cases hended : t.state.isFinished <;> simp [TrackedRequest.changedBy, hended]
  | insert | setProgress | cleanup => simp [TrackedRequest.changedBy]
  | setState | complete | fail => cases hended : t.state.isFinished <;> simp [TrackedRequest.changedBy, hended]

/-- A request was asked to stop exactly if, since it was taken in, it was while it was under way. -/
theorem cancelled_iff {steps : List RegisterStep} {id : RequestId} {t : TrackedRequest}
    (h : (after {} steps).find? id = some t) : t.cancelled = true ↔
      HasTaken steps id fun r x => x = .cancel id ∧ (r.take x).1 = .wasUnderWay true := by
  induction steps using List.reverseRecOn generalizing t with
  | nil => cases h
  | append_singleton xs x ih =>
    rw [hasTaken_concat, h, Option.isSome_some]
    rcases known_before_or_new h with ⟨s, hs, rfl⟩ | ⟨hnone, language, now, rfl, rfl⟩
    · have hanswer : (((after {} xs).take (.cancel id)).1 = .wasUnderWay true) ↔ s.state.isFinished = false := by
        simp [take_cancel_fst, hs]
      rw [← ih hs, hs]
      by_cases hid : x.id? = some id
      · rw [if_pos hid, cancelled_changedBy]
        constructor
        · rintro (hs | ⟨⟨i, rfl⟩, hopen⟩)
          · exact ⟨rfl, .inl hs⟩
          · obtain rfl := Option.some.inj hid
            exact ⟨rfl, .inr ⟨rfl, rfl, hanswer.2 hopen⟩⟩
        · rintro ⟨-, hs | ⟨-, rfl, htaken⟩⟩
          · exact .inl hs
          · exact .inr ⟨⟨id, rfl⟩, hanswer.1 htaken⟩
      · rw [if_neg hid]
        constructor
        · exact fun hs => ⟨rfl, .inl hs⟩
        · rintro ⟨-, hs | ⟨-, rfl, -⟩⟩
          · exact hs
          · exact absurd rfl hid
    · constructor
      · nofun
      · rintro ⟨-, htaken | ⟨hknown, -⟩⟩
        · simpa [hnone] using htaken.known
        · simp [hnone] at hknown

/-- The request has ended, and that was before a time. -/
def endedBefore (time : Int) (t : TrackedRequest) : Bool := t.state.isFinished && t.finishedAt.any (· < time)

/-- A cleanup keeps a request unless it ended before the time given. -/
theorem all_finishedAt {steps : List RegisterStep} {t : TrackedRequest} (h : t ∈ (after {} steps).entries)
    (time : Int) : (t.finishedAt.all (time ≤ ·)) = !endedBefore time t := by
  have htimes := isSome_finishedAt ((distinct_empty.after steps).find?_eq_some.2 ⟨h, rfl⟩)
  unfold endedBefore
  rw [← htimes]
  cases t.finishedAt with
  | none => rfl
  | some finish =>
    rw [Bool.eq_iff_iff]
    simp

theorem cleanup_after (steps : List RegisterStep) (time : Int) : (after {} steps).cleanup time =
    ((after {} steps).entries.countP (endedBefore time),
      ⟨(after {} steps).entries.filter (!endedBefore time ·)⟩) := by
  have hfilter := List.filter_congr fun t (ht : t ∈ (after {} steps).entries) => all_finishedAt ht time
  have hcount := List.length_eq_countP_add_countP (endedBefore time) (l := (after {} steps).entries)
  have hnot : (fun t => decide ¬endedBefore time t = true) = (!endedBefore time ·) := by
    funext t
    simp
  rw [hnot] at hcount
  unfold cleanup
  dsimp only
  rw [hfilter, ← List.countP_eq_length_filter]
  congr 1
  omega

/-- The laws of the register after some steps. -/
structure WellKept (steps : List RegisterStep) : Prop where
  /-- a request has a finish time exactly if it has ended -/
  times : ∀ t ∈ (after {} steps).entries,
    t.finishedAt.isSome = true ↔ t.state = .completed ∨ t.state = .failed ∨ t.state = .cancelled
  /-- as it has ended it stays, whatever is done, as long as it is known -/
  lasting : ∀ more id t t', (after {} steps).find? id = some t → t.state.isFinished = true →
    (after {} steps).Stays id more → (after {} (steps ++ more)).find? id = some t' →
    t'.state = t.state ∧ t'.result = t.result ∧ t'.error = t.error ∧ t'.finishedAt = t.finishedAt
  /-- and it is known until it is forgotten in a cleanup -/
  known : ∀ x id t, (after {} steps).find? id = some t → (after {} (steps ++ [x])).find? id = none →
    ∃ time, x = .cleanup time ∧ endedBefore time t = true
  /-- a step that is answered with an error or `false` changes no request and stops none -/
  refused : ∀ x, ((after {} steps).take x).1.isRefusal = true → after {} (steps ++ [x]) = after {} steps
  /-- a step about a request changes no other -/
  others : ∀ x i id, x.id? = some i → id ≠ i →
    (after {} (steps ++ [x])).find? id = (after {} steps).find? id
  /-- a request was told to stop exactly if, since it was taken in, that was asked for and answered with `true` -/
  stopped : ∀ id t, (after {} steps).find? id = some t → (t.cancelled = true ↔
    HasTaken steps id fun r x => x = .cancel id ∧ (r.take x).1 = .wasUnderWay true)
  /-- the requests that are under way, each once -/
  active : ∀ t, t ∈ (after {} steps).active ↔
    (after {} steps).find? t.id = some t ∧ ¬(t.state = .completed ∨ t.state = .failed ∨ t.state = .cancelled)
  once : ((after {} steps).active.map (·.id)).Nodup
  /-- a cleanup forgets those that ended before a time, and tells how many they are -/
  forgotten : ∀ time, ((after {} steps).cleanup time).1 = (after {} steps).entries.countP (endedBefore time) ∧
    ∀ id, ((after {} steps).cleanup time).2.find? id = ((after {} steps).find? id).filter (!endedBefore time ·)

theorem isFinished_iff {s : RequestState} :
    s.isFinished = true ↔ s = .completed ∨ s = .failed ∨ s = .cancelled := by
  cases s <;> simp [RequestState.isFinished]

/-- The register is well kept, whatever is done with it. -/
theorem wellKept_after (steps : List RegisterStep) : WellKept steps := by
  have hdistinct := distinct_empty.after steps
  have hfind {t : TrackedRequest} (ht : t ∈ (after {} steps).entries) := hdistinct.find?_eq_some.2 ⟨ht, rfl⟩
  constructor
  case times =>
    intro t ht
    rw [isSome_finishedAt (hfind ht), isFinished_iff]
  case lasting =>
    intro more id t t' ht hended hstays ht'
    rw [after_append] at ht'
    rw [hstays.of_finished hdistinct ht hended ht']
    exact ⟨rfl, rfl, rfl, rfl⟩
  case known =>
    intro x id t ht hnone
    rw [find?_after_concat distinct_empty, ht] at hnone
    obtain ⟨time, finish, rfl, hfinish, hlt⟩ := RegisterStep.effect_eq_none hnone
    refine ⟨time, rfl, ?_⟩
    have htimes := isSome_finishedAt ht
    rw [hfinish, Option.isSome_some] at htimes
    simp [endedBefore, ← htimes, hfinish, hlt]
  case refused =>
    intro x hrefusal
    rw [after_concat, take_of_refusal hrefusal]
  case others =>
    intro x i id hx hne
    rw [find?_after_concat distinct_empty, RegisterStep.effect_of_ne hx hne]
  case stopped => exact fun id t ht => cancelled_iff ht
  case active =>
    intro t
    rw [Register.active, List.mem_filter, hdistinct.find?_eq_some, ← isFinished_iff]
    simp
  case once => exact hdistinct.sublist (List.Sublist.map _ List.filter_sublist)
  case forgotten =>
    intro time
    rw [cleanup_after]
    exact ⟨rfl, hdistinct.find?_filter _⟩

end Pseudoscribe.Register
