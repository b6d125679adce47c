import Mathlib.Data.List.Nodup
import Pseudoscribe.Tracker.Register

/-!
# Steps of the register

What is done with the register, one thing after the other, each with its answer.  Every request in the register
goes its own way: what a step makes of it depends on the step and on the request alone (`find?_take`).
-/

namespace Pseudoscribe

/-- Something that is done with the register, at a time where that matters. -/
inductive RegisterStep where
  /-- a new request is taken in -/
  | insert (id : RequestId) (language : String) (now : Int)
  | setState (now : Int) (id : RequestId) (state : RequestState)
  | setProgress (id : RequestId) (completed total : Nat)
  | complete (now : Int) (id : RequestId) (result : Assembly)
  | fail (now : Int) (id : RequestId) (error : String)
  | cancel (id : RequestId)
  /-- requests that ended before a time are forgotten -/
  | cleanup (before : Int)

/-- What is answered to a step. -/
inductive RegisterAnswer where
  | done
  | refused (error : TrackerError)
  | wasUnderWay (flag : Bool)
  | forgot (count : Nat)

/-- The answer is an error or `false`. -/
def RegisterAnswer.isRefusal : RegisterAnswer → Bool
  | refused _ => true
  | wasUnderWay flag => !flag
  | done | forgot _ => false

/-- The request that a step is about. -/
def RegisterStep.id? : RegisterStep → Option RequestId
  | insert id .. | setState _ id _ | setProgress id .. | complete _ id _ | fail _ id _ | cancel id => some id
  | cleanup _ => none

/-! ## What a step makes of a request -/

namespace TrackedRequest

/-- The request after a step that is about it. -/
def changedBy (t : TrackedRequest) : RegisterStep → TrackedRequest
  | .setState now _ state =>
    if t.state.isFinished then t
    else { t with state, finishedAt := if state.isFinished then some now else t.finishedAt }
  | .setProgress _ completed total => { t with completedChunks := completed, totalChunks := total }
  | .complete now _ a =>
    if t.state.isFinished then t
    else { t with
      state := if a.cancelled then .cancelled else .completed
      result := some a
      error := none
      finishedAt := some now }
  | .fail now _ message =>
    if t.state.isFinished then t
    else { t with state := .failed, result := none, error := some message, finishedAt := some now }
  | .cancel _ => if t.state.isFinished then t else { t with cancelled := true }
  | .insert .. | .cleanup _ => t

/-- To a request that has ended only its progress can change. -/
theorem changedBy_of_finished {t : TrackedRequest} (h : t.state.isFinished = true) (x : RegisterStep) :
    t.changedBy x = { t with
      completedChunks := (t.changedBy x).completedChunks
      totalChunks := (t.changedBy x).totalChunks } := by
  cases x <;> simp [changedBy, h]

end TrackedRequest

namespace RegisterStep

/-- What a step makes of the request of an identifier, known or not. -/
def effect (id : RequestId) (x : RegisterStep) (known : Option TrackedRequest) : Option TrackedRequest :=
  match x with
  | insert i language now => if i = id then known.or (some { id, language, createdAt := now }) else known
  | cleanup before => known.filter fun t => t.finishedAt.all (before ≤ ·)
  | x => if x.id? = some id then known.map (·.changedBy x) else known

/-- A step about another request leaves this one alone. -/
theorem effect_of_ne {id i : RequestId} {x : RegisterStep} (hx : x.id? = some i) (hne : id ≠ i)
    (known : Option TrackedRequest) : x.effect id known = known := by
  cases x <;> simp_all [effect, id?, eq_comm]

/-- A known request is forgotten by a cleanup only, and only if it has ended before the time given. -/
theorem effect_eq_none {id : RequestId} {x : RegisterStep} {t : TrackedRequest} (h : x.effect id (some t) = none) :
    ∃ before time, x = cleanup before ∧ t.finishedAt = some time ∧ time < before := by
  cases x with
  | cleanup before =>
    cases htime : t.finishedAt with
    | none => simp [effect, Option.filter, htime] at h
    | some time =>
      simp [effect, Option.filter, htime] at h
      exact ⟨before, time, rfl, rfl, h⟩
  | _ =>
    simp only [effect] at h
    split at h <;> simp at h

/-- What becomes of a request that stays. -/
theorem effect_eq_some {id : RequestId} {x : RegisterStep} {t t' : TrackedRequest}
    (h : x.effect id (some t) = some t') : t' = if x.id? = some id then t.changedBy x else t := by
  cases x with
  | cleanup before =>
    rw [effect, Option.filter_eq_some_iff] at h
    simpa [id?] using h.1.symm
  | insert i language now =>
    simp only [effect, Option.some_or, ite_self, Option.some.injEq] at h
    simp [TrackedRequest.changedBy, h]
  | _ =>
    simp only [effect] at h
    split at h
    · next hid =>
      rw [if_pos hid]
      exact (Option.some.inj h).symm
    · next hid =>
      rw [if_neg hid]
      exact (Option.some.inj h).symm

/-- A request that was not known before is new. -/
theorem effect_none_eq_some {id : RequestId} {x : RegisterStep} {t : TrackedRequest} (h : x.effect id none = some t) :
    ∃ language now, x = insert id language now ∧ t = { id, language, createdAt := now } := by
  cases x with
  | insert i language now =>
    simp only [effect, Option.none_or] at h
    split at h
    · next heq => exact ⟨language, now, by rw [heq], (Option.some.inj h).symm⟩
    · cases h
  | _ => simp [effect] at h

end RegisterStep

namespace Register

/-! ## Finding requests -/

theorem id_of_find? {r : Register} {id : RequestId} {t : TrackedRequest} (h : r.find? id = some t) : t.id = id := by
  simpa using List.find?_some h

/-- No two requests have the same identifier. -/
def Distinct (r : Register) : Prop := (r.entries.map (·.id)).Nodup

theorem Distinct.find?_eq_some {r : Register} (h : r.Distinct) {id : RequestId} {t : TrackedRequest} :
    r.find? id = some t ↔ t ∈ r.entries ∧ t.id = id := by
  constructor
  · intro hfind
    exact ⟨List.mem_of_find?_eq_some hfind, id_of_find? hfind⟩
  · rintro ⟨hmem, rfl⟩
    have hsome : (r.find? t.id).isSome = true := List.find?_isSome.2 ⟨t, hmem, beq_self_eq_true _⟩
    obtain ⟨s, hs⟩ := Option.isSome_iff_exists.1 hsome
    rw [hs, List.inj_on_of_nodup_map h (List.mem_of_find?_eq_some hs) hmem (id_of_find? hs)]

theorem find?_update (r : Register) {f : TrackedRequest → TrackedRequest} (hf : ∀ t, (f t).id = t.id)
    (i id : RequestId) : (r.update i f).find? id = if i = id then (r.find? id).map f else r.find? id := by
  have hsame : ((·.id == id) ∘ fun t => if t.id == i then f t else t) = (·.id == id) := by
    funext t
    simp only [Function.comp_apply]
    split
    · rw [hf]
    · rfl
  have hmap : (r.update i f).find? id = (r.find? id).map fun t => if t.id == i then f t else t := by
    rw [find?, update, List.find?_map, hsame]
    rfl
  rw [hmap]
  cases hfind : r.find? id with
  | none => simp
  | some t =>
    obtain rfl := id_of_find? hfind
    by_cases hid : t.id = i
    · simp [hid]
    · simp [hid, Ne.symm hid]

theorem find?_setProgress (r : Register) (id : RequestId) (completed total : Nat) :
    (r.setProgress id completed total).find? id =
      (r.find? id).map fun t => { t with completedChunks := completed, totalChunks := total } := by
  have hupdate := find?_update r (f := fun t => { t with completedChunks := completed, totalChunks := total })
    (fun _ => rfl) id id
  rwa [if_pos rfl] at hupdate

theorem ids_update (r : Register) {f : TrackedRequest → TrackedRequest} (hf : ∀ t, (f t).id = t.id)
    (i : RequestId) : (r.update i f).entries.map (·.id) = r.entries.map (·.id) := by
  rw [update, List.map_map]
  refine List.map_congr_left fun t _ => ?_
  simp only [Function.comp_apply]
  split
  · exact hf t
  · rfl

/-! ## One step -/

/-- A step that can fail, with its answer. -/
def attempt (r : Register) : Except TrackerError Register → RegisterAnswer × Register
  | .ok r' => (.done, r')
  | .error e => (.refused e, r)

/-- Take a step. -/
def take (r : Register) : RegisterStep → RegisterAnswer × Register
  | .insert id language now => r.attempt (r.insert { id, language, createdAt := now })
  | .setState now id state => r.attempt (r.setState now id state)
  | .setProgress id completed total => (.done, r.setProgress id completed total)
  | .complete now id result => r.attempt (r.complete now id result)
  | .fail now id error => r.attempt (r.fail now id error)
  | .cancel id => (.wasUnderWay (r.cancel id).1, (r.cancel id).2)
  | .cleanup before => (.forgot (r.cleanup before).1, (r.cleanup before).2)

theorem attempt_refused {r : Register} {x : Except TrackerError Register}
    (h : (r.attempt x).1.isRefusal = true) : (r.attempt x).2 = r := by
  cases x with
  | ok r' => cases h
  | error e => rfl

/-- A step that is refused changes nothing. -/
theorem take_of_refusal {r : Register} {x : RegisterStep} (h : (r.take x).1.isRefusal = true) :
    (r.take x).2 = r := by
  cases x with
  | insert | setState | complete | fail => exact attempt_refused h
  | setProgress | cleanup => cases h
  | cancel id =>
    simp only [take, cancel, RegisterAnswer.isRefusal] at h ⊢
    split at h
    · split at h
      · next hfinished => simp [*]
      · cases h
    · simp [*]

/-- A request is asked to stop exactly if it is known and has not ended. -/
theorem take_cancel_fst (r : Register) (id : RequestId) :
    (r.take (.cancel id)).1 = .wasUnderWay ((r.find? id).any (!·.state.isFinished)) := by
  simp only [take, cancel]
  cases r.find? id with
  | none => rfl
  | some t => cases h : t.state.isFinished <;> simp [h]

/-- Change a request that has not ended. -/
def updateOpen (r : Register) (i : RequestId) (f : TrackedRequest → TrackedRequest) : Register :=
  match r.find? i with
  | some t => if t.state.isFinished then r else r.update i f
  | none => r

section UpdateOpen

variable (r : Register) {f : TrackedRequest → TrackedRequest} (hf : ∀ t, (f t).id = t.id) (i : RequestId)

include hf

theorem find?_updateOpen (id : RequestId) : (r.updateOpen i f).find? id =
    if i = id then (r.find? id).map fun t => if t.state.isFinished then t else f t else r.find? id := by
  unfold updateOpen
  by_cases hid : i = id
  · subst hid
    cases hfind : r.find? i with
    | none => simp [hfind]
    | some t =>
      cases hopen : t.state.isFinished with
      | true => simp [hopen, hfind]
      | false => simp [hopen, find?_update r hf, hfind]
  · rw [if_neg hid]
    split
    · split
      · rfl
      · rw [find?_update r hf, if_neg hid]
    · rfl

theorem ids_updateOpen : (r.updateOpen i f).entries.map (·.id) = r.entries.map (·.id) := by
  unfold updateOpen
  split
  · split
    · rfl
    · exact ids_update r hf i
  · rfl

end UpdateOpen

section Take

variable (r : Register) (now : Int) (i : RequestId)

theorem take_setState (state : RequestState) : (r.take (.setState now i state)).2 = r.updateOpen i fun t =>
    { t with state, finishedAt := if state.isFinished then some now else t.finishedAt } := by
  simp only [take, setState, updateOpen]
  cases r.find? i with
  | none => rfl
  | some t => cases h : t.state.isFinished <;> simp [h, attempt]

theorem attempt_finish (state : RequestState) (result : Option Assembly) (error : Option String) :
    (r.attempt (r.finish now i state result error)).2 =
      r.updateOpen i fun t => { t with state, result, error, finishedAt := some now } := by
  simp only [finish, updateOpen]
  cases r.find? i with
  | none => rfl
  | some t => cases h : t.state.isFinished <;> simp [h, attempt]

theorem take_cancel_snd : (r.take (.cancel i)).2 = r.updateOpen i fun t => { t with cancelled := true } := by
  simp only [take, cancel, updateOpen]
  cases r.find? i with
  | none => rfl
  | some t => cases h : t.state.isFinished <;> simp [h]

theorem take_insert (language : String) : (r.take (.insert i language now)).2 =
    if (r.find? i).isSome then r else ⟨r.entries ++ [{ id := i, language, createdAt := now }]⟩ := by
  simp only [take, insert]
  cases r.find? i <;> rfl

end Take

/-- A step keeps the identifiers apart. -/
theorem Distinct.take {r : Register} (h : r.Distinct) (x : RegisterStep) : (r.take x).2.Distinct := by
  have hsame {s : Register} (hids : s.entries.map (·.id) = r.entries.map (·.id)) : s.Distinct := by
    rw [Distinct, hids]
    exact h
  cases x with
  | insert id language now =>
    rw [take_insert]
    split
    · exact h
    · next hnone =>
      simp only [Distinct, List.map_append, List.map_cons, List.map_nil]
      refine List.nodup_append.2 ⟨h, List.nodup_singleton _, ?_⟩
      intro i hi j hj heq
      obtain ⟨t, ht, rfl⟩ := List.mem_map.1 hi
      rw [List.mem_singleton.1 hj] at heq
      exact hnone (List.find?_isSome.2 ⟨t, ht, beq_iff_eq.2 heq⟩)
  | setState now id state => exact hsame (by rw [take_setState, ids_updateOpen]; intro t; rfl)
  | setProgress id completed total => exact hsame (by rw [Register.take, setProgress, ids_update]; intro t; rfl)
  | complete now id result =>
    exact hsame (by rw [Register.take, complete, attempt_finish, ids_updateOpen]; intro t; rfl)
  | fail now id error => exact hsame (by rw [Register.take, fail, attempt_finish, ids_updateOpen]; intro t; rfl)
  | cancel id => exact hsame (by rw [take_cancel_snd, ids_updateOpen]; intro t; rfl)
  | cleanup before => exact h.sublist (List.Sublist.map _ List.filter_sublist)

theorem Distinct.find?_filter {r : Register} (h : r.Distinct) (p : TrackedRequest → Bool) (id : RequestId) :
    (Register.mk (r.entries.filter p)).find? id = (r.find? id).filter p := by
  have hfilter : (Register.mk (r.entries.filter p)).Distinct := h.sublist (List.Sublist.map _ List.filter_sublist)
  ext t
  rw [hfilter.find?_eq_some, Option.filter_eq_some_iff, h.find?_eq_some, List.mem_filter]
  tauto

/-- What a step makes of a request depends on this request alone. -/
theorem find?_take {r : Register} (h : r.Distinct) (x : RegisterStep) (id : RequestId) :
    (r.take x).2.find? id = x.effect id (r.find? id) := by
  cases x with
  | insert i language now =>
    rw [take_insert, RegisterStep.effect]
    have hadded : (Register.mk (r.entries ++ [{ id := i, language, createdAt := now }])).find? id =
        (r.find? id).or (if i = id then some { id := i, language, createdAt := now } else none) := by
      simp [find?, List.find?_append]
    by_cases hid : i = id
    · subst hid
      cases hfind : r.find? i with
      | some t => simp [hfind]
      | none => simp [hadded, hfind]
    · split <;> simp [hadded, hid]
  | setProgress i completed total =>
    rw [take, setProgress, find?_update]
    · simp only [RegisterStep.effect, RegisterStep.id?, Option.some.injEq]
      rfl
    · intro t
      rfl
  | setState now i state =>
    rw [take_setState, find?_updateOpen]
    · simp only [RegisterStep.effect, RegisterStep.id?, Option.some.injEq]
      rfl
    · intro t
      rfl
  | complete now i result =>
    rw [take, complete, attempt_finish, find?_updateOpen]
    · simp only [RegisterStep.effect, RegisterStep.id?, Option.some.injEq]
      rfl
    · intro t
      rfl
  | fail now i error =>
    rw [take, fail, attempt_finish, find?_updateOpen]
    · simp only [RegisterStep.effect, RegisterStep.id?, Option.some.injEq]
      rfl
    · intro t
      rfl
  | cancel i =>
    rw [take_cancel_snd, find?_updateOpen]
    · simp only [RegisterStep.effect, RegisterStep.id?, Option.some.injEq]
      rfl
    · intro t
      rfl
  | cleanup before => exact h.find?_filter _ id

end Register

end Pseudoscribe
