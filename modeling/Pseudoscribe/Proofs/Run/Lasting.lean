import Pseudoscribe.Proofs.Run.Moves
import Pseudoscribe.Run.Engine

/-!
# What an engine does not forget

An engine adds runs and lets them go on; it never takes one away.  The request of a run stays the same, and a result
that is there stays as it is.
-/

namespace Pseudoscribe

namespace Run

/-- A run that has gone on: its request is the same, and a result that was there still is. -/
structure GoesOn (r r' : Run) : Prop where
  request : r'.request = r.request
  result : ∀ a, r.result = some a → r'.result = some a

theorem GoesOn.refl (r : Run) : r.GoesOn r := ⟨rfl, fun _ h => h⟩

theorem GoesOn.trans {r s t : Run} (h : r.GoesOn s) (h' : s.GoesOn t) : r.GoesOn t :=
  ⟨h'.request.trans h.request, fun a ha => h'.result a (h.result a ha)⟩

theorem goesOn_of_move {r r' : Run} {now : Nat} {m : RunMove} (h : Move r now m r') : r.GoesOn r' := by
  refine ⟨(fixed_of_move h).1, fun a ha => ?_⟩
  cases h with
  | next => exact (result_place _ _ _).trans ha
  | chunk => exact (result_place _ _ _).trans ha
  | cancel => exact ha
  | conclude _ _ unfinished => exact absurd ha (by simp [unfinished])

theorem Leads.goesOn {may : Run → RunMove → Prop} {r s : Run} {ms : List (Nat × RunMove)} {begun : List Nat}
    (h : Leads may r ms begun s) : r.GoesOn s := by
  induction h with
  | refl => exact .refl r
  | step now m before allowed made ih => exact ih.trans (goesOn_of_move (move_cases made))

theorem goesOn_of_step {r s : Run} {now : Nat} {m : RunMove} {notes : List Note}
    (h : r.step? now m = some (s, notes)) : r.GoesOn s := by
  obtain ⟨made, begun, hleads⟩ := exists_leads_step h
  exact hleads.goesOn

theorem request_start (now : Nat) (request : Request) (spec : BackendSpec) (cancelled : Bool) :
    (start now request spec cancelled).1.request = request := by
  obtain ⟨made, begun, hleads⟩ := exists_leads_start now request spec cancelled
  exact hleads.goesOn.request

end Run

namespace Engine

/-- Runs have numbers that were given already. -/
def Numbered (e : Engine) : Prop := ∀ x ∈ e.runs, x.1 < e.nextRun

/-- An engine that has gone on: it has the same profiles and all runs, which may have gone on too. -/
structure GoesOn (e e' : Engine) : Prop where
  profiles : e'.profiles = e.profiles
  runs : ∀ n r, e.run? n = some r → ∃ r', e'.run? n = some r' ∧ r.GoesOn r'
  numbered : e.Numbered → e'.Numbered

theorem GoesOn.refl (e : Engine) : e.GoesOn e := ⟨rfl, fun _ r h => ⟨r, h, .refl r⟩, id⟩

theorem GoesOn.trans {e e' e'' : Engine} (h : e.GoesOn e') (h' : e'.GoesOn e'') : e.GoesOn e'' where
  profiles := h'.profiles.trans h.profiles
  runs n r hr := by
    obtain ⟨r', hr', hgoes⟩ := h.runs n r hr
    obtain ⟨r'', hr'', hgoes'⟩ := h'.runs n r' hr'
    exact ⟨r'', hr'', hgoes.trans hgoes'⟩
  numbered hnumbered := h'.numbered (h.numbered hnumbered)

/-- Nothing has happened to the runs. -/
theorem goesOn_of_eq {e e' : Engine} (hprofiles : e'.profiles = e.profiles) (hruns : e'.runs = e.runs)
    (hnext : e'.nextRun = e.nextRun) : e.GoesOn e' where
  profiles := hprofiles
  runs n r hr := ⟨r, by unfold run? at hr ⊢; rwa [hruns], .refl r⟩
  numbered hnumbered := by
    unfold Numbered at hnumbered ⊢
    rwa [hruns, hnext]

/-- Nothing has happened to the runs of an engine, and nothing was told. -/
structure Aside (e e' : Engine) : Prop where
  profiles : e'.profiles = e.profiles
  runs : e'.runs = e.runs
  nextRun : e'.nextRun = e.nextRun
  told : e'.told = e.told

theorem goesOn_of_aside {e e' : Engine} (h : e.Aside e') : e.GoesOn e' :=
  goesOn_of_eq h.profiles h.runs h.nextRun

theorem goesOn_tell (e : Engine) (id : RequestId) (note : Note) : e.GoesOn (e.tell id note) := by
  cases note <;> exact goesOn_of_eq rfl rfl rfl

theorem goesOn_tellAll (e : Engine) (id : RequestId) (notes : List Note) : e.GoesOn (e.tellAll id notes) := by
  induction notes generalizing e with
  | nil => exact .refl e
  | cons note notes ih => exact (e.goesOn_tell id note).trans (ih _)

/-- Whether a backend can be used is asked of the backends, and what they answer is kept. -/
theorem preflight_snd (e : Engine) (spec : BackendSpec) : (e.preflight spec).2 = { e with
    crew := { e.crew with backends := (e.preflight spec).2.crew.backends }
    verified := (e.preflight spec).2.verified } := by
  unfold preflight
  split
  · rfl
  · dsimp only
    split <;> rfl

theorem clear_snd (e : Engine) (request : Request) : (e.clear request).2 = { e with
    crew := { e.crew with backends := (e.clear request).2.crew.backends }
    verified := (e.clear request).2.verified } := by
  unfold clear
  split
  · rfl
  · next spec _ =>
    have hcheck := e.preflight_snd spec
    split
    · next h => rwa [h] at hcheck
    · next h =>
      rw [h] at hcheck
      split <;> exact hcheck

theorem aside_clear (e : Engine) (request : Request) : e.Aside (e.clear request).2 := by
  rw [clear_snd]
  exact ⟨rfl, rfl, rfl, rfl⟩

theorem goesOn_clear (e : Engine) (request : Request) : e.GoesOn (e.clear request).2 :=
  goesOn_of_aside (e.aside_clear request)

theorem run?_setRun (e : Engine) (n m : Nat) (r : Run) :
    (e.setRun n r).run? m = if m = n then (e.run? n).map fun _ => r else e.run? m := by
  unfold run? setRun
  dsimp only
  induction e.runs with
  | nil => split <;> rfl
  | cons x xs ih =>
    obtain ⟨k, s⟩ := x
    rw [List.map_cons]
    dsimp only
    by_cases hk : k = n
    · subst hk
      rw [if_pos rfl]
      by_cases hm : m = k
      · subst hm
        rw [if_pos rfl, List.lookup_cons_self, List.lookup_cons_self, Option.map_some]
      · rw [if_neg hm] at ih ⊢
        rw [List.lookup_cons, List.lookup_cons, beq_false_of_ne hm]
        exact ih
    · rw [if_neg hk]
      by_cases hm : m = k
      · subst hm
        rw [if_neg hk, List.lookup_cons_self, List.lookup_cons_self]
      · rw [List.lookup_cons, beq_false_of_ne hm]
        dsimp only
        rw [ih]
        split
        · next hmn =>
          rw [List.lookup_cons, beq_false_of_ne (fun h => hk h.symm)]
        · rw [List.lookup_cons, beq_false_of_ne hm]

theorem goesOn_setRun {e : Engine} {n : Nat} {r r' : Run} (hrun : e.run? n = some r) (h : r.GoesOn r') :
    e.GoesOn (e.setRun n r') where
  profiles := rfl
  runs m s hs := by
    rw [run?_setRun]
    by_cases hm : m = n
    · subst hm
      obtain rfl : r = s := Option.some.inj (hrun.symm.trans hs)
      rw [if_pos rfl, hrun]
      exact ⟨r', rfl, h⟩
    · rw [if_neg hm]
      exact ⟨s, hs, .refl s⟩
  numbered hnumbered x hx := by
    obtain ⟨y, hy, rfl⟩ := List.mem_map.1 hx
    have hlt := hnumbered y hy
    split
    · next heq => exact heq ▸ hlt
    · exact hlt

theorem goesOn_follow {e : Engine} {n : Nat} {r : Run} {step : Run × List Note} (hrun : e.run? n = some r)
    (h : r.GoesOn step.1) : e.GoesOn (e.follow n step) :=
  ((goesOn_setRun hrun h).trans (goesOn_tellAll _ _ _)).trans (goesOn_of_eq rfl rfl rfl)

theorem goesOn_feed (e : Engine) (n : Nat) (m : RunMove) : e.GoesOn (e.feed n m) := by
  unfold feed
  split
  · next step hstep =>
    obtain ⟨r, hrun, htook⟩ := Option.bind_eq_some_iff.1 hstep
    exact goesOn_follow hrun (Run.goesOn_of_step htook)
  · exact .refl e

/-! ## What an engine does with its runs -/

/-- Nothing has happened to the runs of an engine, and nothing was told or counted. -/
structure Still (e e' : Engine) : Prop extends Aside e e' where
  metrics : e'.metrics = e.metrics

/-- What an engine does with the runs that it has: it feeds them, one after the other, and between these steps only
things happen that leave the runs alone. -/
inductive Works (e : Engine) : Engine → Prop
  | refl : Works e e
  | still {e' e'' : Engine} (before : Works e e') (still : e'.Still e'') : Works e e''
  | feed {e' : Engine} (before : Works e e') (n : Nat) (m : RunMove) : Works e (e'.feed n m)

theorem Works.trans {e e' e'' : Engine} (h : e.Works e') (h' : e'.Works e'') : e.Works e'' := by
  induction h' with
  | refl => exact h
  | still _ hstill ih => exact ih.still hstill
  | feed _ n m ih => exact ih.feed n m

theorem Still.works {e e' : Engine} (h : e.Still e') : e.Works e' := .still .refl h

theorem Still.feeds {e e' : Engine} (h : e.Still e') (n : Nat) (m : RunMove) : e.Works (e'.feed n m) :=
  h.works.feed n m

theorem works_offerFirst {e e' : Engine} (h : e.offerFirst? = some e') : e.Works e' := by
  unfold offerFirst? at h
  split at h
  · cases h
  · next key rest _ =>
    split at h
    · cases h
      exact Still.works (e := e) ⟨⟨rfl, rfl, rfl, rfl⟩, rfl⟩
    · next task _ =>
      split at h
      · cases h
        refine Still.feeds (e := e) ?_ _ _
        exact ⟨⟨rfl, rfl, rfl, rfl⟩, rfl⟩
      · obtain ⟨crew, _, rfl⟩ := Option.map_eq_some_iff.1 h
        refine Still.feeds (e := e) ?_ _ _
        exact ⟨⟨rfl, rfl, rfl, rfl⟩, rfl⟩

theorem works_handOn {e e' : Engine} (h : e.handOn? = some e') : e.Works e' := by
  obtain ⟨d, _, h⟩ := Option.bind_eq_some_iff.1 h
  split at h
  · cases h
    refine Still.feeds (e := e) ?_ _ _
    exact ⟨⟨rfl, rfl, rfl, rfl⟩, rfl⟩
  · cases h
    exact Still.works (e := e) ⟨⟨rfl, rfl, rfl, rfl⟩, rfl⟩

theorem works_wake {e e' : Engine} (h : e.wake? = some e') : e.Works e' := by
  obtain ⟨⟨n, r⟩, _, h⟩ := List.exists_of_findSome?_eq_some h
  obtain ⟨rest, _, rfl⟩ := Option.map_eq_some_iff.1 h
  exact .feed .refl _ _

theorem works_act {e e' : Engine} (h : e.act? = some e') : e.Works e' := by
  unfold act? at h
  split at h
  · cases h
    exact Still.works (e := e) ⟨⟨rfl, rfl, rfl, rfl⟩, rfl⟩
  · split at h
    · next hhand =>
      cases h
      exact works_handOn hhand
    · split at h
      · next hwake =>
        cases h
        exact works_wake hwake
      · exact works_offerFirst h

theorem works_offerAll (e : Engine) (fuel : Nat) : e.Works (e.offerAll fuel) := by
  induction fuel generalizing e with
  | zero => exact .refl
  | succ fuel ih =>
    unfold offerAll
    split
    · next hoffer => exact (works_offerFirst hoffer).trans (ih _)
    · exact .refl

theorem works_cancel (e : Engine) (n : Nat) : e.Works (e.cancel n) := by
  refine Still.feeds (e := e) ?_ n .cancel
  exact ⟨⟨rfl, rfl, rfl, rfl⟩, rfl⟩

theorem works_settle (e : Engine) : e.Works e.settle := by
  unfold settle
  generalize e.stepsLeft = fuel
  induction fuel generalizing e with
  | zero => exact .refl
  | succ fuel ih =>
    unfold settleFor
    split
    · next hact => exact (works_act hact).trans (ih _)
    · exact .refl

theorem works_await (e : Engine) (n : Nat) (limit : Option Nat) : e.Works (e.await n limit) := by
  unfold await
  generalize e.stepsLeft = fuel
  induction fuel generalizing e with
  | zero => exact .refl
  | succ fuel ih =>
    have hsettled := e.works_settle
    unfold awaitFor
    dsimp only
    split
    · exact hsettled
    · split
      · next t _ =>
        split
        · exact hsettled
        · have hmoved : e.settle.Still (e.settle.moveTo t) := ⟨⟨rfl, rfl, rfl, rfl⟩, rfl⟩
          exact (hsettled.still hmoved).trans (ih _)
      · exact hsettled

theorem works_awaitCancelled (e : Engine) (n time : Nat) : e.Works (e.awaitCancelled n time) := by
  have hawaited := e.works_await n (some time)
  unfold awaitCancelled
  dsimp only
  split
  · exact hawaited
  · exact (hawaited.trans (works_cancel _ n)).trans (works_await _ n none)

/-! ## What every step keeps -/

/-- A property of engines that is kept when a run is fed and when nothing happens to the runs. -/
structure Kept (P : Engine → Prop) : Prop where
  aside : ∀ {e e' : Engine}, e.Aside e' → P e → P e'
  feed : ∀ {e : Engine} (n : Nat) (m : RunMove), P e → P (e.feed n m)

theorem Kept.works {P : Engine → Prop} {e e' : Engine} (h : Kept P) (he : P e) (hworks : e.Works e') : P e' := by
  induction hworks with
  | refl => exact he
  | still _ hstill ih => exact h.aside hstill.toAside ih
  | feed _ n m ih => exact h.feed n m ih

theorem kept_goesOn (e : Engine) : Kept e.GoesOn where
  aside haside hgoes := hgoes.trans (goesOn_of_aside haside)
  feed n m hgoes := hgoes.trans (goesOn_feed _ n m)

theorem goesOn_of_works {e e' : Engine} (h : e.Works e') : e.GoesOn e' := (kept_goesOn e).works (.refl e) h

/-! ## New runs -/

theorem run?_eq_none {e : Engine} (hnumbered : e.Numbered) : e.run? e.nextRun = none := by
  unfold run?
  rw [List.lookup_eq_none_iff]
  intro x hx
  simpa using (hnumbered x hx).ne'

/-- A run is added under the next number. -/
theorem goesOn_add {e : Engine} (hnumbered : e.Numbered) (r : Run) :
    e.GoesOn { e with runs := e.runs ++ [(e.nextRun, r)], nextRun := e.nextRun + 1 } ∧
      ({ e with runs := e.runs ++ [(e.nextRun, r)], nextRun := e.nextRun + 1 } : Engine).run? e.nextRun = some r := by
  refine ⟨⟨rfl, fun n s hs => ⟨s, ?_, .refl s⟩, fun _ x hx => ?_⟩, ?_⟩
  · unfold run? at hs ⊢
    rw [List.lookup_append, hs, Option.some_or]
  · rcases List.mem_append.1 hx with hx | hx
    · exact (hnumbered x hx).trans (Nat.lt_succ_self _)
    · rw [List.mem_singleton.1 hx]
      exact Nat.lt_succ_self _
  · have hnone := run?_eq_none hnumbered
    unfold run? at hnone ⊢
    rw [List.lookup_append, hnone, Option.none_or, List.lookup_cons_self]

/-- The other runs are not touched. -/
theorem run?_add_of_ne {e : Engine} {n : Nat} (r : Run) (h : n ≠ e.nextRun) :
    ({ e with runs := e.runs ++ [(e.nextRun, r)], nextRun := e.nextRun + 1 } : Engine).run? n = e.run? n := by
  unfold run?
  dsimp only
  rw [List.lookup_append, List.lookup_cons, beq_false_of_ne h]
  exact Option.or_none

/-- A request that is begun with has a run of its own from then on. -/
theorem goesOn_start {e : Engine} (hnumbered : e.Numbered) (request : Request) (cancelled : Bool) :
    e.GoesOn (e.start request cancelled).2 ∧ ∀ n, (e.start request cancelled).1 = .ok n →
      ∃ r, (e.start request cancelled).2.run? n = some r ∧ r.request = request := by
  have hclear := e.goesOn_clear request
  unfold start
  split
  · next h =>
    rw [h] at hclear
    exact ⟨hclear.trans (goesOn_tellAll _ _ _), nofun⟩
  · next spec e' h =>
    rw [h] at hclear
    have hrequest := Run.request_start e'.now request spec cancelled
    dsimp only at hclear ⊢
    -- the start of a run is not to be carried out here
    generalize Run.start e'.now request spec cancelled = first at hrequest ⊢
    obtain ⟨r, notes⟩ := first
    obtain ⟨hadd, hrun⟩ := goesOn_add (hclear.numbered hnumbered) r
    have hlater := fun fuel =>
      (@goesOn_follow _ _ _ (r, notes) hrun (.refl _)).trans (goesOn_of_works (works_offerAll _ fuel))
    refine ⟨hclear.trans (hadd.trans (hlater _)), fun n hn => ?_⟩
    obtain rfl := Except.ok.inj hn
    obtain ⟨r', hr', hgoes⟩ := (hlater _).runs _ _ hrun
    exact ⟨r', hr', hgoes.request.trans hrequest⟩

end Engine

end Pseudoscribe
