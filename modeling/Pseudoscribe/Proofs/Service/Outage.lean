import Pseudoscribe.Proofs.Service.Handlers

/-!
# When the store fails

All that the store does to the traffic is what it gives when it is asked.  Two courses of the same moves, with different
failures of the store, are the same in everything but the store until a request finds something in one of them that it
does not find in the other.
-/

namespace Pseudoscribe

/-! ## A service without a store -/

namespace Service

def withoutStore (s : Service) : Service := { s with store := none }

variable (s : Service)

@[simp] theorem engine_withoutStore : s.withoutStore.engine = s.engine := rfl

@[simp] theorem register_withoutStore : s.withoutStore.register = s.register := rfl

@[simp] theorem errands_withoutStore : s.withoutStore.errands = s.errands := rfl

@[simp] theorem now_withoutStore : s.withoutStore.now = s.now := rfl

@[simp] theorem nextTime?_withoutStore : s.withoutStore.nextTime? = s.nextTime? := rfl

@[simp] theorem isCancelled_withoutStore (id : RequestId) : s.withoutStore.isCancelled id = s.isCancelled id := rfl

@[simp] theorem prepare_withoutStore (id : RequestId) (x : Submission) :
    s.withoutStore.prepare id x = s.prepare id x := rfl

@[simp] theorem lookUp_withoutStore (key : String) (id : RequestId) :
    s.withoutStore.lookUp key id = (none, s.withoutStore) := rfl

theorem withoutStore_record (step : Register → Except TrackerError Register) :
    (s.record step).withoutStore = s.withoutStore.record step := by
  rw [record_eq, record_eq]
  rfl

theorem withoutStore_keep (key : String) (a : Assembly) :
    (s.keep key a).withoutStore = s.withoutStore := by
  rw [keep_eq]
  rfl

theorem keep_withoutStore (key : String) (a : Assembly) : s.withoutStore.keep key a = s.withoutStore := by
  rw [keep_eq]
  unfold withoutStore
  split <;> rfl

theorem withoutStore_urge (e : Errand) : (s.urge e).withoutStore = s.withoutStore.urge e := by
  unfold urge
  dsimp only
  cases e.run with
  | none =>
    dsimp only
    rw [now_withoutStore, ← withoutStore_record]
    generalize s.record (·.setState s.now e.request.id .running) = s'
    rw [isCancelled_withoutStore, engine_withoutStore]
    generalize s'.engine.start e.request (s'.isCancelled e.request.id) = started
    obtain ⟨begun, engine⟩ := started
    cases begun with
    | ok number => rfl
    | error err => exact withoutStore_record _ _
  | some run =>
    dsimp only
    rw [isCancelled_withoutStore]
    split <;> rfl

theorem withoutStore_follow (e : Errand) : (s.follow e).withoutStore = s.withoutStore.follow e := by
  unfold follow
  dsimp only
  rw [engine_withoutStore]
  cases e.run.bind s.engine.run? with
  | none => rfl
  | some r =>
    dsimp only
    cases r.result with
    | some a =>
      dsimp only
      rw [withoutStore_record, withoutStore_keep]
      generalize hdone : { s with register := s.register.setProgress e.request.id _ a.chunks.length } = s'
      have hkeep := s'.keep_withoutStore e.key a
      subst hdone
      exact congrArg (fun t => Service.record t _) hkeep.symm
    | none =>
      dsimp only
      split
      · exact withoutStore_record _ _
      · rfl

theorem withoutStore_foldl {α : Type} {f : Service → α → Service}
    (hf : ∀ s x, (f s x).withoutStore = f s.withoutStore x) (xs : List α) :
    (xs.foldl f s).withoutStore = xs.foldl f s.withoutStore := by
  induction xs generalizing s with
  | nil => rfl
  | cons x xs ih => exact (ih _).trans (by rw [hf]; rfl)

theorem withoutStore_attend (client : String × Socket) :
    (s.attend client).withoutStore = s.withoutStore.attend client := rfl

theorem withoutStore_settle : s.settle.withoutStore = s.withoutStore.settle := by
  have hurged : s.urgeAll.withoutStore = s.withoutStore.urgeAll := withoutStore_foldl _ withoutStore_urge s.errands
  have hengine : s.withoutStore.urgeAll.engine = s.urgeAll.engine := hurged ▸ rfl
  rw [settle_eq, settle_eq, ← hurged]
  generalize hs' : ({ s.urgeAll with engine := s.urgeAll.engine.settle } : Service) = s'
  have hsame : ({ s.urgeAll.withoutStore with engine := s.urgeAll.withoutStore.engine.settle } : Service) =
      s'.withoutStore := hs' ▸ rfl
  have hfollowed : s'.followAll.withoutStore = s'.withoutStore.followAll :=
    withoutStore_foldl _ withoutStore_follow s'.errands
  rw [hsame, ← hfollowed]
  exact withoutStore_foldl _ withoutStore_attend s'.followAll.sockets

/-- Nothing that stops the wait is told by the store. -/
theorem withoutStore_runFor {stop : Service → Bool} (hstop : ∀ s, stop s.withoutStore = stop s) (limit : Option Nat)
    (fuel : Nat) : (s.runFor stop limit fuel).withoutStore = s.withoutStore.runFor stop limit fuel := by
  induction fuel generalizing s with
  | zero => rfl
  | succ fuel ih =>
    unfold runFor
    dsimp only
    rw [← withoutStore_settle, hstop, engine_withoutStore, nextTime?_withoutStore]
    split
    · rfl
    · split
      · exact ih _
      · rfl

theorem withoutStore_runUntil {stop : Service → Bool} (hstop : ∀ s, stop s.withoutStore = stop s)
    (limit : Option Nat) : (s.runUntil stop limit).withoutStore = s.withoutStore.runUntil stop limit := by
  unfold runUntil
  dsimp only
  rw [← withoutStore_settle]
  exact withoutStore_runFor _ hstop limit _

/-- Where the store gives nothing, for whatever reason, a request is carried out and answered as by a service without
a store. -/
theorem convert_of_miss (id : RequestId) (x : Submission)
    (hmiss : ∀ request key, s.prepare id x = .ok (request, key) → (s.lookUp key id).1 = none) :
    (s.convert id x).1 = (s.withoutStore.convert id x).1 ∧
      (s.convert id x).2.withoutStore = (s.withoutStore.convert id x).2 := by
  unfold convert
  rw [prepare_withoutStore]
  cases hprepare : s.prepare id x with
  | error e => exact ⟨rfl, rfl⟩
  | ok prepared =>
    obtain ⟨request, key⟩ := prepared
    obtain ⟨store, hservice, -, -⟩ := s.lookUp_eq key id
    have hlook : s.lookUp key id = (none, { s with store }) := Prod.ext (hmiss request key hprepare) hservice
    dsimp only
    rw [hlook, lookUp_withoutStore]
    dsimp only
    rw [engine_withoutStore]
    rcases s.engine.start request false with ⟨started, engine⟩
    cases started with
    | error e => exact ⟨rfl, rfl⟩
    | ok number =>
      dsimp only
      have hran := @withoutStore_runUntil { s with engine, store } (fun s => s.engine.isDone number) (fun _ => rfl) none
      rw [show ({ s.withoutStore with engine } : Service) = ({ s with engine, store } : Service).withoutStore from rfl,
        ← hran]
      generalize ({ s with engine, store } : Service).runUntil (fun s => s.engine.isDone number) none = s'
      rw [engine_withoutStore]
      cases s'.engine.result? number with
      | none => exact ⟨rfl, rfl⟩
      | some a => exact ⟨rfl, (s'.withoutStore_keep key a).trans (s'.keep_withoutStore key a).symm⟩

/-- Where the store gives nothing, a request for the background is taken in as by a service without a store. -/
theorem submit_of_miss (id : RequestId) (x : Submission)
    (hmiss : ∀ request key, s.prepare id x = .ok (request, key) → (s.lookUp key id).1 = none) :
    (s.submit id x).1 = (s.withoutStore.submit id x).1 ∧
      (s.submit id x).2.withoutStore = (s.withoutStore.submit id x).2 := by
  unfold submit
  rw [prepare_withoutStore]
  cases hprepare : s.prepare id x with
  | error e => exact ⟨rfl, rfl⟩
  | ok prepared =>
    obtain ⟨request, key⟩ := prepared
    obtain ⟨store, hservice, -, -⟩ := s.lookUp_eq key id
    have hlook : s.lookUp key id = (none, { s with store }) := Prod.ext (hmiss request key hprepare) hservice
    dsimp only
    rw [hlook, lookUp_withoutStore]
    dsimp only
    rw [register_withoutStore, now_withoutStore]
    cases s.register.insert { id, language := request.language.name, createdAt := s.now } <;> exact ⟨rfl, rfl⟩

end Service

/-! ## The traffic without a store -/

namespace Traffic

def withoutStore (w : Traffic) : Traffic := { w with service := w.service.withoutStore }

/-- What a request finds in the store, if it is one that looks there in this move. -/
def finding? (w : Traffic) : Move → Option Assembly
  | .go i => (w.calls[i]?).bind fun c =>
    match c.stage with
    | .arrived => (w.service.lookUp c.key c.request.id).1
    | _ => none
  | _ => none

/-- What happens in a move, if a request that looks into the store finds this. -/
def makeFinding (w : Traffic) (found : Option Assembly) : Move → Traffic
  | .go i => (w.calls[i]?).elim w fun c =>
    match c.stage with
    | .arrived => w.setStage i c (.looked found)
    | _ => w.go i c
  | m => w.make m

section Without

variable (w : Traffic)

@[simp] theorem service_withoutStore : w.withoutStore.service = w.service.withoutStore := rfl

@[simp] theorem calls_withoutStore : w.withoutStore.calls = w.calls := rfl

theorem withoutStore_disturb (fault : Option ResultStore) : (w.disturb fault).withoutStore = w.withoutStore := by
  cases fault with
  | none => rfl
  | some store =>
    unfold disturb
    dsimp only
    split <;> rfl

theorem withoutStore_go (i : Nat) {c : Call} (hc : c.stage ≠ .arrived) :
    (w.go i c).withoutStore = w.withoutStore.go i c := by
  unfold go
  cases hat : c.stage with
  | arrived => exact absurd hat hc
  | looked found =>
    dsimp only
    split
    · cases found with
      | some a => rfl
      | none =>
        unfold begin
        rw [service_withoutStore, Service.engine_withoutStore]
        generalize w.service.engine.start c.request false = started
        obtain ⟨begun, engine⟩ := started
        cases begun <;> rfl
    · unfold enter
      dsimp only
      rw [service_withoutStore, Service.register_withoutStore, Service.now_withoutStore]
      generalize w.service.register.insert _ = entered
      cases entered with
      | error e => rfl
      | ok register => cases found <;> rfl
  | entered found =>
    unfold completeFound
    dsimp only
    rw [service_withoutStore, Service.register_withoutStore, Service.now_withoutStore]
    generalize w.service.register.complete _ _ _ = ended
    cases ended <;> rfl
  | begun run =>
    dsimp only
    rw [service_withoutStore, Service.engine_withoutStore]
    cases w.service.engine.result? run <;> rfl
  | ended run a =>
    unfold keep
    dsimp only
    rw [service_withoutStore, Service.keep_withoutStore]
    split
    · exact congrArg (fun s => ({ w with service := s }.setStage i c (.kept run a)).write (.kept c.key a run))
        (w.service.withoutStore_keep c.key a)
    · exact congrArg (fun s => { w with service := s }.setStage i c (.kept run a))
        (w.service.withoutStore_keep c.key a)
  | kept run a =>
    unfold tell
    dsimp only
    split
    · rfl
    · exact congrArg (fun s => { w with service := s }.drop i) (w.service.withoutStore_record _)

theorem withoutStore_follow (i : Nat) (e : Errand) : (w.follow i e).withoutStore = w.withoutStore.follow i e := by
  unfold follow
  rw [service_withoutStore, Service.engine_withoutStore]
  cases e.run.bind fun run => (w.service.engine.result? run).map fun a => (run, a) with
  | some x => rfl
  | none =>
    exact congrArg (fun s => ({ w with service := s } : Traffic)) ((withoutErrand w.service i).withoutStore_follow e)

/-- A move does the same without the store, but for what a request finds in it. -/
theorem withoutStore_make (m : Move) : (w.make m).withoutStore = w.withoutStore.makeFinding (w.finding? m) m := by
  cases m with
  | arrive waits id x =>
    show (w.arrive waits id x).withoutStore = w.withoutStore.arrive waits id x
    unfold arrive
    rw [service_withoutStore, Service.prepare_withoutStore]
    cases w.service.prepare id x <;> rfl
  | go i =>
    rw [make_go]
    unfold makeFinding finding?
    dsimp only
    rw [calls_withoutStore]
    cases w.calls[i]? with
    | none => rfl
    | some c =>
      dsimp only [Option.elim_some, Option.bind_some]
      cases hat : c.stage with
      | arrived =>
        obtain ⟨store, hservice, -, -⟩ := w.service.lookUp_eq c.key c.request.id
        unfold go look
        rw [hat]
        dsimp only
        rw [hservice]
        rfl
      | looked | entered | begun | ended | kept => exact w.withoutStore_go i (by rw [hat]; exact nofun)
  | giveUp i =>
    show (w.make (.giveUp i)).withoutStore = w.withoutStore.make (.giveUp i)
    rw [make_giveUp, make_giveUp, calls_withoutStore]
    cases w.calls[i]? <;> rfl
  | urge i =>
    show (w.make (.urge i)).withoutStore = w.withoutStore.make (.urge i)
    rw [make_urge, make_urge, service_withoutStore, Service.errands_withoutStore]
    cases w.service.errands[i]? with
    | none => rfl
    | some e =>
      exact congrArg (fun s => ({ w with service := s } : Traffic)) ((withoutErrand w.service i).withoutStore_urge e)
  | follow i =>
    show (w.make (.follow i)).withoutStore = w.withoutStore.make (.follow i)
    rw [make_follow, make_follow, service_withoutStore, Service.errands_withoutStore]
    cases w.service.errands[i]? with
    | none => rfl
    | some e => exact w.withoutStore_follow i e
  | act | moveTo | stopRun | pool | others => rfl

end Without

theorem makeFinding_congr {w w' : Traffic} (h : w.withoutStore = w'.withoutStore) {m : Move}
    (hfinding : w.finding? m = w'.finding? m) : (w.make m).withoutStore = (w'.make m).withoutStore := by
  rw [withoutStore_make, withoutStore_make, h, hfinding]

/-- A request that looks into the store finds something else in one course than in the other. -/
def FindsElse (w w' : Traffic) (i : Nat) : Prop :=
  ∃ c, w.calls[i]? = some c ∧ w'.calls[i]? = some c ∧ c.stage = .arrived ∧
    (w.service.lookUp c.key c.request.id).1 ≠ (w'.service.lookUp c.key c.request.id).1

theorem calls_of_withoutStore {w w' : Traffic} (h : w.withoutStore = w'.withoutStore) : w.calls = w'.calls := by
  have hcalls := congrArg Traffic.calls h
  exact hcalls

/-- What is found differs only where a request looks into the store. -/
theorem exists_findsElse {w w' : Traffic} (h : w.withoutStore = w'.withoutStore) {m : Move}
    (hdiffer : w.finding? m ≠ w'.finding? m) : ∃ i, m = .go i ∧ FindsElse w w' i := by
  have hcalls := calls_of_withoutStore h
  cases m with
  | go i =>
    refine ⟨i, rfl, ?_⟩
    unfold finding? at hdiffer
    dsimp only at hdiffer
    rw [← hcalls] at hdiffer
    cases hc : w.calls[i]? with
    | none => exact absurd (by rw [hc]; rfl) hdiffer
    | some c =>
      rw [hc, Option.bind_some, Option.bind_some] at hdiffer
      cases hat : c.stage with
      | arrived =>
        rw [hat] at hdiffer
        exact ⟨c, hc, hcalls ▸ hc, hat, hdiffer⟩
      | looked | entered | begun | ended | kept => exact absurd (by rw [hat]) hdiffer
  | arrive | giveUp | urge | follow | act | moveTo | stopRun | pool | others => exact absurd rfl hdiffer

/-- Two courses are the same but for the store; or they are the same up to a move in which a request finds something in
the store of one of them that it does not find in the store of the other. -/
def SameUntilFound (w w' : Traffic) (turns turns' : List Turn) : Prop :=
  (w.run turns).withoutStore = (w'.run turns').withoutStore ∨
    ∃ before t after before' t' after' i, turns = before ++ t :: after ∧ turns' = before' ++ t' :: after' ∧
      t.move = .go i ∧ t'.move = .go i ∧ (w.run before).withoutStore = (w'.run before').withoutStore ∧
      FindsElse ((w.run before).disturb t.store) ((w'.run before').disturb t'.store) i

/-- However the store fails, courses of the same moves are the same until a request finds something else in it. -/
theorem sameUntilFound {turns turns' : List Turn} (hmoves : turns.map Turn.move = turns'.map Turn.move)
    {w w' : Traffic} (h : w.withoutStore = w'.withoutStore) : SameUntilFound w w' turns turns' := by
  induction turns generalizing turns' w w' with
  | nil =>
    obtain rfl : turns' = [] := List.map_eq_nil_iff.1 hmoves.symm
    exact .inl h
  | cons t turns ih =>
    cases turns' with
    | nil => cases hmoves
    | cons t' turns' =>
      obtain ⟨hmove, hrest⟩ := List.cons.inj hmoves
      have hdisturbed : (w.disturb t.store).withoutStore = (w'.disturb t'.store).withoutStore := by
        rw [withoutStore_disturb, withoutStore_disturb, h]
      by_cases hfinding : (w.disturb t.store).finding? t.move = (w'.disturb t'.store).finding? t.move
      · have hstep : (w.step t).withoutStore = (w'.step t').withoutStore := by
          unfold step
          rw [← hmove]
          exact makeFinding_congr hdisturbed hfinding
        refine (ih hrest hstep).imp id ?_
        rintro ⟨before, u, after, before', u', after', i, rfl, rfl, hu, hu', hsame, hfinds⟩
        exact ⟨t :: before, u, after, t' :: before', u', after', i, rfl, rfl, hu, hu', hsame, hfinds⟩
      · obtain ⟨i, hgo, hfinds⟩ := exists_findsElse hdisturbed hfinding
        exact .inr ⟨[], t, turns, [], t', turns', i, rfl, rfl, hgo, hmove ▸ hgo, h, hfinds⟩

end Traffic

end Pseudoscribe
