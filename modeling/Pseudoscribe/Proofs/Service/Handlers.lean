import Pseudoscribe.Proofs.Service.Kept
import Pseudoscribe.Proofs.Tracker.Steps

/-!
# Handlers as courses of moves

What the service does at once when it carries a request out, or takes one in for the background, is one of the courses
that the traffic can take: the moves of this request, and between them those of the requests in the background.
-/

namespace Pseudoscribe

/-! ## The register -/

namespace Register

theorem find?_insert {r r' : Register} {t : TrackedRequest} (h : r.insert t = .ok r') : r'.find? t.id = some t := by
  unfold insert at h
  split at h
  · cases h
  · next hnone =>
    obtain rfl := Except.ok.inj h
    unfold find? at hnone ⊢
    rw [List.find?_append, hnone, Option.none_or, List.find?_singleton, if_pos (beq_self_eq_true _)]

/-- A request that was just taken in can be ended. -/
theorem exists_complete {r r' : Register} {t : TrackedRequest} (h : r.insert t = .ok r')
    (hopen : t.state.isFinished = false) (now : Int) (total : Nat) (a : Assembly) :
    ∃ r'', (r'.setProgress t.id total total).complete now t.id a = .ok r'' := by
  unfold complete finish
  rw [find?_setProgress, find?_insert h, Option.map_some]
  dsimp only
  rw [hopen]
  exact ⟨_, rfl⟩

end Register

/-! ## Errands in their order -/

namespace Service

/-- The service with further errands before its own. -/
def before (s : Service) (errands : List Errand) : Service := { s with errands := errands ++ s.errands }

section Before

variable (s : Service) (errands : List Errand)

@[simp] theorem engine_before : (s.before errands).engine = s.engine := rfl

@[simp] theorem now_before : (s.before errands).now = s.now := rfl

@[simp] theorem isCancelled_before (id : RequestId) : (s.before errands).isCancelled id = s.isCancelled id := rfl

theorem record_before (step : Register → Except TrackerError Register) :
    (s.before errands).record step = (s.record step).before errands := by
  rw [record_eq, record_eq]
  rfl

theorem keep_before (key : String) (a : Assembly) : (s.before errands).keep key a = (s.keep key a).before errands := by
  rw [keep_eq, keep_eq]
  rfl

theorem now_keep (key : String) (a : Assembly) : (s.keep key a).now = s.now := by
  rw [keep_eq]
  rfl

theorem urge_before (e : Errand) : (s.before errands).urge e = (s.urge e).before errands := by
  unfold urge
  dsimp only
  cases e.run with
  | none =>
    dsimp only
    rw [now_before, record_before]
    generalize s.record (·.setState s.now e.request.id .running) = s'
    rw [isCancelled_before, engine_before]
    generalize s'.engine.start e.request (s'.isCancelled e.request.id) = started
    obtain ⟨begun, engine⟩ := started
    cases begun with
    | ok number => exact congrArg (fun es => { s' with engine, errands := es }) (List.append_assoc _ _ _)
    | error err => exact record_before { s' with engine } errands _
  | some run =>
    dsimp only
    rw [isCancelled_before]
    split
    · exact congrArg (fun es => { s with engine := s.engine.cancel run, errands := es }) (List.append_assoc _ _ _)
    · exact congrArg (fun es => { s with errands := es }) (List.append_assoc _ _ _)

theorem follow_before (e : Errand) : (s.before errands).follow e = (s.follow e).before errands := by
  unfold follow
  dsimp only
  rw [engine_before]
  cases e.run.bind s.engine.run? with
  | none => exact congrArg (fun es => { s with errands := es }) (List.append_assoc _ _ _)
  | some r =>
    dsimp only
    cases r.result with
    | some a =>
      dsimp only
      rw [← record_before, ← keep_before]
      rfl
    | none =>
      dsimp only
      split
      · exact record_before _ _ _
      · exact congrArg (fun es => { s with
          register := s.register.setProgress e.request.id r.completed r.total
          errands := es }) (List.append_assoc _ _ _)

end Before

/-- An errand whose result is there ends with it. -/
theorem follow_of_result {s : Service} {e : Errand} {run : Nat} {a : Assembly} (hrun : e.run = some run)
    (ha : s.engine.result? run = some a) : s.follow e =
      ({ s with register := s.register.setProgress e.request.id a.doneChunks a.chunks.length }.keep e.key a).record
        (·.complete s.now e.request.id a) := by
  obtain ⟨r, hr, hresult⟩ := Option.bind_eq_some_iff.1 ha
  unfold follow
  rw [hrun, Option.bind_some, hr]
  dsimp only
  rw [hresult]
  rfl

def urgeAll (s : Service) : Service := s.errands.foldl urge { s with errands := [] }

def followAll (s : Service) : Service := s.errands.foldl follow { s with errands := [] }

def attendAll (s : Service) : Service := s.sockets.foldl attend { s with sockets := [] }

/-- What is due, part by part. -/
theorem settle_eq (s : Service) :
    s.settle = (followAll { s.urgeAll with engine := s.urgeAll.engine.settle }).attendAll := rfl

/-- Those who watch are served without anything else. -/
theorem attendAll_eq (s : Service) : ∃ publisher sockets,
    s.attendAll = { s with engine := { s.engine with publisher }, sockets } := by
  have hserve : ∀ (clients : List (String × Socket)) (s : Service), ∃ publisher sockets,
      clients.foldl attend s = { s with engine := { s.engine with publisher }, sockets } := by
    intro clients
    induction clients with
    | nil => exact fun s => ⟨s.engine.publisher, s.sockets, rfl⟩
    | cons client clients ih =>
      intro s
      obtain ⟨publisher, sockets, h⟩ := ih (s.attend client)
      exact ⟨publisher, sockets, h.trans rfl⟩
  exact hserve s.sockets { s with sockets := [] }

theorem before_errands (s : Service) : ({ s with errands := [] } : Service).before s.errands = s :=
  congrArg (fun errands => { s with errands }) (List.append_nil _)

end Service

/-! ## Courses -/

namespace Traffic

/-- The traffic comes from one state to another in some moves, while the store does not fail. -/
def Leads (w w' : Traffic) : Prop := ∃ moves : List Move, w.run (moves.map fun move => { move }) = w'

theorem Leads.refl (w : Traffic) : w.Leads w := ⟨[], rfl⟩

theorem Leads.trans {w w' w'' : Traffic} (h : w.Leads w') (h' : w'.Leads w'') : w.Leads w'' := by
  obtain ⟨moves, rfl⟩ := h
  obtain ⟨moves', rfl⟩ := h'
  exact ⟨moves ++ moves', by rw [List.map_append, run_append]⟩

theorem leads_make (w : Traffic) (m : Move) : w.Leads (w.make m) := ⟨[m], rfl⟩

variable (s : Service) (calls : List Call) (log : List Entry)

theorem leads_settleEngine : Leads ⟨s, calls, log⟩ ⟨{ s with engine := s.engine.settle }, calls, log⟩ := by
  have hsteps : ∀ fuel e, Leads ⟨{ s with engine := e }, calls, log⟩
      ⟨{ s with engine := e.settleFor fuel }, calls, log⟩ := by
    intro fuel
    induction fuel with
    | zero => exact fun e => .refl _
    | succ fuel ih =>
      intro e
      unfold Engine.settleFor
      split
      · next e' hact =>
        have hmake := leads_make ⟨{ s with engine := e }, calls, log⟩ .act
        rw [show make ⟨{ s with engine := e }, calls, log⟩ .act =
          ⟨{ s with engine := e.act?.getD e }, calls, log⟩ from rfl, hact] at hmake
        exact hmake.trans (ih e')
      · exact .refl _
  exact hsteps _ s.engine

theorem leads_urge (errands : List Errand) :
    Leads ⟨s.before errands, calls, log⟩ ⟨errands.foldl Service.urge s, calls, log⟩ := by
  induction errands generalizing s with
  | nil => exact .refl _
  | cons e errands ih =>
    have hmake := leads_make ⟨s.before (e :: errands), calls, log⟩ (.urge 0)
    rw [show make ⟨s.before (e :: errands), calls, log⟩ (.urge 0) = ⟨(s.before errands).urge e, calls, log⟩ from rfl,
      Service.urge_before] at hmake
    exact hmake.trans (ih _)

theorem getElem?_concat (c : Call) : (calls ++ [c])[calls.length]? = some c := List.getElem?_concat_length

theorem setStage_last (c : Call) (stage : CallStage) :
    setStage ⟨s, calls ++ [c], log⟩ calls.length c stage = ⟨s, calls ++ [{ c with stage }], log⟩ := by
  unfold setStage
  rw [List.set_append_right _ _ (le_refl _), Nat.sub_self]
  rfl

theorem drop_last (c : Call) : drop ⟨s, calls ++ [c], log⟩ calls.length = ⟨s, calls, log⟩ := by
  unfold drop
  rw [List.eraseIdx_append_of_length_le (le_refl _), Nat.sub_self]
  exact congrArg (fun calls => Traffic.mk s calls log) (List.append_nil _)

/-- The last request goes on. -/
theorem leads_go (c : Call) : Leads ⟨s, calls ++ [c], log⟩ (go ⟨s, calls ++ [c], log⟩ calls.length c) := by
  have hmake := leads_make ⟨s, calls ++ [c], log⟩ (.go calls.length)
  rw [make_go, show (Traffic.mk s (calls ++ [c]) log).calls[calls.length]? = some c from getElem?_concat calls c]
    at hmake
  exact hmake

/-- The last request, whose result is there, goes on until its result is kept. -/
theorem leads_keep {c : Call} {run : Nat} {a : Assembly} (hstage : c.stage = .ended run a) : ∃ log',
    Leads ⟨s, calls ++ [c], log⟩ ⟨s.keep c.key a, calls ++ [{ c with stage := .kept run a }], log'⟩ := by
  have hgo := leads_go s calls log c
  unfold go at hgo
  rw [hstage] at hgo
  dsimp only at hgo
  unfold keep at hgo
  dsimp only at hgo
  rw [setStage_last] at hgo
  split at hgo
  · exact ⟨_, hgo⟩
  · exact ⟨_, hgo⟩

/-- The last request, which nobody waits for, ends with its result. -/
theorem leads_tell {c : Call} {run : Nat} {a : Assembly} (hstage : c.stage = .kept run a) (hwaits : c.waits = false) :
    Leads ⟨s, calls ++ [c], log⟩ ⟨s.record (·.complete s.now c.request.id a), calls, log⟩ := by
  have hgo := leads_go s calls log c
  unfold go at hgo
  rw [hstage] at hgo
  dsimp only at hgo
  unfold tell at hgo
  rw [hwaits] at hgo
  dsimp only at hgo
  rwa [if_neg Bool.false_ne_true, drop_last] at hgo

theorem leads_follow_one (e : Errand) (errands : List Errand) : ∃ log',
    Leads ⟨s.before (e :: errands), calls, log⟩ ⟨(s.follow e).before errands, calls, log'⟩ := by
  have hmake := leads_make ⟨s.before (e :: errands), calls, log⟩ (.follow 0)
  rw [show make ⟨s.before (e :: errands), calls, log⟩ (.follow 0) =
    follow ⟨s.before (e :: errands), calls, log⟩ 0 e from rfl] at hmake
  unfold follow at hmake
  cases hfound : e.run.bind fun run => (s.engine.result? run).map fun a => (run, a) with
  | none =>
    rw [Service.engine_before, hfound] at hmake
    refine ⟨log, ?_⟩
    rw [← Service.follow_before]
    exact hmake
  | some found =>
    obtain ⟨run, a⟩ := found
    rw [Service.engine_before, hfound] at hmake
    obtain ⟨run', hrun, hresult⟩ := Option.bind_eq_some_iff.1 hfound
    obtain ⟨a', ha, heq⟩ := Option.map_eq_some_iff.1 hresult
    obtain ⟨rfl, rfl⟩ := Prod.mk.inj heq
    rw [Service.follow_of_result hrun ha]
    dsimp only at hmake
    let c : Call := { waits := false, request := e.request, key := e.key, stage := .ended run' a' }
    let s₁ : Service := { s with
      register := s.register.setProgress e.request.id a'.doneChunks a'.chunks.length }
    have hended : Leads ⟨s.before (e :: errands), calls, log⟩ ⟨s₁.before errands, calls ++ [c], log⟩ := hmake
    obtain ⟨log', hkept⟩ := leads_keep (s₁.before errands) calls log (show c.stage = .ended run' a' from rfl)
    have htold := leads_tell ((s₁.before errands).keep e.key a') calls log'
      (show ({ c with stage := .kept run' a' } : Call).stage = .kept run' a' from rfl) rfl
    rw [Service.now_keep, Service.keep_before, Service.record_before] at htold
    rw [Service.keep_before] at hkept
    exact ⟨log', (hended.trans hkept).trans htold⟩

theorem leads_follow (errands : List Errand) : ∃ log',
    Leads ⟨s.before errands, calls, log⟩ ⟨errands.foldl Service.follow s, calls, log'⟩ := by
  induction errands generalizing s log with
  | nil => exact ⟨log, .refl _⟩
  | cons e errands ih =>
    obtain ⟨log', hone⟩ := leads_follow_one s calls log e errands
    obtain ⟨log'', hrest⟩ := ih (s.follow e) log'
    exact ⟨log'', hone.trans hrest⟩

/-- All steps that are due are moves of the traffic. -/
theorem leads_settle : ∃ log', Leads ⟨s, calls, log⟩ ⟨s.settle, calls, log'⟩ := by
  have hurged : Leads ⟨s, calls, log⟩ ⟨s.urgeAll, calls, log⟩ := by
    have h := leads_urge { s with errands := [] } calls log s.errands
    rwa [Service.before_errands] at h
  have hworked := hurged.trans (leads_settleEngine s.urgeAll calls log)
  rw [Service.settle_eq]
  generalize ({ s.urgeAll with engine := s.urgeAll.engine.settle } : Service) = s' at hworked ⊢
  obtain ⟨log', hfollowed⟩ := leads_follow { s' with errands := [] } calls log s'.errands
  rw [Service.before_errands] at hfollowed
  obtain ⟨publisher, sockets, hattended⟩ := s'.followAll.attendAll_eq
  rw [hattended]
  exact ⟨log', (hworked.trans hfollowed).trans (leads_make _ (.others s'.followAll.register publisher sockets))⟩

theorem leads_runFor (stop : Service → Bool) (limit : Option Nat) (fuel : Nat) : ∃ log',
    Leads ⟨s, calls, log⟩ ⟨s.runFor stop limit fuel, calls, log'⟩ := by
  induction fuel generalizing s log with
  | zero => exact ⟨log, .refl _⟩
  | succ fuel ih =>
    obtain ⟨log', hsettled⟩ := leads_settle s calls log
    unfold Service.runFor
    dsimp only
    split
    · exact ⟨log', hsettled⟩
    · split
      · next time _ =>
        obtain ⟨log'', hrest⟩ := ih (s.settle.moveTo time) log'
        exact ⟨log'', (hsettled.trans (leads_make _ (.moveTo time))).trans hrest⟩
      · exact ⟨log', hsettled⟩

theorem leads_runUntil (stop : Service → Bool) (limit : Option Nat) : ∃ log',
    Leads ⟨s, calls, log⟩ ⟨s.runUntil stop limit, calls, log'⟩ := by
  obtain ⟨log', hsettled⟩ := leads_settle s calls log
  obtain ⟨log'', hrest⟩ := leads_runFor s.settle calls log' stop limit
    (s.settle.engine.stepsLeft + s.settle.sockets.length + 2)
  exact ⟨log'', hsettled.trans hrest⟩

/-! ## The handlers -/

/-- What was written down is the answer to a caller who waited. -/
def Entry.Answers : Entry → Except Service.NoResult (Assembly × Bool) → Prop
  | .told _ a cached, answer => answer = .ok (a, cached)
  | .refused _ reason, answer => answer = .error reason
  | _, _ => False

/-- What was written down is the answer to a request for the background. -/
def Entry.TakesIn : Entry → Except ServiceError Bool → Prop
  | .taken _ found, answer => answer = .ok found.isSome
  | .refused _ reason, answer => ∃ e, reason = .refused e ∧ answer = .error e
  | _, _ => False

/-- The store is asked for the result of the last request. -/
theorem leads_look {c : Call} (hstage : c.stage = .arrived) : Leads ⟨s, calls ++ [c], log⟩
    ⟨(s.lookUp c.key c.request.id).2, calls ++ [{ c with stage := .looked (s.lookUp c.key c.request.id).1 }], log⟩ := by
  have hgo := leads_go s calls log c
  unfold go at hgo
  rw [hstage] at hgo
  dsimp only at hgo
  unfold look at hgo
  rwa [setStage_last] at hgo

/-- The caller of the last request is told what was in the store. -/
theorem leads_hit {c : Call} {a : Assembly} (hstage : c.stage = .looked (some a)) (hwaits : c.waits = true) :
    Leads ⟨s, calls ++ [c], log⟩ ⟨s, calls, .told c.request a true :: log⟩ := by
  have hgo := leads_go s calls log c
  unfold go at hgo
  rw [hstage, hwaits] at hgo
  dsimp only at hgo
  rwa [if_pos rfl, drop_last] at hgo

/-- A run is begun for the last request. -/
theorem leads_begin {c : Call} (hstage : c.stage = .looked none) (hwaits : c.waits = true) :
    Leads ⟨s, calls ++ [c], log⟩ (begin ⟨s, calls ++ [c], log⟩ calls.length c) := by
  have hgo := leads_go s calls log c
  unfold go at hgo
  rw [hstage, hwaits] at hgo
  exact hgo

/-- The run of the last request has its result. -/
theorem leads_end {c : Call} {run : Nat} {a : Assembly} (hstage : c.stage = .begun run)
    (ha : s.engine.result? run = some a) :
    Leads ⟨s, calls ++ [c], log⟩ ⟨s, calls ++ [{ c with stage := .ended run a }], log⟩ := by
  have hgo := leads_go s calls log c
  unfold go at hgo
  rw [hstage] at hgo
  dsimp only at hgo
  rw [ha] at hgo
  dsimp only at hgo
  rwa [setStage_last] at hgo

/-- The caller of the last request is told what has come of its run. -/
theorem leads_answer {c : Call} {run : Nat} {a : Assembly} (hstage : c.stage = .kept run a) (hwaits : c.waits = true) :
    Leads ⟨s, calls ++ [c], log⟩ ⟨s, calls, .told c.request a false :: log⟩ := by
  have hgo := leads_go s calls log c
  unfold go at hgo
  rw [hstage] at hgo
  dsimp only at hgo
  unfold tell at hgo
  rw [hwaits] at hgo
  dsimp only at hgo
  rwa [if_pos rfl, drop_last] at hgo

/-- The last request is given up. -/
theorem leads_giveUp (c : Call) :
    Leads ⟨s, calls ++ [c], log⟩ ⟨s, calls, .refused c.request.id .stranded :: log⟩ := by
  have hmake := leads_make ⟨s, calls ++ [c], log⟩ (.giveUp calls.length)
  rw [make_giveUp, show (Traffic.mk s (calls ++ [c]) log).calls[calls.length]? = some c from getElem?_concat calls c]
    at hmake
  dsimp only [Option.elim_some] at hmake
  rwa [drop_last] at hmake

/-- A request that is carried out while its caller waits goes through the stages of a request. -/
theorem leads_convert (id : RequestId) (x : Submission) : ∃ entry log',
    Leads ⟨s, calls, log⟩ ⟨(s.convert id x).2, calls, entry :: log'⟩ ∧ entry.Answers (s.convert id x).1 := by
  have harrive := leads_make ⟨s, calls, log⟩ (.arrive true id x)
  rw [make_arrive] at harrive
  unfold arrive at harrive
  dsimp only at harrive
  unfold Service.convert
  cases hprepare : s.prepare id x with
  | error e =>
    rw [hprepare] at harrive
    exact ⟨_, _, harrive, rfl⟩
  | ok prepared =>
    obtain ⟨request, key⟩ := prepared
    rw [hprepare] at harrive
    obtain ⟨rfl, -⟩ := Service.prepare_ok hprepare
    dsimp only at harrive ⊢
    have hlooked := harrive.trans (leads_look s calls log (c := { waits := true, request, key }) rfl)
    rcases hlook : s.lookUp key request.id with ⟨found, s₁⟩
    rw [hlook] at hlooked
    dsimp only at hlooked
    cases found with
    | some a => exact ⟨_, _, hlooked.trans (leads_hit s₁ calls log rfl rfl), rfl⟩
    | none =>
      have hbegun := hlooked.trans (leads_begin s₁ calls log rfl rfl)
      unfold begin at hbegun
      dsimp only at hbegun ⊢
      rcases hstart : s₁.engine.start request false with ⟨started, engine⟩
      rw [hstart] at hbegun
      cases started with
      | error e =>
        dsimp only at hbegun ⊢
        rw [drop_last] at hbegun
        exact ⟨_, _, hbegun, rfl⟩
      | ok number =>
        dsimp only at hbegun ⊢
        rw [setStage_last] at hbegun
        obtain ⟨log', hran⟩ := leads_runUntil { s₁ with engine }
          (calls ++ [{ waits := true, request, key, stage := .begun number }]) log
          (fun s => s.engine.isDone number) none
        have hwaited := hbegun.trans hran
        generalize ({ s₁ with engine } : Service).runUntil (fun s => s.engine.isDone number) none = s₂ at hwaited ⊢
        cases hresult : s₂.engine.result? number with
        | none => exact ⟨_, _, hwaited.trans (leads_giveUp s₂ calls log' _), rfl⟩
        | some a =>
          have hended := hwaited.trans (leads_end s₂ calls log' rfl hresult)
          obtain ⟨log'', hkept⟩ := leads_keep s₂ calls log'
            (c := { waits := true, request, key, stage := .ended number a }) rfl
          exact ⟨_, _, (hended.trans hkept).trans (leads_answer _ calls log'' rfl rfl), rfl⟩

/-- The last request, which is for the background, is put into the register. -/
theorem leads_enter {c : Call} {found : Option Assembly} (hstage : c.stage = .looked found) (hwaits : c.waits = false) :
    Leads ⟨s, calls ++ [c], log⟩ (enter ⟨s, calls ++ [c], log⟩ calls.length c found) := by
  have hgo := leads_go s calls log c
  unfold go at hgo
  rw [hstage, hwaits] at hgo
  exact hgo

/-- The last request, whose result was in the store, ends with it. -/
theorem leads_complete {c : Call} {a : Assembly} {register : Register} (hstage : c.stage = .entered a)
    (hcomplete : s.register.complete s.now c.request.id a = .ok register) :
    Leads ⟨s, calls ++ [c], log⟩ ⟨{ s with register }, calls, .taken c.request (some a) :: log⟩ := by
  have hgo := leads_go s calls log c
  unfold go at hgo
  rw [hstage] at hgo
  dsimp only at hgo
  unfold completeFound at hgo
  dsimp only at hgo
  rw [hcomplete] at hgo
  dsimp only at hgo
  rwa [drop_last] at hgo

/-- A request that is taken in for the background goes through the stages of a request. -/
theorem leads_submit (id : RequestId) (x : Submission) : ∃ entry log',
    Leads ⟨s, calls, log⟩ ⟨(s.submit id x).2, calls, entry :: log'⟩ ∧ entry.TakesIn (s.submit id x).1 := by
  have harrive := leads_make ⟨s, calls, log⟩ (.arrive false id x)
  rw [make_arrive] at harrive
  unfold arrive at harrive
  dsimp only at harrive
  unfold Service.submit
  cases hprepare : s.prepare id x with
  | error e =>
    rw [hprepare] at harrive
    exact ⟨_, _, harrive, e, rfl, rfl⟩
  | ok prepared =>
    obtain ⟨request, key⟩ := prepared
    rw [hprepare] at harrive
    obtain ⟨rfl, -⟩ := Service.prepare_ok hprepare
    dsimp only at harrive ⊢
    have hlooked := harrive.trans (leads_look s calls log (c := { waits := false, request, key }) rfl)
    obtain ⟨store, hservice, -, -⟩ := s.lookUp_eq key request.id
    rcases hlook : s.lookUp key request.id with ⟨found, s₁⟩
    rw [hlook] at hlooked hservice
    dsimp only at hlooked hservice
    have hentered := hlooked.trans (leads_enter s₁ calls log rfl rfl)
    unfold enter at hentered
    dsimp only at hentered ⊢
    rw [show s₁.now = s.now from hservice ▸ rfl] at hentered
    generalize htracked : ({ id := request.id, language := request.language.name, createdAt := s.now } : TrackedRequest)
      = tracked at hentered ⊢
    cases hinsert : s₁.register.insert tracked with
    | error e =>
      rw [hinsert] at hentered
      dsimp only at hentered ⊢
      rw [drop_last] at hentered
      exact ⟨_, _, hentered, _, rfl, rfl⟩
    | ok register =>
      rw [hinsert] at hentered
      cases found with
      | none =>
        dsimp only at hentered ⊢
        rw [drop_last] at hentered
        exact ⟨_, _, hentered, rfl⟩
      | some a =>
        dsimp only at hentered ⊢
        rw [setStage_last] at hentered
        subst htracked
        obtain ⟨register', hcomplete⟩ := Register.exists_complete hinsert rfl s.now a.chunks.length a
        have hnow : s₁.now = s.now := hservice ▸ rfl
        generalize hs₂ : ({ s₁ with register := register.setProgress request.id a.chunks.length a.chunks.length } :
          Service) = s₂ at hentered ⊢
        have hcomplete' : s₂.register.complete s₂.now request.id a = .ok register' := by
          subst hs₂
          exact (congrArg (fun now => Register.complete _ now _ _) hnow).trans hcomplete
        have hrecord : s₂.record (·.complete s₂.now request.id a) = { s₂ with register := register' } := by
          unfold Service.record
          dsimp only
          rw [hcomplete']
        rw [hrecord]
        exact ⟨_, _, hentered.trans (leads_complete s₂ calls log rfl hcomplete'), rfl⟩

end Traffic

end Pseudoscribe
