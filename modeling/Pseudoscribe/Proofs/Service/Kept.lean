import Pseudoscribe.Proofs.Run.Lasting
import Pseudoscribe.Proofs.Service.Traffic

/-!
# What is kept, and what is told of it

Whatever happens in the traffic, the store holds whole results only: each is a success, was not stopped, and came of a
run for a request with its key.  A result that is told from the store was kept before, and only the identifier is new.
-/

namespace Pseudoscribe

/-! ## The store -/

namespace ResultStore

theorem mem_insertEntry_or {e x : StoredResult} {es : List StoredResult} (h : x ∈ insertEntry e es) :
    x = e ∨ x ∈ es := by
  induction es with
  | nil => exact .inl (List.mem_singleton.1 h)
  | cons y ys ih =>
    unfold insertEntry at h
    split at h
    · rcases List.mem_cons.1 h with rfl | h
      · exact .inl rfl
      · exact .inr (List.mem_cons_of_mem _ h)
    · split at h
      · exact List.mem_cons.1 h
      · rcases List.mem_cons.1 h with rfl | h
        · exact .inr List.mem_cons_self
        · exact (ih h).imp id (List.mem_cons_of_mem _)

theorem mem_of_evict {s : ResultStore} {x : StoredResult} (h : x ∈ s.evict.entries) : x ∈ s.entries := by
  unfold evict at h
  split at h
  · exact h
  · exact (List.mem_filter.1 h).1

theorem mem_of_shrink {fuel : Nat} {s : ResultStore} {x : StoredResult} (h : x ∈ (shrink fuel s).entries) :
    x ∈ s.entries := by
  induction fuel generalizing s with
  | zero => exact h
  | succ fuel ih =>
    unfold shrink at h
    split at h
    · exact mem_of_evict (ih h)
    · exact h

theorem mem_of_save {s : ResultStore} {key : String} {value : Assembly} {x : StoredResult}
    (h : x ∈ (s.save key value).entries) : (x.key = key ∧ x.value = some value) ∨ x ∈ s.entries := by
  rcases mem_insertEntry_or (mem_of_shrink h) with rfl | h
  · exact .inl ⟨rfl, rfl⟩
  · exact .inr h

theorem mem_of_retrieve {s : ResultStore} {key : String} {x : StoredResult} (h : x ∈ (s.retrieve key).2.entries) :
    ∃ y ∈ s.entries, y.key = x.key ∧ y.value = x.value := by
  unfold retrieve at h
  split at h
  · exact ⟨x, h, rfl, rfl⟩
  · next e he =>
    split at h
    · exact ⟨x, h, rfl, rfl⟩
    · rcases mem_insertEntry_or h with rfl | h
      · exact ⟨e, List.mem_of_find?_eq_some he, rfl, rfl⟩
      · exact ⟨x, h, rfl, rfl⟩

theorem mem_of_retrieve_ok {s : ResultStore} {key : String} {a : Assembly}
    (h : (s.retrieve key).1.toOption.join = some a) : ∃ x ∈ s.entries, x.key = key ∧ x.value = some a := by
  unfold retrieve at h
  split at h
  · cases h
  · next e he =>
    split at h
    · cases h
    · next value hvalue =>
      obtain rfl := Option.some.inj h
      have hfound : s.entries.find? (·.key == key) = some e := he
      have hkey := List.find?_some hfound
      exact ⟨e, List.mem_of_find?_eq_some he, eq_of_beq hkey, hvalue⟩

end ResultStore

/-! ## What is known of a request -/

/-- A run carries a request out. -/
def Engine.CarriesOut (e : Engine) (run : Nat) (request : Request) : Prop :=
  ∃ r, e.run? run = some r ∧ r.request = request

/-- A run carries a request out, and this has come of it. -/
def Engine.Yields (e : Engine) (run : Nat) (request : Request) (a : Assembly) : Prop :=
  ∃ r, e.run? run = some r ∧ r.request = request ∧ r.result = some a

/-- A success that was not stopped. -/
structure Assembly.IsWhole (a : Assembly) : Prop where
  success : a.success = true
  going : a.cancelled = false

section GoesOn

variable {e e' : Engine} (h : e.GoesOn e')

include h

theorem Engine.CarriesOut.goesOn {run : Nat} {request : Request} (hrun : e.CarriesOut run request) :
    e'.CarriesOut run request := by
  obtain ⟨r, hr, rfl⟩ := hrun
  obtain ⟨r', hr', hgoes⟩ := h.runs run r hr
  exact ⟨r', hr', hgoes.request⟩

theorem Engine.Yields.goesOn {run : Nat} {request : Request} {a : Assembly} (hrun : e.Yields run request a) :
    e'.Yields run request a := by
  obtain ⟨r, hr, rfl, ha⟩ := hrun
  obtain ⟨r', hr', hgoes⟩ := h.runs run r hr
  exact ⟨r', hr', hgoes.request, hgoes.result a ha⟩

end GoesOn

theorem Engine.CarriesOut.yields {e : Engine} {run : Nat} {request : Request} {a : Assembly}
    (h : e.CarriesOut run request) (ha : e.result? run = some a) : e.Yields run request a := by
  obtain ⟨r, hr, hrequest⟩ := h
  refine ⟨r, hr, hrequest, ?_⟩
  unfold result? at ha
  rwa [hr] at ha

namespace Traffic

/-- A result was kept under a key before, and this is it for another request. -/
def Entry.Repeats (before : List Entry) (key : String) (id : RequestId) (a : Assembly) : Prop :=
  ∃ b run, Entry.kept key b run ∈ before ∧ a = { b with id }

theorem Entry.Repeats.mono {before after : List Entry} {key : String} {id : RequestId} {a : Assembly}
    (h : Repeats before key id a) (hsub : before ⊆ after) : Repeats after key id a := by
  obtain ⟨b, run, hmem, ha⟩ := h
  exact ⟨b, run, hsub hmem, ha⟩

/-- What was written down is right, given what was written down before. -/
def Entry.Sound (s : Service) (before : List Entry) : Entry → Prop
  | .kept key a run => a.IsWhole ∧ ∃ request, s.keyOf request = .ok key ∧ s.engine.Yields run request a
  | .told request a true => ∃ key, s.keyOf request = .ok key ∧ Repeats before key request.id a
  | .told request a false => ∃ run, s.engine.Yields run request a
  | .taken request found => ∀ a ∈ found, ∃ key, s.keyOf request = .ok key ∧ Repeats before key request.id a
  | .refused _ _ => True

end Traffic

/-- What is known of a request at its stage. -/
def CallStage.Sound (e : Engine) (log : List Traffic.Entry) (request : Request) (key : String) : CallStage → Prop
  | .arrived => True
  | .looked found => ∀ a ∈ found, Traffic.Entry.Repeats log key request.id a
  | .entered a => Traffic.Entry.Repeats log key request.id a
  | .begun run => e.CarriesOut run request
  | .ended run a => e.Yields run request a
  | .kept run a => e.Yields run request a

structure Call.Sound (s : Service) (log : List Traffic.Entry) (c : Call) : Prop where
  key : s.keyOf c.request = .ok c.key
  stage : c.stage.Sound s.engine log c.request c.key

structure Errand.Sound (s : Service) (e : Errand) : Prop where
  key : s.keyOf e.request = .ok e.key
  run : ∀ run, e.run = some run → s.engine.CarriesOut run e.request

section GoesOn

variable {s s' : Service} (h : s.engine.GoesOn s'.engine)

include h

theorem Service.keyOf_goesOn (r : Request) : s'.keyOf r = s.keyOf r := by
  unfold keyOf
  rw [h.profiles]

theorem Traffic.Entry.Sound.goesOn {before : List Traffic.Entry} {x : Traffic.Entry} (hx : x.Sound s before) :
    x.Sound s' before := by
  cases x with
  | kept key a run =>
    obtain ⟨hwhole, request, hkey, hyields⟩ := hx
    exact ⟨hwhole, request, (Service.keyOf_goesOn h request).trans hkey, hyields.goesOn h⟩
  | told request a cached =>
    cases cached with
    | true =>
      obtain ⟨key, hkey, hrepeats⟩ := hx
      exact ⟨key, (Service.keyOf_goesOn h request).trans hkey, hrepeats⟩
    | false =>
      obtain ⟨run, hyields⟩ := hx
      exact ⟨run, hyields.goesOn h⟩
  | taken request found =>
    intro a ha
    obtain ⟨key, hkey, hrepeats⟩ := hx a ha
    exact ⟨key, (Service.keyOf_goesOn h request).trans hkey, hrepeats⟩
  | refused id reason => trivial

theorem Call.Sound.goesOn {log : List Traffic.Entry} {c : Call} (hc : c.Sound s log) : c.Sound s' log := by
  refine ⟨(Service.keyOf_goesOn h _).trans hc.key, ?_⟩
  have hstage := hc.stage
  cases hat : c.stage with
  | arrived => trivial
  | looked found =>
    rw [hat] at hstage
    exact hstage
  | entered a =>
    rw [hat] at hstage
    exact hstage
  | begun run =>
    rw [hat] at hstage
    exact Engine.CarriesOut.goesOn h hstage
  | ended run a =>
    rw [hat] at hstage
    exact Engine.Yields.goesOn h hstage
  | kept run a =>
    rw [hat] at hstage
    exact Engine.Yields.goesOn h hstage

theorem Errand.Sound.goesOn {e : Errand} (he : e.Sound s) : e.Sound s' :=
  ⟨(Service.keyOf_goesOn h _).trans he.key, fun run hrun => (he.run run hrun).goesOn h⟩

end GoesOn

theorem CallStage.Sound.mono {e : Engine} {log log' : List Traffic.Entry} {request : Request} {key : String}
    {stage : CallStage} (h : stage.Sound e log request key) (hsub : log ⊆ log') : stage.Sound e log' request key := by
  cases stage with
  | arrived => trivial
  | looked found => exact fun a ha => (h a ha).mono hsub
  | entered a => exact Traffic.Entry.Repeats.mono h hsub
  | begun run => exact h
  | ended run a => exact h
  | kept run a => exact h

namespace Traffic

/-! ## The invariant -/

theorem hasKept_iff {w : Traffic} {key : String} {a : Assembly} :
    w.hasKept key a = true ↔ ∃ run, Entry.kept key a run ∈ w.log := by
  unfold hasKept
  rw [List.any_eq_true]
  constructor
  · rintro ⟨x, hx, hsame⟩
    cases x with
    | kept k b run =>
      obtain ⟨hk, hb⟩ := Bool.and_eq_true_iff.1 hsame
      obtain rfl := eq_of_beq hk
      obtain rfl := eq_of_beq hb
      exact ⟨run, hx⟩
    | told => cases hsame
    | taken => cases hsame
    | refused => cases hsame
  · rintro ⟨run, hmem⟩
    exact ⟨_, hmem, by simp⟩

theorem accountsFor_iff {w : Traffic} {store : ResultStore} : w.accountsFor store = true ↔
    ∀ x ∈ store.entries, ∀ a, x.value = some a → ∃ run, Entry.kept x.key a run ∈ w.log := by
  unfold accountsFor
  rw [List.all_eq_true]
  refine forall₂_congr fun x _ => ?_
  cases x.value with
  | none => simp
  | some a => simpa using hasKept_iff

/-- Nothing is amiss in the traffic of a service with these profiles. -/
structure Sound (w : Traffic) (p : Profiles) : Prop where
  profiles : w.service.engine.profiles = p
  numbered : w.service.engine.Numbered
  store : ∀ store, w.service.store = some store → w.accountsFor store = true
  calls : ∀ c ∈ w.calls, c.Sound w.service w.log
  errands : ∀ e ∈ w.service.errands, e.Sound w.service
  log : ∀ x before, x :: before <:+ w.log → x.Sound w.service before

section Steps

variable {w : Traffic} {p : Profiles}

/-- The service has gone on, and its store holds nothing that was not kept. -/
theorem Sound.serve (h : w.Sound p) {s : Service} (hgoes : w.service.engine.GoesOn s.engine)
    (hstore : ∀ store, s.store = some store → w.accountsFor store = true) (herrands : ∀ e ∈ s.errands, e.Sound s) :
    Sound { w with service := s } p where
  profiles := hgoes.profiles.trans h.profiles
  numbered := hgoes.numbered h.numbered
  store := hstore
  calls c hc := (h.calls c hc).goesOn hgoes
  errands := herrands
  log x before hx := (h.log x before hx).goesOn hgoes

/-- Something else than the engine has changed in the service. -/
theorem Sound.change (h : w.Sound p) {s : Service} (hengine : s.engine = w.service.engine)
    (hstore : ∀ store, s.store = some store → w.accountsFor store = true)
    (herrands : ∀ e ∈ s.errands, e ∈ w.service.errands ∨ e.Sound w.service) : Sound { w with service := s } p := by
  have hgoes : w.service.engine.GoesOn s.engine := hengine ▸ .refl _
  exact h.serve hgoes hstore fun e he => (herrands e he).elim (fun hmem => (h.errands e hmem).goesOn hgoes)
    fun hsound => hsound.goesOn hgoes

theorem Sound.withEngine (h : w.Sound p) {engine : Engine} (hgoes : w.service.engine.GoesOn engine) :
    (w.withEngine engine).Sound p :=
  h.serve hgoes h.store fun e he => (h.errands e he).goesOn hgoes

theorem Sound.write (h : w.Sound p) {x : Entry} (hx : x.Sound w.service w.log) : (w.write x).Sound p where
  profiles := h.profiles
  numbered := h.numbered
  store store hs := accountsFor_iff.2 fun y hy a ha => by
    obtain ⟨run, hmem⟩ := accountsFor_iff.1 (h.store store hs) y hy a ha
    exact ⟨run, List.mem_cons_of_mem _ hmem⟩
  calls c hc := ⟨(h.calls c hc).key, (h.calls c hc).stage.mono (List.subset_cons_self _ _)⟩
  errands := h.errands
  log y before hy := by
    rcases List.suffix_cons_iff.1 hy with heq | hsuffix
    · obtain ⟨rfl, rfl⟩ := List.cons.inj heq
      exact hx
    · exact h.log y before hsuffix

/-- The requests in the hands of the service are others. -/
theorem Sound.withCalls (h : w.Sound p) {calls : List Call} (hcalls : ∀ c ∈ calls, c.Sound w.service w.log) :
    Sound { w with calls } p := ⟨h.profiles, h.numbered, h.store, hcalls, h.errands, h.log⟩

theorem Sound.drop (h : w.Sound p) (i : Nat) : (w.drop i).Sound p :=
  h.withCalls fun c hc => h.calls c (List.mem_of_mem_eraseIdx hc)

theorem Sound.setStage (h : w.Sound p) (i : Nat) {c : Call} {stage : CallStage}
    (hc : ({ c with stage } : Call).Sound w.service w.log) : (w.setStage i c stage).Sound p :=
  h.withCalls fun c' hc' => by
    rcases List.mem_or_eq_of_mem_set hc' with hmem | rfl
    · exact h.calls c' hmem
    · exact hc

theorem Sound.register (h : w.Sound p) (register : Register) :
    Sound { w with service := { w.service with register } } p :=
  h.change rfl h.store fun _ he => .inl he

end Steps

end Traffic

/-! ## The service -/

namespace Service

theorem record_eq (s : Service) (step : Register → Except TrackerError Register) :
    s.record step = { s with register := (step s.register).toOption.getD s.register } := by
  unfold record
  split
  · next h => rw [h]; rfl
  · next h => rw [h]; rfl

theorem engine_record (s : Service) (step : Register → Except TrackerError Register) :
    (s.record step).engine = s.engine := by rw [record_eq]

theorem store_record (s : Service) (step : Register → Except TrackerError Register) :
    (s.record step).store = s.store := by rw [record_eq]

theorem errands_record (s : Service) (step : Register → Except TrackerError Register) :
    (s.record step).errands = s.errands := by rw [record_eq]

/-- An errand that is urged stays an errand, with its run, or ends. -/
theorem urge_sound {s : Service} {e : Errand} (hnumbered : s.engine.Numbered) (he : e.Sound s) :
    s.engine.GoesOn (s.urge e).engine ∧ (s.urge e).store = s.store ∧
      ∀ e' ∈ (s.urge e).errands, e' ∈ s.errands ∨ e'.Sound (s.urge e) := by
  unfold urge
  dsimp only
  cases hrun : e.run with
  | none =>
    dsimp only
    generalize hs' : s.record (·.setState s.now e.request.id .running) = s'
    have hengine : s'.engine = s.engine := hs' ▸ engine_record s _
    have hstore : s'.store = s.store := hs' ▸ store_record s _
    have herrands : s'.errands = s.errands := hs' ▸ errands_record s _
    rw [hengine]
    obtain ⟨hgoes, hcarries⟩ := Engine.goesOn_start hnumbered e.request (s'.isCancelled e.request.id)
    split
    · next number engine hstart =>
      rw [hstart] at hgoes hcarries
      refine ⟨hgoes, hstore, fun e' he' => ?_⟩
      rcases List.mem_append.1 he' with hmem | hmem
      · exact .inl (herrands ▸ hmem)
      · obtain rfl := List.mem_singleton.1 hmem
        refine .inr ⟨(keyOf_goesOn hgoes e.request).trans he.key, fun run hrun => ?_⟩
        obtain rfl := Option.some.inj hrun
        exact hcarries number rfl
    · next err engine hstart =>
      rw [hstart] at hgoes
      rw [engine_record, store_record, errands_record]
      exact ⟨hgoes, hstore, fun e' he' => .inl (herrands ▸ he')⟩
  | some run =>
    dsimp only
    split
    · have hgoes := Engine.goesOn_of_works (s.engine.works_cancel run)
      refine ⟨hgoes, rfl, fun e' he' => ?_⟩
      rcases List.mem_append.1 he' with hmem | hmem
      · exact .inl hmem
      · obtain rfl := List.mem_singleton.1 hmem
        refine .inr ⟨(keyOf_goesOn hgoes e.request).trans he.key, fun run' hrun' => (he.run run' ?_).goesOn hgoes⟩
        exact hrun.trans hrun'
    · refine ⟨.refl _, rfl, fun e' he' => ?_⟩
      rcases List.mem_append.1 he' with hmem | hmem
      · exact .inl hmem
      · obtain rfl := List.mem_singleton.1 hmem
        exact .inr ⟨he.key, he.run⟩

/-- An errand whose result is not there stays as it is, or ends. -/
theorem follow_sound {s : Service} {e : Errand} (hnone : (e.run.bind fun run => s.engine.result? run) = none) :
    (s.follow e).engine = s.engine ∧ (s.follow e).store = s.store ∧
      ∀ e' ∈ (s.follow e).errands, e' ∈ s.errands ∨ e' = e := by
  have hstays : ∀ e' ∈ s.errands ++ [e], e' ∈ s.errands ∨ e' = e := fun e' he' =>
    (List.mem_append.1 he').imp id List.mem_singleton.1
  unfold follow
  dsimp only
  split
  · exact ⟨rfl, rfl, hstays⟩
  · next r hr =>
    obtain ⟨run, hrun, hfound⟩ := Option.bind_eq_some_iff.1 hr
    rw [hrun, Option.bind_some] at hnone
    unfold Engine.result? at hnone
    rw [hfound, Option.bind_some] at hnone
    rw [hnone]
    dsimp only
    split
    · rw [engine_record, store_record, errands_record]
      exact ⟨rfl, rfl, fun e' he' => .inl he'⟩
    · exact ⟨rfl, rfl, hstays⟩

theorem lookUp_eq (s : Service) (key : String) (id : RequestId) : ∃ store,
    (s.lookUp key id).2 = { s with store } ∧
      (∀ st, store = some st → ∃ st₀, s.store = some st₀ ∧ st = (st₀.retrieve key).2) ∧
      ∀ a, (s.lookUp key id).1 = some a → ∃ st₀ b, s.store = some st₀ ∧
        (st₀.retrieve key).1.toOption.join = some b ∧ a = { b with id } := by
  unfold lookUp
  cases hstore : s.store with
  | none => exact ⟨s.store, rfl, fun st hst => absurd (hstore.symm.trans hst) nofun, nofun⟩
  | some st₀ =>
    refine ⟨_, rfl, fun st hst => ⟨st₀, rfl, (Option.some.inj hst).symm⟩, fun a ha => ?_⟩
    obtain ⟨b, hb, rfl⟩ := Option.map_eq_some_iff.1 ha
    exact ⟨st₀, b, rfl, hb, rfl⟩

theorem keep_eq (s : Service) (key : String) (a : Assembly) : s.keep key a =
    { s with store := if a.success && !a.cancelled then s.store.map (·.save key a) else s.store } := by
  unfold keep
  split <;> rfl

/-- A request that was checked is for its identifier, and comes with its key. -/
theorem prepare_ok {s : Service} {id : RequestId} {x : Submission} {request : Request} {key : String}
    (h : s.prepare id x = .ok (request, key)) : request.id = id ∧ s.keyOf request = .ok key := by
  unfold prepare at h
  dsimp only at h
  generalize (x.language.filter fun l => !Text.isBlank l.toList).getD s.language = language at h
  cases hmade : Request.make id x.source language x.options with
  | error e =>
    rw [hmade] at h
    cases h
  | ok r =>
    rw [hmade] at h
    have hmap : ((s.keyOf r).map fun key => (r, key)).mapError ServiceError.ofRun = .ok (request, key) := h
    cases hkey : s.keyOf r with
    | error e =>
      rw [hkey] at hmap
      cases hmap
    | ok k =>
      rw [hkey] at hmap
      obtain ⟨rfl, rfl⟩ := Prod.mk.inj (Except.ok.inj hmap)
      refine ⟨?_, hkey⟩
      unfold Request.make at hmade
      split at hmade
      · cases hmade
      · split at hmade
        · cases hmade
        · cases hmade
          rfl

end Service

/-! ## Every turn -/

namespace Traffic

section Steps

variable {w : Traffic} {p : Profiles}

theorem Sound.arrive (h : w.Sound p) (waits : Bool) (id : RequestId) (x : Submission) :
    (w.arrive waits id x).Sound p := by
  unfold Traffic.arrive
  split
  · exact h.write trivial
  · next request key hprepare =>
    refine h.withCalls fun c hc => ?_
    rcases List.mem_append.1 hc with hc | hc
    · exact h.calls c hc
    · obtain rfl := List.mem_singleton.1 hc
      exact ⟨(Service.prepare_ok hprepare).2, trivial⟩

/-- What the store gives for a request was kept before. -/
theorem Sound.look (h : w.Sound p) (i : Nat) {c : Call} (hc : c.Sound w.service w.log) : (w.look i c).Sound p := by
  obtain ⟨store, hservice, hstore, hfound⟩ := w.service.lookUp_eq c.key c.request.id
  unfold Traffic.look
  rw [hservice]
  have hlooked : Sound { w with service := { w.service with store } } p := by
    refine h.change rfl (fun st hst => accountsFor_iff.2 fun x hx a ha => ?_) fun e he => .inl he
    obtain ⟨st₀, hst₀, rfl⟩ := hstore st hst
    obtain ⟨y, hy, hkey, hvalue⟩ := ResultStore.mem_of_retrieve hx
    obtain ⟨run, hmem⟩ := accountsFor_iff.1 (h.store st₀ hst₀) y hy a (hvalue.trans ha)
    exact ⟨run, hkey ▸ hmem⟩
  refine hlooked.setStage i ⟨hc.key, fun a ha => ?_⟩
  obtain ⟨st₀, b, hst₀, hb, rfl⟩ := hfound a ha
  obtain ⟨x, hx, hkey, hvalue⟩ := ResultStore.mem_of_retrieve_ok hb
  obtain ⟨run, hmem⟩ := accountsFor_iff.1 (h.store st₀ hst₀) x hx b hvalue
  exact ⟨b, run, hkey ▸ hmem, rfl⟩

theorem Sound.begin (h : w.Sound p) (i : Nat) {c : Call} (hc : c.Sound w.service w.log) : (w.begin i c).Sound p := by
  obtain ⟨hgoes, hcarries⟩ := Engine.goesOn_start h.numbered c.request false
  unfold Traffic.begin
  split
  · next number engine hstart =>
    rw [hstart] at hgoes hcarries
    exact (h.withEngine hgoes).setStage i ⟨(Service.keyOf_goesOn hgoes _).trans hc.key, hcarries number rfl⟩
  · next e engine hstart =>
    rw [hstart] at hgoes
    exact ((h.withEngine hgoes).drop i).write trivial

theorem Sound.enter (h : w.Sound p) (i : Nat) {c : Call} (hc : c.Sound w.service w.log) {found : Option Assembly}
    (hfound : ∀ a ∈ found, Entry.Repeats w.log c.key c.request.id a) : (w.enter i c found).Sound p := by
  unfold Traffic.enter
  dsimp only
  split
  · exact (h.drop i).write trivial
  · next register hinsert =>
    cases found with
    | some a => exact (h.register _).setStage i ⟨hc.key, hfound a rfl⟩
    | none =>
      refine Sound.write (Sound.drop (h.change ?_ ?_ ?_) i) nofun
      · rfl
      · exact h.store
      · intro e he
        rcases List.mem_append.1 he with he | he
        · exact .inl he
        · obtain rfl := List.mem_singleton.1 he
          exact .inr ⟨hc.key, nofun⟩

theorem Sound.completeFound (h : w.Sound p) (i : Nat) {c : Call} (hc : c.Sound w.service w.log) {found : Assembly}
    (hfound : Entry.Repeats w.log c.key c.request.id found) : (w.completeFound i c found).Sound p := by
  unfold Traffic.completeFound
  split
  · exact (h.drop i).write trivial
  · refine ((h.register _).drop i).write fun a ha => ⟨c.key, hc.key, ?_⟩
    obtain rfl := Option.some.inj ha
    exact hfound

theorem Sound.keep (h : w.Sound p) (i : Nat) {c : Call} (hc : c.Sound w.service w.log) {run : Nat} {result : Assembly}
    (hyields : w.service.engine.Yields run c.request result) : (w.keep i c run result).Sound p := by
  unfold Traffic.keep
  dsimp only
  rw [Service.keep_eq]
  split
  · next hwhole =>
    obtain ⟨hsuccess, hgoing⟩ := Bool.and_eq_true_iff.1 hwhole
    have hentry : Entry.Sound w.service w.log (.kept c.key result run) :=
      ⟨⟨hsuccess, by simpa using hgoing⟩, c.request, hc.key, hyields⟩
    refine Sound.setStage (w := { w.write _ with service := _ }) ?_ i ⟨hc.key, hyields⟩
    refine (h.write hentry).change rfl (fun st hst => accountsFor_iff.2 fun x hx a ha => ?_) fun e he => .inl he
    obtain ⟨st₀, hst₀, rfl⟩ := Option.map_eq_some_iff.1 hst
    rcases ResultStore.mem_of_save hx with ⟨hkey, hvalue⟩ | hx
    · obtain rfl := Option.some.inj (hvalue.symm.trans ha)
      exact ⟨run, hkey ▸ List.mem_cons_self⟩
    · obtain ⟨run', hmem⟩ := accountsFor_iff.1 (h.store st₀ hst₀) x hx a ha
      exact ⟨run', List.mem_cons_of_mem _ hmem⟩
  · exact h.setStage i ⟨hc.key, hyields⟩

theorem Sound.tell (h : w.Sound p) (i : Nat) {c : Call} {run : Nat} {result : Assembly}
    (hyields : w.service.engine.Yields run c.request result) : (w.tell i c result).Sound p := by
  unfold Traffic.tell
  split
  · exact (h.drop i).write ⟨run, hyields⟩
  · rw [Service.record_eq]
    exact (h.register _).drop i

theorem Sound.go (h : w.Sound p) (i : Nat) {c : Call} (hc : c.Sound w.service w.log) : (w.go i c).Sound p := by
  have hstage := hc.stage
  unfold Traffic.go
  cases hat : c.stage with
  | arrived => exact h.look i hc
  | looked found =>
    rw [hat] at hstage
    dsimp only
    split
    · cases found with
      | some a => exact (h.drop i).write ⟨c.key, hc.key, hstage a rfl⟩
      | none => exact h.begin i hc
    · exact h.enter i hc hstage
  | entered a =>
    rw [hat] at hstage
    exact h.completeFound i hc hstage
  | begun run =>
    rw [hat] at hstage
    dsimp only
    cases hresult : w.service.engine.result? run with
    | some a => exact h.setStage i ⟨hc.key, Engine.CarriesOut.yields hstage hresult⟩
    | none => exact h
  | ended run a =>
    rw [hat] at hstage
    exact h.keep i hc hstage
  | kept run a =>
    rw [hat] at hstage
    exact h.tell i hstage

theorem Sound.follow (h : w.Sound p) (i : Nat) {e : Errand} (he : e.Sound w.service) : (w.follow i e).Sound p := by
  have hothers : ∀ e' ∈ (withoutErrand w.service i).errands, e' ∈ w.service.errands := fun e' he' =>
    List.mem_of_mem_eraseIdx he'
  unfold Traffic.follow
  split
  · next hnone =>
    have hnone' : (e.run.bind fun run => (withoutErrand w.service i).engine.result? run) = none := by
      cases hrun : e.run with
      | none => rfl
      | some run =>
        rw [hrun] at hnone
        exact Option.map_eq_none_iff.1 hnone
    obtain ⟨hengine, hstore, herrands⟩ := Service.follow_sound hnone'
    refine h.change hengine (fun st hst => h.store st (hstore ▸ hst)) fun e' he' => ?_
    rcases herrands e' he' with hmem | rfl
    · exact .inl (hothers e' hmem)
    · exact .inr he
  · next run a hsome =>
    obtain ⟨run', hrun, hresult⟩ := Option.bind_eq_some_iff.1 hsome
    obtain ⟨a', ha, heq⟩ := Option.map_eq_some_iff.1 hresult
    obtain ⟨rfl, rfl⟩ := Prod.mk.inj heq
    dsimp only
    have hserved : Sound { w with service := { withoutErrand w.service i with
        register := w.service.register.setProgress e.request.id a'.doneChunks a'.chunks.length } } p :=
      h.change rfl h.store fun e' he' => .inl (hothers e' he')
    refine hserved.withCalls fun c hc => ?_
    rcases List.mem_append.1 hc with hc | hc
    · exact hserved.calls c hc
    · obtain rfl := List.mem_singleton.1 hc
      exact ⟨he.key, (he.run run' hrun).yields ha⟩

theorem Sound.urge (h : w.Sound p) (i : Nat) {e : Errand} (he : e.Sound w.service) :
    Sound { w with service := (withoutErrand w.service i).urge e } p := by
  have he' : e.Sound (withoutErrand w.service i) := ⟨he.key, he.run⟩
  have hnumbered : (withoutErrand w.service i).engine.Numbered := h.numbered
  obtain ⟨hgoes, hstore, herrands⟩ := Service.urge_sound hnumbered he'
  have hgoes' : w.service.engine.GoesOn ((withoutErrand w.service i).urge e).engine := hgoes
  refine h.serve hgoes (fun st hst => h.store st (hstore ▸ hst)) fun e' hmem => ?_
  rcases herrands e' hmem with hmem | hsound
  · exact (h.errands e' (List.mem_of_mem_eraseIdx hmem)).goesOn hgoes'
  · exact hsound

theorem Sound.make (h : w.Sound p) (m : Move) : (w.make m).Sound p := by
  cases m with
  | arrive waits id x => exact h.arrive waits id x
  | go i =>
    rw [make_go]
    cases hc : w.calls[i]? with
    | none => exact h
    | some c => exact h.go i (h.calls c (List.mem_of_getElem? hc))
  | giveUp i =>
    rw [make_giveUp]
    cases hc : w.calls[i]? with
    | none => exact h
    | some c => exact (h.drop i).write trivial
  | urge i =>
    rw [make_urge]
    cases he : w.service.errands[i]? with
    | none => exact h
    | some e => exact h.urge i (h.errands e (List.mem_of_getElem? he))
  | follow i =>
    rw [make_follow]
    cases he : w.service.errands[i]? with
    | none => exact h
    | some e => exact h.follow i (h.errands e (List.mem_of_getElem? he))
  | act =>
    refine h.withEngine ?_
    cases hact : w.service.engine.act? with
    | none => exact .refl _
    | some e => exact Engine.goesOn_of_works (Engine.works_act hact)
  | moveTo time => exact h.withEngine (Engine.goesOn_of_eq rfl rfl rfl)
  | stopRun run => exact h.withEngine (Engine.goesOn_of_works (Engine.works_cancel _ run))
  | pool event => exact h.withEngine (Engine.goesOn_of_eq rfl rfl rfl)
  | others register publisher sockets =>
    have hgoes : w.service.engine.GoesOn { w.service.engine with publisher } := Engine.goesOn_of_eq rfl rfl rfl
    exact h.serve hgoes h.store fun e he => (h.errands e he).goesOn hgoes

theorem Sound.disturb (h : w.Sound p) (fault : Option ResultStore) : (w.disturb fault).Sound p := by
  cases fault with
  | none => exact h
  | some store =>
    unfold Traffic.disturb
    dsimp only
    split
    · next haccounts =>
      refine h.change rfl (fun st hst => ?_) fun e he => .inl he
      obtain ⟨_, _, rfl⟩ := Option.map_eq_some_iff.1 hst
      exact haccounts
    · exact h

theorem Sound.run (h : w.Sound p) (turns : List Turn) : (w.run turns).Sound p := by
  induction turns generalizing w with
  | nil => exact h
  | cons t turns ih => exact ih ((h.disturb t.store).make t.move)

end Steps

end Traffic

end Pseudoscribe
