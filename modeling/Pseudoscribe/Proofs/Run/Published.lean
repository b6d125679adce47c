import Pseudoscribe.Proofs.Run.Grammar

/-!
# What an engine publishes

Many runs go on at the same time, and their events are published as they come.  Those of one request are found by its
identifier, and they are the events of its run, in their order.  So they keep to the grammar, whatever happens
to the engine; it must only be given each identifier once.
-/

namespace Pseudoscribe

namespace Engine

/-! ## The events of a request -/

/-- The events of a request so far, in the order in which they were published. -/
def eventsOf (e : Engine) (id : String) : List EventBody :=
  ((e.told.filter (·.request == id)).map Event.body).reverse

/-- An event is published. -/
theorem eventsOf_of_told {e e' : Engine} {id : String} {body : EventBody} (h : e'.told = ⟨id, body⟩ :: e.told)
    (key : String) : e'.eventsOf key = e.eventsOf key ++ if id = key then [body] else [] := by
  unfold eventsOf
  rw [h]
  by_cases hid : id = key
  · rw [if_pos hid, List.filter_cons_of_pos (by exact beq_iff_eq.2 hid), List.map_cons, List.reverse_cons]
  · rw [if_neg hid, List.filter_cons_of_neg (by exact fun heq => hid (beq_iff_eq.1 heq)), List.append_nil]

theorem eventsOf_tell (e : Engine) (id : RequestId) (note : Note) (key : String) :
    (e.tell id note).eventsOf key = e.eventsOf key ++ if id.text = key then Note.events [note] else [] := by
  cases note with
  | event body => exact eventsOf_of_told rfl key
  | figure | violated =>
    have hnone : (if id.text = key then ([] : List EventBody) else []) = [] := ite_self []
    exact ((congrArg (e.eventsOf key ++ ·) hnone).trans (List.append_nil _)).symm

theorem eventsOf_tellAll (e : Engine) (id : RequestId) (notes : List Note) (key : String) :
    (e.tellAll id notes).eventsOf key = e.eventsOf key ++ if id.text = key then Note.events notes else [] := by
  induction notes generalizing e with
  | nil => rw [tellAll, List.foldl_nil, Note.events, List.filterMap_nil, ite_self, List.append_nil]
  | cons note notes ih =>
    have hrest := ih (e.tell id note)
    rw [eventsOf_tell, List.append_assoc] at hrest
    refine hrest.trans (congrArg (e.eventsOf key ++ ·) ?_)
    by_cases h : id.text = key
    · rw [if_pos h, if_pos h, if_pos h, ← Note.events_append, List.singleton_append]
    · rw [if_neg h, if_neg h, if_neg h, List.append_nil]

theorem runs_tellAll (e : Engine) (id : RequestId) (notes : List Note) :
    (e.tellAll id notes).runs = e.runs := by
  induction notes generalizing e with
  | nil => rfl
  | cons note notes ih =>
    refine (ih (e.tell id note)).trans ?_
    cases note <;> rfl

theorem eventsOf_follow (e : Engine) (n : Nat) (step : Run × List Note) (key : String) :
    (e.follow n step).eventsOf key =
      e.eventsOf key ++ if step.1.request.id.text = key then Note.events step.2 else [] :=
  eventsOf_tellAll (e.setRun n step.1) step.1.request.id step.2 key

theorem run?_follow (e : Engine) (n m : Nat) (step : Run × List Note) :
    (e.follow n step).run? m = if m = n then (e.run? n).map fun _ => step.1 else e.run? m := by
  have hruns : (e.follow n step).runs = (e.setRun n step.1).runs :=
    runs_tellAll (e.setRun n step.1) step.1.request.id step.2
  rw [← run?_setRun, run?, run?, hruns]

/-- The identifier of the request of a run. -/
def idOf? (e : Engine) (n : Nat) : Option String := (e.run? n).map (·.request.id.text)

theorem idOf?_follow {e : Engine} {n : Nat} {r : Run} {step : Run × List Note} (hrun : e.run? n = some r)
    (hrequest : step.1.request = r.request) (m : Nat) : (e.follow n step).idOf? m = e.idOf? m := by
  rw [idOf?, run?_follow, idOf?]
  by_cases hm : m = n
  · rw [if_pos hm, hm, hrun, Option.map_some, Option.map_some, Option.map_some, hrequest]
  · rw [if_neg hm]

/-! ## The chronicle -/

/-- The events of the request of a run are those of the run. -/
def TellsOf (e : Engine) (r : Run) : Prop :=
  ∃ now spec cancelled ms notes, Run.Tale (.new now r.request spec cancelled) ms notes r ∧
    e.eventsOf r.request.id.text = .started r.total :: Note.events notes

/-- What was told is told of the runs, and of requests for which no run was begun. -/
structure Chronicled (e : Engine) : Prop where
  numbered : e.Numbered
  runs : ∀ n r, e.run? n = some r → e.TellsOf r
  /-- no two runs are for requests with the same identifier -/
  apart : ∀ n m id, e.idOf? n = some id → e.idOf? m = some id → n = m
  others : ∀ id, (∀ n, e.idOf? n ≠ some id) → e.eventsOf id = [] ∨ ∃ err, e.eventsOf id = [.failed err]

theorem idOf?_of_run {e : Engine} {n : Nat} {r : Run} (h : e.run? n = some r) :
    e.idOf? n = some r.request.id.text := by rw [idOf?, h, Option.map_some]

theorem TellsOf.of_eventsOf {e e' : Engine} {r : Run} (h : e.TellsOf r)
    (heq : e'.eventsOf r.request.id.text = e.eventsOf r.request.id.text) : e'.TellsOf r := by
  obtain ⟨now, spec, cancelled, ms, notes, htale, hevents⟩ := h
  exact ⟨now, spec, cancelled, ms, notes, htale, heq.trans hevents⟩

/-- A run takes a step and tells of it. -/
theorem TellsOf.follow {e : Engine} {r s : Run} {now : Nat} {m : RunMove} {notes : List Note}
    (h : e.TellsOf r) (htook : r.step? now m = some (s, notes)) (n : Nat) : (e.follow n (s, notes)).TellsOf s := by
  obtain ⟨since, spec, cancelled, ms, before, htale, hevents⟩ := h
  obtain ⟨made, hstep⟩ := Run.exists_tale_step htook
  obtain ⟨begun, hleads⟩ := hstep.exists_leads
  have hrequest := hleads.fixed.1
  refine ⟨since, spec, cancelled, _, _, hrequest ▸ htale.trans hstep, ?_⟩
  rw [eventsOf_follow, if_pos rfl, hrequest, hevents, Note.events_append, hstep.total_eq, List.cons_append]

theorem Chronicled.feed {e : Engine} (h : e.Chronicled) (n : Nat) (m : RunMove) : (e.feed n m).Chronicled := by
  have hgoes := e.goesOn_feed n m
  unfold Engine.feed at hgoes ⊢
  split at hgoes
  · next step hstep =>
    obtain ⟨r, hrun, htook⟩ := Option.bind_eq_some_iff.1 hstep
    obtain ⟨s, notes⟩ := step
    have hrequest : s.request = r.request := (Run.goesOn_of_step htook).request
    have hids := @idOf?_follow e n r (s, notes) hrun hrequest
    refine ⟨hgoes.numbered h.numbered, fun k t hk => ?_, fun k l id hk hl => ?_, fun id hid => ?_⟩
    · rw [run?_follow] at hk
      by_cases hkn : k = n
      · rw [if_pos hkn, hrun, Option.map_some] at hk
        obtain rfl := Option.some.inj hk
        exact (h.runs n r hrun).follow htook n
      · rw [if_neg hkn] at hk
        refine (h.runs k t hk).of_eventsOf ?_
        -- it is another run, so its identifier is another one
        have hother : s.request.id.text ≠ t.request.id.text := fun heq =>
          hkn (h.apart k n _ (idOf?_of_run hk) (by rw [idOf?_of_run hrun, ← hrequest, heq]))
        rw [eventsOf_follow, if_neg hother, List.append_nil]
    · rw [hids] at hk hl
      exact h.apart k l id hk hl
    · have hother : s.request.id.text ≠ id := by
        intro heq
        refine hid n ?_
        rw [hids, idOf?_of_run hrun, ← hrequest, heq]
      rw [eventsOf_follow, if_neg hother, List.append_nil]
      exact h.others id fun k => by rw [← hids]; exact hid k
  · exact h

theorem kept_chronicled : Kept Chronicled where
  aside haside h := by
    have hrun (n : Nat) : Engine.run? _ n = Engine.run? _ n := congrArg (List.lookup n) haside.runs
    have hid (n : Nat) : Engine.idOf? _ n = Engine.idOf? _ n := congrArg (Option.map _) (hrun n)
    have hevents (id : String) : Engine.eventsOf _ id = Engine.eventsOf _ id :=
      congrArg (fun told => ((told.filter (·.request == id)).map Event.body).reverse) haside.told
    refine ⟨(goesOn_of_aside haside).numbered h.numbered, fun n r hr => ?_, fun n m id hn hm => ?_,
      fun id hother => ?_⟩
    · exact (h.runs n r ((hrun n).symm.trans hr)).of_eventsOf (hevents _)
    · exact h.apart n m id ((hid n).symm.trans hn) ((hid m).symm.trans hm)
    · rw [hevents]
      exact h.others id fun n => by rw [← hid n]; exact hother n
  feed n m h := h.feed n m

/-! ## New requests -/

/-- Nothing was begun with a request, and all that was told of it is why. -/
structure Rejected (e : Engine) (request : Request) (err : RunError) (e' : Engine) : Prop where
  told : e'.told = ⟨request.id.text, .failed err.message⟩ :: e.told
  /-- no attempt was handed to the pool, and none waits for it -/
  pool : e'.crew.pool = e.crew.pool
  tickets : e'.tickets = e.tickets
  offers : e'.offers = e.offers
  runs : e'.runs = e.runs
  nextRun : e'.nextRun = e.nextRun

theorem rejected_start {e : Engine} {request : Request} {cancelled : Bool} {err : RunError}
    (h : (e.start request cancelled).1 = .error err) :
    e.Rejected request err (e.start request cancelled).2 := by
  have hclear := e.clear_snd request
  unfold start at h ⊢
  split at h
  · next found e' hfound =>
    obtain rfl := Except.error.inj h
    rw [hfound] at hclear
    dsimp only at hclear ⊢
    rw [hclear]
    exact ⟨rfl, rfl, rfl, rfl, rfl, rfl⟩
  · cases h

theorem Chronicled.eventsOf_ne_nil {e : Engine} (h : e.Chronicled) {n : Nat} {id : String}
    (hn : e.idOf? n = some id) : e.eventsOf id ≠ [] := by
  obtain ⟨r, hr, rfl⟩ := Option.map_eq_some_iff.1 hn
  obtain ⟨_, _, _, _, notes, -, hevents⟩ := h.runs n r hr
  rw [hevents]
  exact List.cons_ne_nil _ _

/-- A request that is rejected, with an identifier that is new. -/
theorem Chronicled.reject {e e' : Engine} (h : e.Chronicled) {request : Request} {err : RunError}
    (hrejected : e.Rejected request err e') (hnew : e.eventsOf request.id.text = []) : e'.Chronicled := by
  have hrun (n : Nat) : e'.run? n = e.run? n := congrArg (List.lookup n) hrejected.runs
  have hid (n : Nat) : e'.idOf? n = e.idOf? n := congrArg (Option.map _) (hrun n)
  have hevents := eventsOf_of_told hrejected.told
  refine ⟨?_, fun n r hr => ?_, fun n m id hn hm => ?_, fun id hother => ?_⟩
  · unfold Numbered
    rw [hrejected.runs, hrejected.nextRun]
    exact h.numbered
  · rw [hrun] at hr
    refine (h.runs n r hr).of_eventsOf ?_
    have hother : request.id.text ≠ r.request.id.text := fun heq =>
      h.eventsOf_ne_nil (idOf?_of_run hr) (heq ▸ hnew)
    rw [hevents, if_neg hother, List.append_nil]
  · rw [hid] at hn hm
    exact h.apart n m id hn hm
  · rw [hevents]
    by_cases heq : request.id.text = id
    · rw [if_pos heq, ← heq, hnew]
      exact .inr ⟨err.message, rfl⟩
    · rw [if_neg heq, List.append_nil]
      exact h.others id fun n => by rw [← hid]; exact hother n

/-- A run is added for a request with an identifier that is new, and tells that it was started. -/
theorem Chronicled.add {e e' : Engine} (h : e.Chronicled) {request : Request} {r : Run} {now : Nat}
    {spec : BackendSpec} {cancelled : Bool} {ms : List (Nat × RunMove)} {notes : List Note}
    (htale : Run.Tale (.new now request spec cancelled) ms notes r) (hnew : e.eventsOf request.id.text = [])
    (hnumbered : e'.Numbered) (hrun : e'.run? e.nextRun = some r)
    (hold : ∀ n, n ≠ e.nextRun → e'.run? n = e.run? n)
    (hevents : ∀ key, e'.eventsOf key = e.eventsOf key ++
      if request.id.text = key then .started r.total :: Note.events notes else []) : e'.Chronicled := by
  obtain ⟨begun, hleads⟩ := htale.exists_leads
  have hrequest : r.request = request := hleads.fixed.1
  have hid : e'.idOf? e.nextRun = some request.id.text := by rw [idOf?_of_run hrun, hrequest]
  have hids (n : Nat) (hn : n ≠ e.nextRun) : e'.idOf? n = e.idOf? n := by rw [idOf?, hold n hn, idOf?]
  -- no run before was for a request with this identifier
  have hother {n : Nat} {id : String} (hn : e.idOf? n = some id) : request.id.text ≠ id := fun heq =>
    h.eventsOf_ne_nil hn (heq ▸ hnew)
  refine ⟨hnumbered, fun n s hs => ?_, fun n m id hn hm => ?_, fun id hno => ?_⟩
  · by_cases hn : n = e.nextRun
    · obtain rfl : r = s := Option.some.inj (hrun.symm.trans (hn ▸ hs))
      refine ⟨now, spec, cancelled, ms, notes, hrequest ▸ htale, ?_⟩
      rw [hevents, hrequest, hnew, if_pos rfl, List.nil_append]
    · rw [hold n hn] at hs
      refine (h.runs n s hs).of_eventsOf ?_
      rw [hevents, if_neg (hother (idOf?_of_run hs)), List.append_nil]
  · by_cases hn' : n = e.nextRun
    · by_cases hm' : m = e.nextRun
      · rw [hn', hm']
      · rw [hn', hid] at hn
        rw [hids m hm'] at hm
        exact absurd (Option.some.inj hn) (hother hm)
    · rw [hids n hn'] at hn
      by_cases hm' : m = e.nextRun
      · rw [hm', hid] at hm
        exact absurd (Option.some.inj hm) (hother hn)
      · rw [hids m hm'] at hm
        exact h.apart n m id hn hm
  · have hne : request.id.text ≠ id := fun heq => hno e.nextRun (by rw [hid, heq])
    rw [hevents, if_neg hne, List.append_nil]
    refine h.others id fun n hn => ?_
    by_cases hn' : n = e.nextRun
    · rw [idOf?, hn', run?_eq_none h.numbered] at hn
      cases hn
    · exact hno n (by rw [hids n hn', hn])

/-- A run is begun with. -/
theorem Chronicled.begin {e : Engine} (h : e.Chronicled) {request : Request} {r : Run} {now : Nat}
    {spec : BackendSpec} {cancelled : Bool} {ms : List (Nat × RunMove)} {notes : List Note}
    (htale : Run.Tale (.new now request spec cancelled) ms notes r) (hnew : e.eventsOf request.id.text = []) :
    (({ e with runs := e.runs ++ [(e.nextRun, r)], nextRun := e.nextRun + 1 } : Engine).follow e.nextRun
      (r, .event (.started r.total) :: notes)).Chronicled := by
  obtain ⟨begun, hleads⟩ := htale.exists_leads
  have hrequest : r.request = request := hleads.fixed.1
  obtain ⟨hadd, hrun⟩ := goesOn_add h.numbered r
  have hgoes := @goesOn_follow _ _ _ (r, .event (.started r.total) :: notes) hrun (.refl r)
  refine h.add htale hnew (hgoes.numbered (hadd.numbered h.numbered)) ?_ (fun n hn => ?_) fun key => ?_
  · rw [run?_follow, if_pos rfl, hrun, Option.map_some]
  · rw [run?_follow, if_neg hn, run?_add_of_ne r hn]
  · rw [eventsOf_follow, hrequest]
    rfl

theorem Chronicled.start {e : Engine} (h : e.Chronicled) (request : Request) (cancelled : Bool)
    (hnew : e.eventsOf request.id.text = []) : (e.start request cancelled).2.Chronicled := by
  cases hstart : (e.start request cancelled).1 with
  | error err => exact h.reject (rejected_start hstart) hnew
  | ok number =>
    have haside := e.aside_clear request
    unfold Engine.start at hstart ⊢
    split at hstart
    · cases hstart
    · next spec e' hclear =>
      rw [hclear] at haside
      obtain ⟨made, notes, htale, hnotes⟩ := Run.exists_tale_start e'.now request spec cancelled
      dsimp only
      -- the start of a run is not to be carried out here
      generalize Run.start e'.now request spec cancelled = first at htale hnotes ⊢
      obtain ⟨r, told⟩ := first
      dsimp only at htale hnotes
      obtain rfl := hnotes
      have hnew' : e'.eventsOf request.id.text = [] := by rw [eventsOf, haside.told]; exact hnew
      exact kept_chronicled.works ((kept_chronicled.aside haside h).begin htale hnew') (works_offerAll _ _)

/-! ## Every history -/

/-- An engine in its history: it takes requests in, each with an identifier of its own, takes the steps that are due
and stops runs; and between these anything can happen that leaves the runs alone. -/
inductive Reached : Engine → Prop
  | fresh (e : Engine) (runs : e.runs = []) (told : e.told = []) : Reached e
  | aside {e e' : Engine} (before : Reached e) (aside : e.Aside e') : Reached e'
  | start {e : Engine} (before : Reached e) (request : Request) (cancelled : Bool)
    (unused : e.eventsOf request.id.text = []) : Reached (e.start request cancelled).2
  | act {e e' : Engine} (before : Reached e) (taken : e.act? = some e') : Reached e'
  | cancel {e : Engine} (before : Reached e) (run : Nat) : Reached (e.cancel run)

theorem Reached.chronicled {e : Engine} (h : e.Reached) : e.Chronicled := by
  induction h with
  | fresh e hruns htold =>
    have hnone (n : Nat) : e.run? n = none := by rw [run?, hruns, List.lookup_nil]
    refine ⟨fun x hx => ?_, fun n r hr => ?_, fun n m id hn => ?_, fun id _ => .inl ?_⟩
    · rw [hruns] at hx
      cases hx
    · rw [hnone] at hr
      cases hr
    · rw [idOf?, hnone] at hn
      cases hn
    · rw [eventsOf, htold]
      rfl
  | aside _ haside ih => exact kept_chronicled.aside haside ih
  | start _ request cancelled hunused ih => exact ih.start request cancelled hunused
  | act _ htaken ih => exact kept_chronicled.works ih (works_act htaken)
  | cancel _ run ih => exact kept_chronicled.works ih (works_cancel _ run)

theorem TellsOf.narrated {e : Engine} {r : Run} (h : e.TellsOf r) : r.Narrated (e.eventsOf r.request.id.text) := by
  obtain ⟨now, spec, cancelled, ms, notes, htale, hevents⟩ := h
  rw [hevents]
  exact htale.narrated

theorem rejected_carryOut {e e' : Engine} {request : Request} {stopAt : Option Nat} {err : RunError}
    (h : e.carryOut request stopAt = (.error err, e')) : e.Rejected request err e' := by
  have hstart := @rejected_start e request (stopAt == some 0)
  unfold carryOut at h
  split at h
  · next found e'' hfound =>
    obtain ⟨rfl, rfl⟩ : found = err ∧ e'' = e' := by
      obtain ⟨herr, he⟩ := Prod.ext_iff.1 h
      exact ⟨Except.error.inj herr, he⟩
    rw [hfound] at hstart
    exact hstart rfl
  · cases congrArg Prod.fst h

/-- A request that is carried out keeps its run while it is waited for. -/
theorem Chronicled.carryOut {e e' : Engine} (h : e.Chronicled) {request : Request} {stopAt : Option Nat} {n : Nat}
    (hnew : e.eventsOf request.id.text = []) (hcarried : e.carryOut request stopAt = (.ok n, e')) :
    e'.Chronicled ∧ ∃ r, e'.run? n = some r ∧ r.request = request := by
  have hstart := h.start request (stopAt == some 0) hnew
  have hrun := (goesOn_start h.numbered request (stopAt == some 0)).2
  unfold Engine.carryOut at hcarried
  split at hcarried
  · cases congrArg Prod.fst hcarried
  · next number begun hbegun =>
    rw [hbegun] at hstart hrun
    obtain ⟨r, hr, hrequest⟩ := hrun number rfl
    have hworks : begun.Works e' := by
      obtain rfl := congrArg Prod.snd hcarried
      cases stopAt with
      | none => exact begun.works_await _ _
      | some time => exact begun.works_awaitCancelled _ _
    obtain rfl := Except.ok.inj (congrArg Prod.fst hcarried)
    obtain ⟨r', hr', hgoes⟩ := (goesOn_of_works hworks).runs number r hr
    exact ⟨kept_chronicled.works hstart hworks, r', hr', hgoes.request.trans hrequest⟩

/-- The grammar of events.  If a request is rejected, that is its one event, and nothing of it comes to the pool.  Else
it has a run, and whatever happens to the chunks of the run, and in which order, it tells first that it has
begun and at last how it has ended, with an event for each chunk that its result reports as converted or given up;
nothing is told of such a chunk behind that event.  In an engine with many runs these are the events that are
published for the request. -/
theorem event_grammar :
    (∀ (e e' : Engine) (request : Request) (stopAt : Option Nat) (err : RunError),
      e.carryOut request stopAt = (.error err, e') → e.Rejected request err e') ∧
    (∀ (now : Nat) (request : Request) (spec : BackendSpec) (cancelled : Bool) (ms : List (Nat × RunMove))
      (notes : List Note) (r : Run), Run.Tale (.new now request spec cancelled) ms notes r →
        r.Narrated (.started r.total :: Note.events notes)) ∧
    ∀ e : Engine, e.Reached →
      (∀ (e' : Engine) (request : Request) (stopAt : Option Nat) (n : Nat), e.eventsOf request.id.text = [] →
        e.carryOut request stopAt = (.ok n, e') →
          ∃ r, e'.run? n = some r ∧ r.request = request ∧ r.Narrated (e'.eventsOf request.id.text)) ∧
      (∀ n r, e.run? n = some r → r.Narrated (e.eventsOf r.request.id.text)) ∧
      ∀ id, (∀ n, e.idOf? n ≠ some id) → e.eventsOf id = [] ∨ ∃ err, e.eventsOf id = [.failed err] := by
  refine ⟨fun e e' request stopAt err h => rejected_carryOut h, fun _ _ _ _ _ _ _ h => h.narrated, fun e h => ?_⟩
  have hchronicled := h.chronicled
  refine ⟨fun e' request stopAt n hnew hcarried => ?_, fun n r hr => (hchronicled.runs n r hr).narrated,
    hchronicled.others⟩
  obtain ⟨hbehind, r, hr, rfl⟩ := hchronicled.carryOut hnew hcarried
  exact ⟨r, hr, rfl, (hbehind.runs n r hr).narrated⟩

/-! ### One line -/

/-- One worker and a scripted backend that fails once. -/
def oneWorker : Engine where
  crew := .ofPool { capacity := 4, slots := [{}] }
    { registry := .scripted { failFirst := [(0, 1)] }, files := fun _ => .missing }
  profiles := { embedded := some {} }

def oneLine : Request := { id := ⟨"a"⟩, source := "PRINT 1\n", language := .python, options := {} }

/-- The line is converted with the second attempt. -/
theorem event_grammar_of_one_line : ∃ e' r a,
    oneWorker.carryOut oneLine none = (.ok 0, e') ∧ e'.run? 0 = some r ∧ r.result = some a ∧
    r.Narrated (e'.eventsOf oneLine.id.text) ∧
    (e'.eventsOf oneLine.id.text).map EventBody.name = ["Started", "ChunkState", "ChunkState", "ChunkState",
      "ChunkRetrying", "ChunkState", "ChunkState", "ChunkState", "ChunkCompleted", "Completed"] := by
  have hmade : (oneWorker.carryOut oneLine none).1.toOption = some 0 ∧
      ((oneWorker.carryOut oneLine none).2.result? 0).isSome = true ∧
      ((oneWorker.carryOut oneLine none).2.eventsOf oneLine.id.text).map EventBody.name = ["Started", "ChunkState",
        "ChunkState", "ChunkState", "ChunkRetrying", "ChunkState", "ChunkState", "ChunkState", "ChunkCompleted",
        "Completed"] := by decide +kernel
  obtain ⟨hok, hresult, hnames⟩ := hmade
  generalize hcarried : oneWorker.carryOut oneLine none = carried at hok hresult hnames
  obtain ⟨found, e'⟩ := carried
  cases found with
  | error err => cases hok
  | ok n =>
    obtain rfl : n = 0 := Option.some.inj hok
    obtain ⟨r, hr, -, hnarrated⟩ :=
      (event_grammar.2.2 oneWorker (.fresh oneWorker rfl rfl)).1 e' oneLine none 0 rfl hcarried
    obtain ⟨a, ha⟩ := Option.isSome_iff_exists.1 hresult
    rw [result?, hr, Option.bind_some] at ha
    exact ⟨e', r, a, rfl, hr, ha, hnarrated, hnames⟩

end Engine

end Pseudoscribe
