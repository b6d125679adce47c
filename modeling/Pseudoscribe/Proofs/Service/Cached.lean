import Pseudoscribe.Proofs.Service.Outage

/-!
# Only whole successes come from the store

Requests come in at any time, wait or not, are stopped or given up, and the store fails as it likes.  Still the store
holds only whole successes, each from a run for a request with its key, and what is told from it was stored before.
-/

namespace Pseudoscribe

/-- A service that no request has come to yet. -/
structure Service.IsNew (s : Service) : Prop where
  runs : s.engine.runs = []
  errands : s.errands = []
  store : ∀ store, s.store = some store → store.entries = []

namespace Traffic

/-- A result was stored under the key of a request, and this is it with the identifier of the request. -/
def Repeated (s : Service) (before : List Entry) (request : Request) (a : Assembly) : Prop :=
  ∃ key b run, s.keyOf request = .ok key ∧ .kept key b run ∈ before ∧ a = { b with id := request.id }

/-- A whole success that a run for a request with this key came to. -/
def WholeFor (s : Service) (e : Engine) (key : String) (a : Assembly) : Prop :=
  a.IsWhole ∧ ∃ run request, s.keyOf request = .ok key ∧ e.Yields run request a

/-- What comes from the store in the traffic of a service. -/
structure ServesWhole (s : Service) (w : Traffic) : Prop where
  /-- what can be read in the store -/
  readable : ∀ store, w.service.store = some store → ∀ x ∈ store.entries, ∀ a, x.value = some a →
    WholeFor s w.service.engine x.key a
  /-- what was ever stored -/
  kept : ∀ key a run, .kept key a run ∈ w.log → WholeFor s w.service.engine key a
  /-- what callers who wait were told from the store -/
  told : ∀ request a before, .told request a true :: before <:+ w.log → Repeated s before request a
  /-- what requests in the background ended with from the store -/
  taken : ∀ request a before, .taken request (some a) :: before <:+ w.log → Repeated s before request a
  /-- whatever else callers were told came of a run for their request -/
  fresh : ∀ request a, .told request a false ∈ w.log → ∃ run, w.service.engine.Yields run request a

theorem sound_of_isNew {s : Service} (h : s.IsNew) : Sound ⟨s, [], []⟩ s.engine.profiles where
  profiles := rfl
  numbered _ hx := absurd (h.runs ▸ hx) List.not_mem_nil
  store store hs := accountsFor_iff.2 fun _ hx => absurd (h.store store hs ▸ hx) List.not_mem_nil
  calls _ hc := absurd hc List.not_mem_nil
  errands _ he := absurd (h.errands ▸ he) List.not_mem_nil
  log _ _ hx := absurd (List.suffix_nil.1 hx) (List.cons_ne_nil _ _)

theorem exists_suffix_of_mem {x : Entry} {log : List Entry} (h : x ∈ log) : ∃ before, x :: before <:+ log := by
  obtain ⟨later, before, rfl⟩ := List.append_of_mem h
  exact ⟨before, List.suffix_append _ _⟩

theorem Sound.servesWhole {s : Service} {w : Traffic} (h : w.Sound s.engine.profiles) : ServesWhole s w := by
  have hkey : ∀ r, w.service.keyOf r = s.keyOf r := fun r => by
    unfold Service.keyOf
    rw [h.profiles]
  have hkept : ∀ key a run, .kept key a run ∈ w.log → WholeFor s w.service.engine key a := by
    intro key a run hmem
    obtain ⟨before, hsuffix⟩ := exists_suffix_of_mem hmem
    obtain ⟨hwhole, request, hrequest, hyields⟩ := h.log _ before hsuffix
    exact ⟨hwhole, run, request, (hkey request).symm.trans hrequest, hyields⟩
  refine ⟨fun store hs x hx a ha => ?_, hkept, fun request a before hsuffix => ?_, fun request a before hsuffix => ?_,
    fun request a hmem => ?_⟩
  · obtain ⟨run, hmem⟩ := accountsFor_iff.1 (h.store store hs) x hx a ha
    exact hkept x.key a run hmem
  · obtain ⟨key, hrequest, b, run, hmem, ha⟩ := h.log _ before hsuffix
    exact ⟨key, b, run, (hkey request).symm.trans hrequest, hmem, ha⟩
  · obtain ⟨key, hrequest, b, run, hmem, ha⟩ := h.log _ before hsuffix a rfl
    exact ⟨key, b, run, (hkey request).symm.trans hrequest, hmem, ha⟩
  · obtain ⟨before, hsuffix⟩ := exists_suffix_of_mem hmem
    exact h.log _ before hsuffix

/-- In every course of the traffic of a new service only whole successes are in the store, each from a run for a request
with its key, and what comes from the store was stored before.  However the store fails, a course is the same as any
other with these moves, also as one without a store, until a request finds in one what it does not find in the other.
What the service does at once for a request is such a course, and where the store gives nothing the answer is the one of
a service without a store. -/
theorem only_whole_from_store (s : Service) (hnew : s.IsNew) (turns : List Turn) :
    ServesWhole s (run ⟨s, [], []⟩ turns) ∧
      (∀ (s' : Service) (turns' : List Turn), s'.withoutStore = s.withoutStore →
        turns'.map Turn.move = turns.map Turn.move → SameUntilFound ⟨s, [], []⟩ ⟨s', [], []⟩ turns turns') ∧
      ∀ w, w = run ⟨s, [], []⟩ turns → ∀ id x,
        (∃ entry log, Leads w ⟨(w.service.convert id x).2, w.calls, entry :: log⟩ ∧
          entry.Answers (w.service.convert id x).1) ∧
        (∃ entry log, Leads w ⟨(w.service.submit id x).2, w.calls, entry :: log⟩ ∧
          entry.TakesIn (w.service.submit id x).1) ∧
        ((∀ request key, w.service.prepare id x = .ok (request, key) → (w.service.lookUp key id).1 = none) →
          (w.service.convert id x).1 = (w.service.withoutStore.convert id x).1 ∧
            (w.service.submit id x).1 = (w.service.withoutStore.submit id x).1) := by
  refine ⟨((sound_of_isNew hnew).run turns).servesWhole, fun s' turns' hs' hmoves => ?_, fun w _ id x => ?_⟩
  · have hsame : withoutStore ⟨s, [], []⟩ = withoutStore ⟨s', [], []⟩ :=
      congrArg (fun s => Traffic.mk s [] []) hs'.symm
    exact sameUntilFound hmoves.symm hsame
  · exact ⟨leads_convert w.service w.calls w.log id x, leads_submit w.service w.calls w.log id x, fun hmiss =>
      ⟨(w.service.convert_of_miss id x hmiss).1, (w.service.submit_of_miss id x hmiss).1⟩⟩

/-- A service with one worker, a scripted backend and room for two results. -/
def smallService : Service where
  engine := {
    crew := .ofPool { capacity := 4, slots := [{}] } { registry := .scripted {}, files := fun _ => .missing }
    profiles := { embedded := some {} } }
  store := some { maxEntries := 2 }

/-- Two callers ask for the same, the second after the first was answered. -/
def sameTwice : List Turn :=
  let x : Submission := { source := "PRINT 1\n", language := none, options := {} }
  ([.arrive true ⟨"a"⟩ x, .go 0, .go 0, .act, .act, .act, .go 0, .go 0, .go 0,
    .arrive true ⟨"b"⟩ x, .go 0, .go 0] : List Move).map fun move => { move }

def Entry.isFromStore : Entry → Bool
  | .told _ _ cached => cached
  | _ => false

/-- The first caller is told what was just stored, and the second is told it from the store. -/
theorem only_whole_from_store_twice :
    (run ⟨smallService, [], []⟩ sameTwice).log.map Entry.isFromStore = [true, false, false] ∧
      ServesWhole smallService (run ⟨smallService, [], []⟩ sameTwice) := by
  have hnew : smallService.IsNew := by
    refine ⟨rfl, rfl, fun store hs => ?_⟩
    obtain rfl := Option.some.inj hs
    rfl
  exact ⟨by decide +kernel, (only_whole_from_store smallService hnew sameTwice).1⟩

end Traffic

end Pseudoscribe
