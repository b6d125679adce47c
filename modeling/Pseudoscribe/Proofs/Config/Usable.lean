import Pseudoscribe.Proofs.Backend.FailClosed
import Pseudoscribe.Proofs.Pool.Run
import Pseudoscribe.Proofs.Worker.Limits
import Pseudoscribe.Service.Start

/-!
# What an accepted configuration is good for

The settings of a configuration are checked when it is loaded, and once more, by rules of their own, where they are used:
by requests, by the pool, by the store of results, and when a backend is chosen.  What was accepted is not refused
there, with one exception: that requests go to the remote backend by default does not mean that there is one.  Without
an address there is none, and the service does not start.
-/

namespace Pseudoscribe

/-! ## Names of languages -/

theorem Language.ofName_eq_ok {name : String} (hvisible : Text.isBlank name.toList = false)
    (hfits : (Text.lower (Text.trim name.toList)).utf8ByteSize ≤ maxNameBytes) :
    ofName name = .ok ⟨canonicalName (Text.lower (Text.trim name.toList))⟩ := by
  have htrimmed : Text.trim name.toList ≠ [] := by
    intro hnil
    rw [Text.isBlank_of_trim_eq_nil hnil] at hvisible
    cases hvisible
  have hlower : (Text.lower (Text.trim name.toList)).isEmpty = false := by
    rw [Bool.eq_false_iff, ne_eq, String.isEmpty_iff, Text.lower, String.ofList_eq_empty_iff, List.map_eq_nil_iff]
    exact htrimmed
  unfold ofName
  dsimp only
  rw [hlower, if_neg Bool.false_ne_true, if_neg (Nat.not_lt.2 hfits)]

/-! ## Options -/

theorem Options.workerCount_of_validate {o : Options} (h : o.validate = .ok ()) : o.workerCount ≠ 0 := by
  intro hzero
  unfold validate at h
  rw [if_pos hzero] at h
  split_ifs at h

namespace Config

variable {c : Config}

/-! ## What was checked -/

/-- Everything that is asked of a configuration. -/
structure Accepted (c : Config) : Prop where
  port : c.server.port ≠ 0
  options : c.options.validate = .ok ()
  language : Text.isBlank c.language.toList = false
  workers : c.pool.workerCount ≠ some 0
  queue : c.pool.queueCapacity ≠ 0
  model : Text.isBlank c.embedded.model.toList = false
  /-- a remote model is checked if it has an address -/
  remote : c.remote.isConfigured = true → c.remote.fault? = none
  store : c.store.enabled = true → c.store.maxEntries ≠ 0

theorem fault?_eq_none_iff : c.fault? = none ↔ c.Accepted := by
  have hremote : (if c.remote.isConfigured then c.remote.fault? else none) = none ↔
      (c.remote.isConfigured = true → c.remote.fault? = none) := by
    split
    · next hset => exact ⟨fun h _ => h, fun h => h hset⟩
    · next hset => exact iff_of_true rfl fun h => absurd h hset
  have hstore : ¬ (c.store.enabled = true ∧ c.store.maxEntries = 0) ↔
      (c.store.enabled = true → c.store.maxEntries ≠ 0) := not_and
  unfold fault?
  generalize (if c.remote.isConfigured then c.remote.fault? else none) = remote at hremote
  constructor
  · intro h
    split at h
    · cases h
    · next hport =>
      split at h
      · cases h
      · next hoptions =>
        cases remote with
        | some fault => split_ifs at h
        | none =>
          dsimp only at h
          split_ifs at h with hlanguage hworkers hqueue hmodel hentries
          exact ⟨hport, hoptions, eq_false_of_ne_true hlanguage, hworkers, hqueue, eq_false_of_ne_true hmodel,
            hremote.1 rfl, hstore.1 hentries⟩
  · intro h
    rw [if_neg h.port, h.options]
    dsimp only
    rw [h.language, if_neg Bool.false_ne_true, if_neg h.workers, if_neg h.queue, h.model, if_neg Bool.false_ne_true,
      hremote.2 h.remote]
    exact if_neg (hstore.2 h.store)

theorem validate_eq_ok_iff : c.validate = .ok () ↔ c.Accepted := by
  rw [← fault?_eq_none_iff]
  unfold validate
  cases c.fault? with
  | none => exact iff_of_true rfl rfl
  | some fault => exact iff_of_false nofun nofun

/-! ## The backend of requests that name none -/

/-- The backend that requests go to by default is there. -/
def Backed (c : Config) : Prop := c.options.backend = .remote → c.remote.isConfigured = true

instance : Decidable c.Backed := by unfold Backed; infer_instance

/-- The backend that is found is of the kind that was asked for, in the revision that was asked for, and its model has a
name. -/
theorem Accepted.exists_of_backed (h : c.Accepted) (hbacked : c.Backed) : ∃ spec,
    c.profiles.resolve c.options.backend c.options.revision = .ok spec ∧ spec.kind = c.options.backend ∧
      spec.revision = c.options.revision ∧ Text.isBlank spec.model.toList = false := by
  unfold Profiles.resolve
  cases hkind : c.options.backend with
  | embedded => exact ⟨_, rfl, rfl, rfl, h.model⟩
  | remote =>
    have hset := hbacked hkind
    have hmodel : Text.isBlank c.remote.model.toList = false := by
      refine eq_false_of_ne_true fun hblank => ?_
      have hfault := h.remote hset
      rw [Remote.fault?, if_pos hblank] at hfault
      cases hfault
    have hspec : c.profiles.spec? .remote = (c.remote.model? c.options.revision).map .remote := rfl
    rw [hspec, Remote.model?, if_pos hset]
    exact ⟨_, rfl, rfl, rfl, hmodel⟩

theorem resolve_of_not_backed (h : ¬ c.Backed) :
    c.profiles.resolve c.options.backend c.options.revision =
      .error (.configuration "model backend 'remote' is not configured") := by
  obtain ⟨hkind, hset⟩ := Classical.not_imp.1 h
  have hspec : c.profiles.spec? .remote = (c.remote.model? c.options.revision).map .remote := rfl
  unfold Profiles.resolve
  rw [hkind, hspec, Remote.model?, if_neg hset]
  rfl

/-! ## The pool and the store -/

theorem Accepted.start (h : c.Accepted) : Pool.start c.workerCount c.pool.queueCapacity =
    .ok { capacity := c.pool.queueCapacity, slots := List.replicate c.workerCount {} } := by
  have hworkers : c.workerCount ≠ 0 := by
    unfold workerCount
    cases hcount : c.pool.workerCount with
    | none => exact Options.workerCount_of_validate h.options
    | some count => exact fun hzero => h.workers (by rw [hcount, ← hzero]; rfl)
  unfold Pool.start
  rw [if_neg hworkers, if_neg h.queue]

theorem Accepted.exists_load (h : c.Accepted) (henabled : c.store.enabled = true) (entries : List StoredResult) :
    ∃ s, ResultStore.load c.store.maxEntries entries = .ok s ∧ s.maxEntries = c.store.maxEntries := by
  unfold ResultStore.load
  rw [if_neg (h.store henabled)]
  exact ⟨_, rfl, rfl⟩

/-! ## Starting -/

/-- The engine of a service before its backend was checked. -/
def engineOf (c : Config) (files : Files) : Engine :=
  { crew := .ofPool { capacity := c.pool.queueCapacity, slots := List.replicate c.workerCount {} }
      { registry := .builtIn, files }
    profiles := c.profiles }

/-- Once the workers are there, it is the backend alone that decides. -/
theorem Accepted.ofConfig_eq (h : c.Accepted) (files : Files) : ∃ store,
    Service.ofConfig files c = (do
      (Service.launches c).mapError (.pool (c.pool.program.getD Service.workerProgram))
      match (c.engineOf files).verify c.options.backend c.options.revision with
      | (.error e, _) => .error (.backend e)
      | (.ok _, engine) => .ok { engine, store, language := c.language, options := c.options }) := by
  cases henabled : c.store.enabled with
  | true =>
    obtain ⟨store, hstore, -⟩ := h.exists_load henabled []
    refine ⟨some store, ?_⟩
    unfold Service.ofConfig
    rw [h.start, hstore, henabled]
    cases Service.launches c <;> rfl
  | false =>
    refine ⟨none, ?_⟩
    unfold Service.ofConfig
    rw [h.start, henabled]
    cases Service.launches c <;> rfl

theorem notSpawned_of_launches {e : PoolError} (h : Service.launches c = .error e) :
    ∃ detail, e = .notSpawned detail := by
  unfold Service.launches at h
  split at h
  · cases h
  · split at h
    · cases h
    · exact ⟨_, (Except.error.inj h).symm⟩

/-- A service starts, unless a worker is not made or the backend is found not to be usable. -/
theorem Accepted.ofConfig_cases (h : c.Accepted) (files : Files) :
    (∃ detail, Service.ofConfig files c =
      .error (.pool (c.pool.program.getD Service.workerProgram) (.notSpawned detail))) ∨
    (∃ err, ((c.engineOf files).verify c.options.backend c.options.revision).1 = .error err ∧
      Service.ofConfig files c = .error (.backend err)) ∨
    ∃ spec s, ((c.engineOf files).verify c.options.backend c.options.revision).1 = .ok spec ∧
      Service.ofConfig files c = .ok s ∧ s.language = c.language ∧ s.options = c.options := by
  obtain ⟨store, hmade⟩ := h.ofConfig_eq files
  cases hlaunches : Service.launches c with
  | error e =>
    obtain ⟨detail, rfl⟩ := notSpawned_of_launches hlaunches
    rw [hlaunches] at hmade
    exact .inl ⟨detail, hmade⟩
  | ok =>
    rw [hlaunches] at hmade
    cases hverified : (c.engineOf files).verify c.options.backend c.options.revision with
    | mk found engine =>
      rw [hverified] at hmade
      cases found with
      | error err => exact .inr (.inl ⟨err, rfl, hmade⟩)
      | ok spec => exact .inr (.inr ⟨spec, _, rfl, hmade, rfl, rfl⟩)

/-- Without its backend no service starts. -/
theorem Accepted.not_starts (h : c.Accepted) (hbacked : ¬ c.Backed) (files : Files) (s : Service) :
    Service.ofConfig files c ≠ .ok s := by
  have hverified : ((c.engineOf files).verify c.options.backend c.options.revision).1 =
      .error (.configuration "model backend 'remote' is not configured") := by
    have hresolve : (c.engineOf files).profiles.resolve c.options.backend c.options.revision = _ :=
      resolve_of_not_backed hbacked
    unfold Engine.verify
    rw [hresolve]
  rcases h.ofConfig_cases files with ⟨detail, hmade⟩ | ⟨err, -, hmade⟩ | ⟨spec, s', hok, -⟩
  · rw [hmade]
    exact nofun
  · rw [hmade]
    exact nofun
  · rw [hverified] at hok
    cases hok

/-- As little as is asked for, and a name of a language as long as is allowed. -/
def sparse : Config where
  language := " ABCDEFGHIJKLMNOPQRSTUVWXYZABCDEF "
  options := { backend := .remote, workerCount := 1 }
  pool := { queueCapacity := 1 }
  remote := { url := "http://m", model := "m" }
  store := { maxEntries := 1 }

end Config

end Pseudoscribe
