import Mathlib.Data.List.Basic
import Pseudoscribe.Backend.Registry

/-!
# Which backend is asked

A process asks the backend that it made first for the identity of a description.  So what comes of a question depends
on the questions before it by one thing alone: the first description with this identity whose backend could be made.
-/

namespace Pseudoscribe

/-- What a manifest says that was read before is what the files say. -/
def EmbeddedBackend.Faithful (files : Files) (b : EmbeddedBackend) : Prop :=
  ∀ m, b.manifest = some m → Manifest.load files b.settings = .ok m

/-- What comes of reading a manifest is the same before and after it was read. -/
theorem EmbeddedBackend.Faithful.load {files : Files} {b : EmbeddedBackend} (h : b.Faithful files) :
    (b.load files).1 = Manifest.load files b.settings ∧ (b.load files).2.settings = b.settings ∧
      (b.load files).2.Faithful files := by
  obtain ⟨settings, manifest, loads⟩ := b
  unfold EmbeddedBackend.load
  cases hmanifest : manifest with
  | none =>
    dsimp only
    cases hload : Manifest.load files settings with
    | ok m =>
      refine ⟨rfl, rfl, fun m' hm' => ?_⟩
      obtain rfl := Option.some.inj hm'
      exact hload
    | error e => exact ⟨rfl, rfl, nofun⟩
  | some m =>
    have hload : Manifest.load files settings = .ok m := h m hmanifest
    refine ⟨hload.symm, rfl, fun m' hm' => ?_⟩
    obtain rfl := Option.some.inj hm'
    exact hload

/-- A backend answers alike before and after its manifest was read. -/
theorem EmbeddedBackend.Faithful.answer {files : Files} {b : EmbeddedBackend} (h : b.Faithful files) (chunk : Chunk)
    (language : Language) :
    (b.answer files chunk language).1 =
        (({ settings := b.settings } : EmbeddedBackend).answer files chunk language).1 ∧
      (b.answer files chunk language).2.settings = b.settings ∧
      (b.answer files chunk language).2.Faithful files := by
  obtain ⟨hload, hsettings, hfaithful⟩ := h.load
  have hnew : EmbeddedBackend.Faithful files { settings := b.settings } := nofun
  obtain ⟨hload', hsettings', -⟩ := hnew.load
  unfold EmbeddedBackend.answer
  rcases hb : b.load files with ⟨found, behind⟩
  rcases hb' : EmbeddedBackend.load files { settings := b.settings } with ⟨found', behind'⟩
  rw [hb] at hload hsettings hfaithful
  rw [hb'] at hload' hsettings'
  dsimp only at hload hload' hsettings hsettings'
  subst hload hload'
  have hprovenance : behind.provenance = behind'.provenance := by
    unfold provenance
    rw [hsettings, hsettings']
  cases Manifest.load files b.settings with
  | ok m => exact ⟨congrArg (m.answer · chunk language) hprovenance, hsettings, hfaithful⟩
  | error e => exact ⟨congrArg (Answer.ofError _ ·) hprovenance, hsettings, hfaithful⟩

/-- A backend that was made of a description, whether its manifest was read or not. -/
inductive Backend.MadeOf (registry : Registry) (files : Files) (spec : BackendSpec) : Backend → Prop
  | embedded {m : EmbeddedBackend} (hcreate : registry.create spec = .ok (.embedded { settings := m.settings }))
      (hm : m.Faithful files) : MadeOf registry files spec (.embedded m)
  | remote {m : RemoteBackend} (hcreate : registry.create spec = .ok (.remote m)) :
    MadeOf registry files spec (.remote m)
  | scripted (hcreate : registry.create spec = .ok .scripted) : MadeOf registry files spec .scripted

namespace Registry

/-- This description has the identity of the other one, and its backend can be made. -/
def serves (registry : Registry) (spec s : BackendSpec) : Bool :=
  s.identity == spec.identity && (registry.create s).isOk

theorem madeOf_create {registry : Registry} {spec : BackendSpec} {b : Backend} (h : registry.create spec = .ok b)
    (files : Files) : b.MadeOf registry files spec := by
  cases b with
  | embedded m =>
    obtain ⟨settings, manifest, loads⟩ := m
    have hnew : manifest = none ∧ loads = 0 := by
      cases registry with
      | builtIn =>
        cases spec with
        | embedded s =>
          cases h
          exact ⟨rfl, rfl⟩
        | remote s =>
          have hmap : (RemoteBackend.ofSettings s).map Backend.remote =
              .ok (.embedded { settings, manifest, loads }) := h
          cases hs : RemoteBackend.ofSettings s <;> rw [hs] at hmap <;> cases hmap
      | empty => cases h
      | scripted s => cases spec <;> cases h
    obtain ⟨rfl, rfl⟩ := hnew
    exact .embedded h nofun
  | remote m => exact .remote h
  | scripted => exact .scripted h

end Registry

namespace Backends

/-- The first of these descriptions, and then the last one, that has the identity of the last one and whose backend can
be made; if there is none, the last one. -/
def servant (bs : Backends) (earlier : List BackendSpec) (spec : BackendSpec) : BackendSpec :=
  ((earlier ++ [spec]).find? (bs.registry.serves spec)).getD spec

/-- Ask a backend that is kept under an identity. -/
def ask (bs : Backends) (identity : String) (b : Backend) (chunk : Chunk) (language : Language) (timeout : Duration) :
    Work × Backends :=
  match b with
  | .embedded m =>
    (.done (m.answer bs.files chunk language).1, bs.keep identity (.embedded (m.answer bs.files chunk language).2))
  | .remote m =>
    if !m.capabilities.supports language then (.done (m.answer timeout .unreachable chunk language), bs)
    else
      match m.timeout? timeout with
      | none => (⟨some 0, .error timeTooLong⟩, bs)
      | some time =>
        match bs.network m with
        | .silent => (⟨some time.ticks, .ok (m.answer time .silent chunk language)⟩, bs)
        | reply => (.done (m.answer time reply chunk language), bs)
  | .scripted =>
    ((bs.countCall chunk.index).registry.script.work ((bs.countCall chunk.index).callsFor chunk.index) chunk language,
      bs.countCall chunk.index)

/-- The answer where there is no backend. -/
def unavailable (spec : BackendSpec) (e : BackendError) : Answer :=
  .ofError s!"backend unavailable: {e.message}"
    { model := spec.model, revision := spec.revision, backend := spec.kind }

theorem work_eq (bs : Backends) (spec : BackendSpec) (chunk : Chunk) (language : Language) (timeout : Duration) :
    bs.work spec chunk language timeout = match bs.create spec with
      | (.error e, bs) => (.done (unavailable spec e), bs)
      | (.ok b, bs) => bs.ask spec.identity b chunk language timeout := by
  unfold work
  split
  · next h => rw [h]; rfl
  · next h => rw [h]; rfl
  · next h => rw [h]; rfl
  · next h => rw [h]; rfl

/-! ## After some questions -/

/-- The backends that a process has after it was asked with these descriptions, one after the other. -/
structure After (bs₀ : Backends) (specs : List BackendSpec) (bs : Backends) : Prop where
  registry : bs.registry = bs₀.registry
  files : bs.files = bs₀.files
  network : bs.network = bs₀.network
  made : ∀ spec b, bs.made.lookup spec.identity = some b →
    ∃ s, specs.find? (bs₀.registry.serves spec) = some s ∧ b.MadeOf bs₀.registry bs₀.files s
  unmade : ∀ spec, bs.made.lookup spec.identity = none → specs.find? (bs₀.registry.serves spec) = none

theorem after_nil {bs : Backends} (h : bs.made = []) : After bs [] bs where
  registry := rfl
  files := rfl
  network := rfl
  made := by
    intro spec b hb
    rw [h] at hb
    cases hb
  unmade _ _ := rfl

theorem lookup_kept {β : Type} (kept : List (String × β)) (identity name : String) (b : β) :
    List.lookup name ((identity, b) :: kept.filter (·.1 != identity)) =
      if name = identity then some b else kept.lookup name := by
  by_cases hname : name = identity
  · rw [if_pos hname, hname, List.lookup_cons_self]
  · rw [if_neg hname, List.lookup_cons, beq_false_of_ne hname]
    show (kept.filter (·.1 != identity)).lookup name = kept.lookup name
    induction kept with
    | nil => rfl
    | cons p ps ih =>
      by_cases hp : p.1 = identity
      · have hne : (name == p.1) = false := beq_false_of_ne (hp ▸ hname)
        rw [List.filter_cons_of_neg (by simp [hp]), ih, List.lookup_cons, hne]
      · rw [List.filter_cons_of_pos (by simp [hp]), List.lookup_cons, List.lookup_cons, ih]

theorem lookup_keep (bs : Backends) (identity name : String) (b : Backend) :
    (bs.keep identity b).made.lookup name = if name = identity then some b else bs.made.lookup name :=
  lookup_kept bs.made identity name b

section Asked

variable {bs₀ bs : Backends} {specs : List BackendSpec} {spec : BackendSpec}

theorem serves_congr {registry : Registry} {spec' : BackendSpec} (h : spec'.identity = spec.identity) :
    registry.serves spec' = registry.serves spec := by
  unfold Registry.serves
  rw [h]

/-- A backend may be kept that was made of the description that serves. -/
theorem After.keep (h : After bs₀ specs bs) {s : BackendSpec} {b : Backend}
    (hserves : specs.find? (bs₀.registry.serves spec) = some s) (hb : b.MadeOf bs₀.registry bs₀.files s) :
    After bs₀ specs (bs.keep spec.identity b) where
  registry := h.registry
  files := h.files
  network := h.network
  made := by
    intro spec' b' hb'
    rw [lookup_keep] at hb'
    split at hb'
    · next hname =>
      obtain rfl := Option.some.inj hb'
      rw [serves_congr hname]
      exact ⟨s, hserves, hb⟩
    · exact h.made spec' b' hb'
  unmade := by
    intro spec' hnone
    rw [lookup_keep] at hnone
    split at hnone
    · cases hnone
    · exact h.unmade spec' hnone

/-- A question for a description that serves nobody who is not served already. -/
theorem After.concat (h : After bs₀ specs bs)
    (hserves : ∀ spec', specs.find? (bs₀.registry.serves spec') = none → bs₀.registry.serves spec' spec = false) :
    After bs₀ (specs ++ [spec]) bs where
  registry := h.registry
  files := h.files
  network := h.network
  made := by
    intro spec' b hb
    obtain ⟨s, hs, hmade⟩ := h.made spec' b hb
    exact ⟨s, by rw [List.find?_append, hs, Option.some_or], hmade⟩
  unmade := by
    intro spec' hnone
    have hbefore := h.unmade spec' hnone
    rw [List.find?_append, hbefore, Option.none_or, List.find?_cons, hserves spec' hbefore]
    rfl

/-- A question for a description whose identity is new. -/
theorem After.concat_keep (h : After bs₀ specs bs) (hnone : bs.made.lookup spec.identity = none) {b : Backend}
    (hcreate : bs₀.registry.create spec = .ok b) : After bs₀ (specs ++ [spec]) (bs.keep spec.identity b) where
  registry := h.registry
  files := h.files
  network := h.network
  made := by
    intro spec' b' hb'
    rw [lookup_keep] at hb'
    split at hb'
    · next hname =>
      obtain rfl := Option.some.inj hb'
      have hserves : bs₀.registry.serves spec spec = true := by
        unfold Registry.serves
        rw [hcreate, beq_self_eq_true]
        rfl
      refine ⟨spec, ?_, Registry.madeOf_create hcreate _⟩
      rw [serves_congr hname, List.find?_append, h.unmade spec hnone, Option.none_or, List.find?_cons, hserves]
    · obtain ⟨s, hs, hmade⟩ := h.made spec' b' hb'
      exact ⟨s, by rw [List.find?_append, hs, Option.some_or], hmade⟩
  unmade := by
    intro spec' hnone'
    rw [lookup_keep] at hnone'
    split at hnone'
    · cases hnone'
    · next hname =>
      have hother : bs₀.registry.serves spec' spec = false := by
        unfold Registry.serves
        rw [beq_false_of_ne (Ne.symm hname), Bool.false_and]
      rw [List.find?_append, h.unmade spec' hnone', Option.none_or, List.find?_cons, hother]
      rfl

theorem servant_eq {s : BackendSpec} (h : (specs ++ [spec]).find? (bs₀.registry.serves spec) = some s) :
    bs₀.servant specs spec = s := by
  unfold servant
  rw [h]
  rfl

/-- What is found for a description, or made of it. -/
theorem After.create (h : After bs₀ specs bs) :
    (∃ b bs', bs.create spec = (.ok b, bs') ∧ b.MadeOf bs₀.registry bs₀.files (bs₀.servant specs spec) ∧
        (specs ++ [spec]).find? (bs₀.registry.serves spec) = some (bs₀.servant specs spec) ∧
        After bs₀ (specs ++ [spec]) bs' ∧ bs'.calls = bs.calls) ∨
      ∃ e, bs.create spec = (.error e, bs) ∧ bs₀.registry.create spec = .error e ∧ bs₀.servant specs spec = spec ∧
        After bs₀ (specs ++ [spec]) bs := by
  unfold Backends.create
  rw [h.registry]
  cases hlookup : bs.made.lookup spec.identity with
  | some b =>
    obtain ⟨s, hs, hmade⟩ := h.made spec b hlookup
    have hfound : (specs ++ [spec]).find? (bs₀.registry.serves spec) = some s := by
      rw [List.find?_append, hs, Option.some_or]
    refine .inl ⟨b, bs, rfl, ?_, ?_, h.concat fun spec' hnone => ?_, rfl⟩
    · rw [servant_eq hfound]
      exact hmade
    · rw [servant_eq hfound]
      exact hfound
    · unfold Registry.serves
      refine Bool.eq_false_iff.2 fun hserves => ?_
      have hname : spec.identity = spec'.identity := eq_of_beq (Bool.and_eq_true_iff.1 hserves).1
      rw [serves_congr hname.symm, hs] at hnone
      cases hnone
  | none =>
    have hbefore := h.unmade spec hlookup
    cases hcreate : bs₀.registry.create spec with
    | ok b =>
      have hnew := h.concat_keep hlookup hcreate
      obtain ⟨s, hs, hmade⟩ := hnew.made spec b (by rw [lookup_keep, if_pos rfl])
      refine .inl ⟨b, _, rfl, ?_, ?_, hnew, rfl⟩
      · rw [servant_eq hs]
        exact hmade
      · rw [servant_eq hs]
        exact hs
    | error e =>
      have hserves (spec' : BackendSpec) : bs₀.registry.serves spec' spec = false := by
        unfold Registry.serves
        rw [hcreate]
        exact Bool.and_false _
      refine .inr ⟨e, rfl, rfl, ?_, h.concat fun spec' _ => hserves spec'⟩
      unfold servant
      rw [List.find?_append, hbefore, Option.none_or, List.find?_cons, hserves]
      rfl

theorem After.countCall (h : After bs₀ specs bs) (chunk : Nat) : After bs₀ specs (bs.countCall chunk) :=
  ⟨h.registry, h.files, h.network, h.made, h.unmade⟩

/-- Where nothing was asked before, every backend is made. -/
theorem create_of_new (hnew : bs.made = []) (spec : BackendSpec) :
    bs.create spec = match bs.registry.create spec with
      | .ok b => (.ok b, bs.keep spec.identity b)
      | .error e => (.error e, bs) := by
  unfold Backends.create
  rw [hnew]
  cases bs.registry.create spec <;> rfl

theorem work_of_create_ok {s : BackendSpec} {b : Backend} (hnew : bs₀.made = [])
    (hcreate : bs₀.registry.create s = .ok b) (calls : List (Nat × Nat)) (chunk : Chunk) (language : Language)
    (timeout : Duration) : { bs₀ with calls }.work s chunk language timeout =
      ({ bs₀ with calls }.keep s.identity b).ask s.identity b chunk language timeout := by
  rw [work_eq, @create_of_new { bs₀ with calls } hnew]
  dsimp only
  rw [hcreate]

/-- Backends that were made of one description answer alike. -/
theorem After.ask (h : After bs₀ specs bs) (hnew : bs₀.made = []) {s : BackendSpec} {b : Backend}
    (hserves : specs.find? (bs₀.registry.serves spec) = some s) (hb : b.MadeOf bs₀.registry bs₀.files s)
    (chunk : Chunk) (language : Language) (timeout : Duration) :
    (bs.ask spec.identity b chunk language timeout).1 =
        ({ bs₀ with calls := bs.calls }.work s chunk language timeout).1 ∧
      After bs₀ specs (bs.ask spec.identity b chunk language timeout).2 := by
  cases hb with
  | embedded hcreate hm =>
    rename_i m
    obtain ⟨hanswer, hsettings, hfaithful⟩ := hm.answer chunk language
    rw [work_of_create_ok hnew hcreate]
    unfold Backends.ask
    dsimp only
    rw [h.files]
    refine ⟨congrArg Work.done hanswer, h.keep hserves (.embedded ?_ hfaithful)⟩
    rw [hsettings]
    exact hcreate
  | remote hcreate =>
    rename_i m
    have hnetwork : ({ bs₀ with calls := bs.calls }.keep s.identity (.remote m)).network m = bs₀.network m := rfl
    rw [work_of_create_ok hnew hcreate]
    unfold Backends.ask
    dsimp only
    rw [h.network, hnetwork]
    split
    · exact ⟨rfl, h⟩
    · cases m.timeout? timeout with
      | none => exact ⟨rfl, h⟩
      | some time => cases bs₀.network m <;> exact ⟨rfl, h⟩
  | scripted hcreate =>
    rw [work_of_create_ok hnew hcreate]
    refine ⟨?_, h.countCall _⟩
    show bs.registry.script.work _ _ _ = bs₀.registry.script.work _ _ _
    rw [h.registry]
    rfl

/-- What comes of a question is what comes of it where nothing was asked before, for the description that serves. -/
theorem After.work (h : After bs₀ specs bs) (hnew : bs₀.made = []) (chunk : Chunk) (language : Language)
    (timeout : Duration) :
    (bs.work spec chunk language timeout).1 =
        ({ bs₀ with calls := bs.calls }.work (bs₀.servant specs spec) chunk language timeout).1 ∧
      After bs₀ (specs ++ [spec]) (bs.work spec chunk language timeout).2 := by
  rw [work_eq]
  rcases h.create with ⟨b, bs', hcreate, hmade, hserves, hafter, hcalls⟩ | ⟨e, hcreate, hfail, hself, hafter⟩
  · rw [hcreate, ← hcalls]
    exact hafter.ask hnew hserves hmade chunk language timeout
  · rw [hcreate, hself, work_eq { bs₀ with calls := bs.calls }, @create_of_new { bs₀ with calls := bs.calls } hnew]
    dsimp only
    rw [hfail]
    exact ⟨rfl, hafter⟩

end Asked

end Backends

end Pseudoscribe
