import Mathlib.Data.List.Induction
import Pseudoscribe.Proofs.Backend.Reuse
import Pseudoscribe.Proofs.Cache.Key

/-!
# Whose backend is kept

A process keeps one backend for each identity.  So what it gives for a description is, whatever makes the backends and
whatever was asked before, what is made of the first description so far with this identity that anything could be made
of.  For whom this is his own description the keeping cannot be told from making each backend anew; it is for everyone
who takes his descriptions from one configuration.
-/

namespace Pseudoscribe

namespace Backends

/-! ## Keeping what is made -/

section Made

variable {β ε : Type}

/-- Something can be made of the description `s`, and it would be kept under the identity of `spec`. -/
def standsIn (make : BackendSpec → Except ε β) (spec s : BackendSpec) : Bool :=
  s.identity == spec.identity && (make s).isOk

/-- The first of these descriptions, and then the last one, with the identity of the last one of which anything can
be made; if there is none, the last one. -/
def firstMade (make : BackendSpec → Except ε β) (earlier : List BackendSpec) (spec : BackendSpec) : BackendSpec :=
  ((earlier ++ [spec]).find? (standsIn make spec)).getD spec

/-- What is kept under the identity of a description, or else made of it, and what is kept then. -/
def reuse (make : BackendSpec → Except ε β) (kept : List (String × β)) (spec : BackendSpec) :
    Except ε β × List (String × β) :=
  match kept.lookup spec.identity with
  | some b => (.ok b, kept)
  | none =>
    match make spec with
    | .ok b => (.ok b, (spec.identity, b) :: kept.filter (·.1 != spec.identity))
    | .error e => (.error e, kept)

/-- What is kept after these descriptions were asked for, one after the other. -/
def keptAfter (make : BackendSpec → Except ε β) (specs : List BackendSpec) : List (String × β) :=
  specs.foldl (fun kept spec => (reuse make kept spec).2) []

theorem keptAfter_concat (make : BackendSpec → Except ε β) (specs : List BackendSpec) (spec : BackendSpec) :
    keptAfter make (specs ++ [spec]) = (reuse make (keptAfter make specs) spec).2 := by
  unfold keptAfter
  rw [List.foldl_append]
  rfl

theorem standsIn_congr {make : BackendSpec → Except ε β} {spec spec' : BackendSpec}
    (h : spec'.identity = spec.identity) : standsIn make spec' = standsIn make spec := by
  unfold standsIn
  rw [h]

theorem standsIn_self {make : BackendSpec → Except ε β} {spec : BackendSpec} {b : β} (h : make spec = .ok b) :
    standsIn make spec spec = true := by
  unfold standsIn
  rw [h, beq_self_eq_true]
  rfl

/-- The backends of a process are kept this way. -/
theorem create_eq_reuse (bs : Backends) (spec : BackendSpec) :
    bs.create spec = ((reuse bs.registry.create bs.made spec).1,
      { bs with made := (reuse bs.registry.create bs.made spec).2 }) := by
  unfold create reuse
  cases bs.made.lookup spec.identity with
  | some b => rfl
  | none => cases bs.registry.create spec <;> rfl

/-- What is kept under an identity was made of the first description with it that anything could be made of. -/
theorem lookup_keptAfter (make : BackendSpec → Except ε β) (specs : List BackendSpec) (spec : BackendSpec) :
    ((keptAfter make specs).lookup spec.identity).map Except.ok = (specs.find? (standsIn make spec)).map make := by
  induction specs using List.reverseRecOn generalizing spec with
  | nil => rfl
  | append_singleton specs s ih =>
    rw [keptAfter_concat, List.find?_append]
    unfold reuse
    cases hkept : (keptAfter make specs).lookup s.identity with
    | some b =>
      -- nothing is made: another description stands in for `s` already
      dsimp only
      rw [ih spec]
      cases hfind : specs.find? (standsIn make spec) with
      | some t => rfl
      | none =>
        have hother : s.identity ≠ spec.identity := by
          intro hname
          have hs := ih s
          rw [hkept, ← standsIn_congr hname.symm, hfind] at hs
          cases hs
        rw [Option.none_or, List.find?_singleton, standsIn, beq_false_of_ne hother]
        rfl
    | none =>
      have hnone : specs.find? (standsIn make s) = none := by
        have hs := ih s
        rw [hkept] at hs
        exact Option.map_eq_none_iff.1 hs.symm
      cases hmake : make s with
      | error e =>
        dsimp only
        have hnot : standsIn make spec s = false := by
          unfold standsIn
          rw [hmake]
          exact Bool.and_false _
        rw [ih spec, List.find?_singleton, hnot]
        simp
      | ok b =>
        dsimp only
        rw [lookup_kept]
        by_cases hname : spec.identity = s.identity
        · rw [if_pos hname, standsIn_congr hname, hnone, Option.none_or, List.find?_singleton,
            standsIn_self hmake]
          exact congrArg some hmake.symm
        · have hnot : standsIn make spec s = false := by
            unfold standsIn
            rw [beq_false_of_ne (Ne.symm hname), Bool.false_and]
          rw [if_neg hname, ih spec, List.find?_singleton, hnot]
          simp

/-- Whatever was asked for before, the first description with this identity decides. -/
theorem reuse_keptAfter (make : BackendSpec → Except ε β) (specs : List BackendSpec) (spec : BackendSpec) :
    (reuse make (keptAfter make specs) spec).1 = make (firstMade make specs spec) := by
  have hkept := lookup_keptAfter make specs spec
  unfold reuse firstMade
  rw [List.find?_append]
  cases hfind : specs.find? (standsIn make spec) with
  | some s =>
    rw [hfind] at hkept
    cases hlookup : (keptAfter make specs).lookup spec.identity with
    | none =>
      rw [hlookup] at hkept
      cases hkept
    | some b =>
      rw [hlookup] at hkept
      exact Option.some.inj hkept
  | none =>
    rw [hfind] at hkept
    rw [Option.map_eq_none_iff.1 hkept, Option.none_or, List.find?_singleton]
    have hself : (if standsIn make spec spec = true then some spec else none).getD spec = spec := by
      split <;> rfl
    rw [hself]
    cases make spec <;> rfl

/-- The own description decides where all with its identity are the same to the maker. -/
theorem make_firstMade {make : BackendSpec → Except ε β} {specs : List BackendSpec} {spec : BackendSpec}
    (h : ∀ s ∈ specs, s.identity = spec.identity → (make s).isOk = true → make spec = make s) :
    make (firstMade make specs spec) = make spec := by
  unfold firstMade
  cases hfind : (specs ++ [spec]).find? (standsIn make spec) with
  | none => rfl
  | some s =>
    have hstands : standsIn make spec s = true := List.find?_some hfind
    obtain ⟨hname, hok⟩ := Bool.and_eq_true_iff.1 hstands
    rcases List.mem_append.1 (List.mem_of_find?_eq_some hfind) with hs | hs
    · exact (h s hs (eq_of_beq hname) hok).symm
    · rw [List.mem_singleton.1 hs]
      rfl

/-- Keeping cannot be told from making anew, for those who ask with these descriptions, exactly if any two of them with
one identity are the same to the maker, once anything can be made of the one. -/
theorem forall_reuse_eq_iff (make : BackendSpec → Except ε β) (asked : BackendSpec → Prop) :
    (∀ specs spec, (∀ s ∈ specs, asked s) → asked spec → (reuse make (keptAfter make specs) spec).1 = make spec) ↔
      ∀ s t, asked s → asked t → s.identity = t.identity → (make s).isOk = true → make t = make s := by
  constructor
  · intro h s t hs ht hname hok
    have hgiven := h [s] t (fun s' hs' => List.mem_singleton.1 hs' ▸ hs) ht
    have hstands : standsIn make t s = true := Bool.and_eq_true_iff.2 ⟨beq_iff_eq.2 hname, hok⟩
    rw [reuse_keptAfter, firstMade, List.singleton_append, List.find?_cons_of_pos hstands] at hgiven
    exact hgiven.symm
  · intro h specs spec hspecs hspec
    rw [reuse_keptAfter]
    exact make_firstMade fun s hs hname hok => h s spec (hspecs s hs) hspec hname hok

end Made

/-! ## Asking what is kept -/

/-- What a process is asked of the backend of a description: to have it, what it can do, or the code for a chunk. -/
inductive Use where
  | create (spec : BackendSpec)
  | check (spec : BackendSpec)
  | work (spec : BackendSpec) (chunk : Chunk) (language : Language) (timeout : Duration)

def Use.spec : Use → BackendSpec
  | create spec => spec
  | check spec => spec
  | work spec .. => spec

/-- The backends behind a use. -/
def use (bs : Backends) : Use → Backends
  | .create spec => (bs.create spec).2
  | .check spec => (bs.check spec).2
  | .work spec chunk language timeout => (bs.work spec chunk language timeout).2

def useAll (bs : Backends) (uses : List Use) : Backends := uses.foldl use bs

theorem useAll_concat (bs : Backends) (uses : List Use) (u : Use) :
    bs.useAll (uses ++ [u]) = (bs.useAll uses).use u := by
  unfold useAll
  rw [List.foldl_append]
  rfl

/-- What a description is given is what another one would be given where nothing was asked before: an error in place
of a backend, what the backend can do, and its answers. -/
structure GivenAs (bs₀ bs : Backends) (spec s : BackendSpec) : Prop where
  create : ∀ e, (bs.create spec).1 = .error e ↔ (bs₀.create s).1 = .error e
  check : (bs.check spec).1 = (bs₀.check s).1
  work : ∀ chunk language timeout, (bs.work spec chunk language timeout).1 =
    ({ bs₀ with calls := bs.calls }.work s chunk language timeout).1

section Asked

variable {bs₀ bs : Backends} {specs : List BackendSpec} {spec : BackendSpec}

/-- Check a backend that is kept under an identity. -/
def probe (bs : Backends) (identity : String) (b : Backend) : Except BackendError Capabilities × Backends :=
  match b with
  | .embedded m =>
    match m.load bs.files with
    | (.ok manifest, m) => (.ok manifest.capabilities, bs.keep identity (.embedded m))
    | (.error e, _) => (.error e, bs)
  | .remote m => (m.check.map fun _ => m.capabilities, bs)
  | .scripted => (.ok Script.capabilities, bs)

theorem check_eq (bs : Backends) (spec : BackendSpec) :
    bs.check spec = match bs.create spec with
      | (.error e, bs) => (.error e, bs)
      | (.ok b, bs) => bs.probe spec.identity b := by
  unfold check
  split
  · next h => rw [h]
  · next h => rw [h]; rfl
  · next h => rw [h]; rfl
  · next h => rw [h]; rfl

theorem probe_embedded (bs : Backends) (identity : String) (m : EmbeddedBackend) :
    (bs.probe identity (.embedded m)).1 = (m.load bs.files).1.map Manifest.capabilities := by
  unfold probe
  dsimp only
  rcases m.load bs.files with ⟨found | found, behind⟩ <;> rfl

/-- Backends that were made of one description can do the same. -/
theorem After.probe (h : After bs₀ specs bs) {s : BackendSpec} {b : Backend}
    (hserves : specs.find? (bs₀.registry.serves spec) = some s) (hb : b.MadeOf bs₀.registry bs₀.files s) :
    (∃ b₀, bs₀.registry.create s = .ok b₀ ∧ (bs.probe spec.identity b).1 =
        ((bs₀.keep s.identity b₀).probe s.identity b₀).1) ∧
      After bs₀ specs (bs.probe spec.identity b).2 := by
  cases hb with
  | embedded hcreate hm =>
    rename_i m
    obtain ⟨hload, hsettings, hfaithful⟩ := hm.load
    have hnew : EmbeddedBackend.Faithful bs₀.files { settings := m.settings } := nofun
    refine ⟨⟨_, hcreate, ?_⟩, ?_⟩
    · rw [probe_embedded, probe_embedded, h.files, hload]
      exact congrArg (Except.map Manifest.capabilities) hnew.load.1.symm
    · unfold Backends.probe
      dsimp only
      rw [h.files]
      rcases hm' : m.load bs₀.files with ⟨found, behind⟩
      rw [hm'] at hsettings hfaithful
      cases found with
      | ok manifest => exact h.keep hserves (.embedded (hsettings ▸ hcreate) hfaithful)
      | error e => exact h
  | remote hcreate => exact ⟨⟨_, hcreate, rfl⟩, h⟩
  | scripted hcreate => exact ⟨⟨_, hcreate, rfl⟩, h⟩

/-- What a backend can do is what the one can that is made where nothing was asked before. -/
theorem After.check (h : After bs₀ specs bs) (hnew : bs₀.made = []) :
    (bs.check spec).1 = (bs₀.check (bs₀.servant specs spec)).1 ∧ After bs₀ (specs ++ [spec]) (bs.check spec).2 := by
  rw [check_eq, check_eq, create_of_new hnew]
  rcases h.create with ⟨b, bs', hcreate, hmade, hserves, hafter, -⟩ | ⟨e, hcreate, hfail, hself, hafter⟩
  · obtain ⟨⟨b₀, hmake, heq⟩, hprobe⟩ := hafter.probe hserves hmade
    rw [hcreate, hmake]
    exact ⟨heq, hprobe⟩
  · rw [hcreate, hself, hfail]
    exact ⟨rfl, hafter⟩

/-- What a process was used for matters by the descriptions alone. -/
theorem After.use (h : After bs₀ specs bs) (hnew : bs₀.made = []) (u : Use) :
    After bs₀ (specs ++ [u.spec]) (bs.use u) := by
  cases u with
  | create spec =>
    rcases h.create with ⟨b, bs', hcreate, -, -, hafter, -⟩ | ⟨e, hcreate, -, -, hafter⟩
    · show After bs₀ (specs ++ [spec]) (bs.create spec).2
      rw [hcreate]
      exact hafter
    · show After bs₀ (specs ++ [spec]) (bs.create spec).2
      rw [hcreate]
      exact hafter
  | check spec => exact (h.check hnew).2
  | work spec chunk language timeout => exact (h.work hnew chunk language timeout).2

theorem after_useAll (hnew : bs₀.made = []) (uses : List Use) :
    After bs₀ (uses.map Use.spec) (bs₀.useAll uses) := by
  induction uses using List.reverseRecOn with
  | nil => exact after_nil hnew
  | append_singleton uses u ih =>
    rw [useAll_concat, List.map_append]
    exact ih.use hnew u

/-- After any uses a description is given what the first one so far with its identity would be given that anything can
be made of. -/
theorem givenAs_servant (hnew : bs₀.made = []) (uses : List Use) (spec : BackendSpec) :
    GivenAs bs₀ (bs₀.useAll uses) spec (bs₀.servant (uses.map Use.spec) spec) := by
  have h := after_useAll hnew uses
  refine ⟨fun e => ?_, (h.check hnew).1, fun chunk language timeout => (h.work hnew chunk language timeout).1⟩
  rw [create_of_new hnew]
  rcases h.create with ⟨b, bs', hcreate, hmade, -, -, -⟩ | ⟨e', hcreate, hfail, hself, -⟩
  · have hmake : ∃ b₀, bs₀.registry.create (bs₀.servant (uses.map Use.spec) spec) = .ok b₀ := by
      cases hmade with
      | embedded hmake => exact ⟨_, hmake⟩
      | remote hmake => exact ⟨_, hmake⟩
      | scripted hmake => exact ⟨_, hmake⟩
    obtain ⟨b₀, hmake⟩ := hmake
    rw [hcreate, hmake]
    constructor
    · rintro ⟨⟩
    · rintro ⟨⟩
  · rw [hcreate, hself, hfail]

end Asked

end Backends

/-! ## Descriptions of one configuration -/

namespace BackendSpec

/-- The place where the model of a description is found. -/
def place : BackendSpec → String
  | embedded m => m.directory
  | remote m => m.baseUrl

/-- The identity up to the revision. -/
def stem (spec : BackendSpec) : List Char :=
  spec.kind.name.toList ++ ':' :: spec.place.toList ++ ':' :: spec.model.toList ++ ['@']

theorem toList_identity (spec : BackendSpec) : spec.identity.toList = spec.stem ++ spec.revision.toList := by
  have htext (s : String) : toString s = s := rfl
  cases spec with
  | embedded m =>
    have hname : "local:".toList = BackendKind.embedded.name.toList ++ [':'] := by decide
    simp [identity, stem, revision, kind, place, model, htext, hname]
  | remote m =>
    have hname : "remote:".toList = BackendKind.remote.name.toList ++ [':'] := by decide
    simp [identity, stem, revision, kind, place, model, htext, hname]

/-- The kind can be read off the identity. -/
theorem kind_eq_of_identity_eq {s t : BackendSpec} (h : s.identity = t.identity) : s.kind = t.kind := by
  have hchars : s.kind.name.toList ++ ':' :: (s.place.toList ++ ':' :: s.model.toList ++ ['@'] ++ s.revision.toList) =
      t.kind.name.toList ++ ':' :: (t.place.toList ++ ':' :: t.model.toList ++ ['@'] ++ t.revision.toList) := by
    have hlist := congrArg String.toList h
    rw [toList_identity, toList_identity] at hlist
    simpa [stem] using hlist
  have hname := ((append_mark_inj_left (CacheQuery.colon_notMem_name _) (CacheQuery.colon_notMem_name _)).1 hchars).1
  have hback := congrArg BackendKind.ofName? (String.toList_inj.1 hname)
  rw [BackendKind.ofName?_name, BackendKind.ofName?_name] at hback
  exact Option.some.inj hback

end BackendSpec

namespace Profiles

/-- The configuration gives this description to those who ask for some kind of backend and some revision. -/
def Gives (p : Profiles) (spec : BackendSpec) : Prop :=
  ∃ kind revision, p.resolve kind revision = .ok spec

theorem exists_of_gives {p : Profiles} {spec : BackendSpec} (h : p.Gives spec) :
    ∃ s revision, p.spec? spec.kind = some s ∧ spec = s.withRevision revision := by
  obtain ⟨kind, revision, hspec⟩ := h
  unfold resolve at hspec
  cases hfound : p.spec? kind with
  | none => simp [hfound] at hspec
  | some s =>
    simp only [hfound, Except.ok.injEq] at hspec
    have hkind : spec.kind = kind := by
      subst hspec
      cases kind <;> (obtain ⟨m, -, rfl⟩ := Option.map_eq_some_iff.1 hfound; rfl)
    exact ⟨s, revision, by rw [hkind, hfound], hspec.symm⟩

/-- A configuration fixes all of a description but the kind and the revision, and both can be read off the identity. -/
theorem eq_of_identity_eq {p : Profiles} {s t : BackendSpec} (hs : p.Gives s) (ht : p.Gives t)
    (h : s.identity = t.identity) : s = t := by
  obtain ⟨s₀, r, hfound, rfl⟩ := exists_of_gives hs
  obtain ⟨t₀, r', hfound', rfl⟩ := exists_of_gives ht
  rw [BackendSpec.kind_eq_of_identity_eq h] at hfound
  obtain rfl := Option.some.inj (hfound.symm.trans hfound')
  have hstem : (s₀.withRevision r).stem = (s₀.withRevision r').stem := by
    cases s₀ <;> rfl
  have hchars := congrArg String.toList h
  rw [BackendSpec.toList_identity, BackendSpec.toList_identity, hstem, List.append_cancel_left_eq,
    String.toList_inj] at hchars
  cases s₀ with
  | embedded m =>
    obtain rfl : r = r' := hchars
    rfl
  | remote m =>
    obtain rfl : r = r' := hchars
    rfl

end Profiles

/-! ## The backend of a description -/

namespace Backends

theorem firstMade_of_gives {β ε : Type} (make : BackendSpec → Except ε β) {p : Profiles} {specs : List BackendSpec}
    {spec : BackendSpec} (hspecs : ∀ s ∈ specs, p.Gives s) (hspec : p.Gives spec) :
    firstMade make specs spec = spec := by
  unfold firstMade
  cases hfind : (specs ++ [spec]).find? (standsIn make spec) with
  | none => rfl
  | some s =>
    have hstands : standsIn make spec s = true := List.find?_some hfind
    have hname := eq_of_beq (Bool.and_eq_true_iff.1 hstands).1
    rcases List.mem_append.1 (List.mem_of_find?_eq_some hfind) with hs | hs
    · exact Profiles.eq_of_identity_eq (hspecs s hs) hspec hname
    · exact List.mem_singleton.1 hs

/-- A process gives for a description what is made of the first one so far with its identity that anything can be made
of, whatever makes the backends.  So keeping them cannot be told from making them anew exactly for those whose
descriptions with one identity are the same to the maker.  It stays like that while the backends are used, and for
descriptions of one configuration everybody is given his own. -/
theorem first_made_serves (registry : Registry) (files : Files) (network : RemoteBackend → RemoteReply) :
    (∀ (β ε : Type) (make : BackendSpec → Except ε β),
      (∀ specs spec, (reuse make (keptAfter make specs) spec).1 = make (firstMade make specs spec)) ∧
      ∀ asked : BackendSpec → Prop,
        (∀ specs spec, (∀ s ∈ specs, asked s) → asked spec →
          (reuse make (keptAfter make specs) spec).1 = make spec) ↔
        ∀ s t, asked s → asked t → s.identity = t.identity → (make s).isOk = true → make t = make s) ∧
    (∀ (bs : Backends) (spec : BackendSpec), bs.create spec = ((reuse bs.registry.create bs.made spec).1,
      { bs with made := (reuse bs.registry.create bs.made spec).2 })) ∧
    (∀ (uses : List Use) (spec : BackendSpec),
      GivenAs { registry, files, network } (useAll { registry, files, network } uses) spec
        (firstMade registry.create (uses.map Use.spec) spec)) ∧
    ∀ (p : Profiles) (uses : List Use) (spec : BackendSpec), (∀ u ∈ uses, p.Gives u.spec) → p.Gives spec →
      GivenAs { registry, files, network } (useAll { registry, files, network } uses) spec spec := by
  have hgiven (uses : List Use) (spec : BackendSpec) :
      GivenAs { registry, files, network } (useAll { registry, files, network } uses) spec
        (firstMade registry.create (uses.map Use.spec) spec) := givenAs_servant rfl uses spec
  refine ⟨fun β ε make => ⟨reuse_keptAfter make, forall_reuse_eq_iff make⟩, create_eq_reuse, hgiven, ?_⟩
  intro p uses spec huses hspec
  have hown := hgiven uses spec
  rwa [firstMade_of_gives registry.create _ hspec] at hown
  intro s hs
  obtain ⟨u, hu, rfl⟩ := List.mem_map.1 hs
  exact huses u hu

/-- A model in a service that nobody can reach, with these languages. -/
def unreachable (languages : List String) : RemoteModel where
  baseUrl := "http://[::1]"
  model := "coder"
  revision := "r1"
  timeoutSeconds := Double.ofNat 30
  defaultConfidence := Double.ofRatio false 3 4
  languages
  maxContextTokens := 8192

/-- Another revision of the model of one configuration is another backend. -/
theorem first_made_serves_revision :
    ({ remote := some (unreachable []) } : Profiles).Gives (.remote (unreachable [])) ∧
    ({ remote := some (unreachable []) } : Profiles).Gives (.remote { unreachable [] with revision := "r2" }) ∧
    GivenAs { registry := .builtIn, files := fun _ => .missing }
      (useAll { registry := .builtIn, files := fun _ => .missing } [.create (.remote (unreachable []))])
      (.remote { unreachable [] with revision := "r2" }) (.remote { unreachable [] with revision := "r2" }) := by
  have hfirst : ({ remote := some (unreachable []) } : Profiles).Gives (.remote (unreachable [])) :=
    ⟨.remote, "r1", rfl⟩
  have hsecond : ({ remote := some (unreachable []) } : Profiles).Gives
      (.remote { unreachable [] with revision := "r2" }) := ⟨.remote, "r2", rfl⟩
  obtain ⟨-, -, -, hown⟩ := first_made_serves .builtIn (fun _ => .missing) fun _ => .unreachable
  refine ⟨hfirst, hsecond, hown _ _ _ (fun u hu => ?_) hsecond⟩
  rw [List.mem_singleton.1 hu]
  exact hfirst

theorem eq_ok_of_toOption {α ε : Type} {x : Except ε α} {a : α} (h : x.toOption = some a) : x = .ok a := by
  cases x with
  | error e => cases h
  | ok b => exact congrArg Except.ok (Option.some.inj h)

/-- A description is given a backend that cannot do what its own can: one that was made before, of a description with
the same identity and other languages. -/
theorem exists_given_other :
    (BackendSpec.remote (unreachable ["rust"])).identity = (BackendSpec.remote (unreachable [])).identity ∧
    ((use { registry := .builtIn, files := fun _ => .missing } (.create (.remote (unreachable ["rust"])))).check
      (.remote (unreachable []))).1 = .ok ⟨false, 8192, ["rust"]⟩ ∧
    (check { registry := .builtIn, files := fun _ => .missing } (.remote (unreachable []))).1 =
      .ok ⟨false, 8192, []⟩ :=
  ⟨rfl, eq_ok_of_toOption (by decide +kernel), eq_ok_of_toOption (by decide +kernel)⟩

end Backends

end Pseudoscribe
