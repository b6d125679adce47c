import Mathlib.Data.List.Forall2
import Pseudoscribe.Proofs.Cache.Count

/-!
# The store as a map of what was used last

What the store does, without its numbers in sequence, its order of keys and its count: a list of values, the one used
last first.  Saving and reading put a value to the front; when one is saved the list is cut where the room ends.  In
the store the values stand by key, and the same list is what their numbers in sequence sort them to.  Each step keeps
that, so every run from an empty store gives the answers and the numbers of this map, whatever the store is opened
again with.
-/

namespace Pseudoscribe

/-- Values under keys, the one used last first, and room for some of them. -/
structure RecentMap where
  capacity : Nat
  values : List (String × Assembly) := []
  hits : Nat := 0
  misses : Nat := 0

/-- A step of a run: a use, or the store is closed and opened again. -/
inductive StoreStep where
  | use (u : StoreUse)
  | reopen (maxEntries : Nat)
deriving Repr

/-- The answers to some steps, one after the other, and the state behind them. -/
def runSteps {σ α β : Type} (step : σ → α → β × σ) (s : σ) : List α → List β × σ
  | [] => ([], s)
  | a :: as => ((step s a).1 :: (runSteps step (step s a).2 as).1, (runSteps step (step s a).2 as).2)

namespace RecentMap

def without (key : String) (vs : List (String × Assembly)) : List (String × Assembly) := vs.filter (·.1 != key)

def find? (m : RecentMap) (key : String) : Option Assembly := m.values.lookup key

def save (m : RecentMap) (key : String) (value : Assembly) : RecentMap :=
  { m with values := ((key, value) :: without key m.values).take m.capacity }

def retrieve (m : RecentMap) (key : String) : Option Assembly × RecentMap :=
  match m.find? key with
  | none => (none, { m with misses := m.misses + 1 })
  | some value => (some value, { m with values := (key, value) :: without key m.values, hits := m.hits + 1 })

def remove (m : RecentMap) (key : String) : RecentMap := { m with values := without key m.values }

def step (m : RecentMap) : StoreStep → Option Assembly × RecentMap
  | .use (.save key value) => (none, m.save key value)
  | .use (.retrieve key) => m.retrieve key
  | .use (.remove key) => (none, m.remove key)
  | .reopen capacity => (none, { capacity, values := m.values })

theorem mem_values_of_find? {m : RecentMap} {key : String} {value : Assembly} (h : m.find? key = some value) :
    (key, value) ∈ m.values := by
  obtain ⟨before, behind, hvalues, -⟩ := List.lookup_eq_some_iff.1 h
  rw [hvalues]
  exact List.mem_append_right _ List.mem_cons_self

end RecentMap

namespace ResultStore

/-- A store that is refused is not opened again. -/
def step (s : ResultStore) : StoreStep → Except StoreError (Option Assembly) × ResultStore
  | .use u => s.use u
  | .reopen maxEntries =>
    match load maxEntries s.entries with
    | .ok s => (.ok none, s)
    | .error e => (.error e, s)

/-! ## The values by their last use -/

/-- The same values, the one used last first; the next number in sequence is higher than all of theirs. -/
structure Recent (es : List StoredResult) (next : Nat) (xs : List StoredResult) : Prop where
  ordered : Ordered es
  perm : xs.Perm es
  later : xs.Pairwise fun x y => y.sequence < x.sequence
  lt : ∀ x ∈ xs, x.sequence < next

variable {es xs : List StoredResult} {next : Nat}

theorem Recent.without (h : Recent es next xs) (key : String) :
    Recent (without key es) next (without key xs) :=
  ⟨h.ordered.filter _, h.perm.filter _, h.later.filter _, fun x hx => h.lt x (mem_without.1 hx).1⟩

/-- A value that gets the next number comes to the front. -/
theorem Recent.touch (h : Recent es next xs) {e : StoredResult} (he : e.sequence = next) :
    Recent (insertEntry e es) (next + 1) (e :: ResultStore.without e.key xs) := by
  have hrest := h.without e.key
  refine ⟨h.ordered.insertEntry e, ?_, ?_, ?_⟩
  · exact (hrest.perm.cons e).trans (insertEntry_perm h.ordered e).symm
  · exact List.pairwise_cons.2 ⟨fun x hx => he ▸ hrest.lt x hx, hrest.later⟩
  · intro x hx
    rcases List.mem_cons.1 hx with rfl | hx
    · omega
    · exact Nat.lt_succ_of_lt (hrest.lt x hx)

theorem Recent.eq_of_key (h : Recent es next xs) {x y : StoredResult} (hx : x ∈ xs) (hy : y ∈ xs)
    (hkey : x.key = y.key) : x = y :=
  h.ordered.eq_of_key (h.perm.mem_iff.1 hx) (h.perm.mem_iff.1 hy) hkey

/-- Without the value at the end, which no other has the key of, the others are left. -/
theorem Recent.without_last {ys : List StoredResult} {e : StoredResult} (h : Recent es next (ys ++ [e])) :
    ResultStore.without e.key (ys ++ [e]) = ys := by
  have hbefore : ∀ y ∈ ys, y.key ≠ e.key := by
    intro y hy hkey
    obtain rfl := h.eq_of_key (List.mem_append_left _ hy) (List.mem_append_right _ (List.mem_singleton_self e)) hkey
    have hlater := (List.pairwise_append.1 h.later).2.2 y hy y (List.mem_singleton_self y)
    exact Nat.lt_irrefl _ hlater
  rw [ResultStore.without, List.filter_append, List.filter_cons_of_neg (by simp), List.filter_nil, List.append_nil]
  exact without_of_notMem hbefore

variable {s : ResultStore}

/-- What is taken away is the value used longest ago. -/
theorem Recent.evict {ys : List StoredResult} {e : StoredResult} (h : Recent s.entries s.nextSequence (ys ++ [e]))
    (hread : ∀ x ∈ ys ++ [e], x.value.isSome) : Recent s.evict.entries s.evict.nextSequence ys := by
  have hlast : e ∈ ys ++ [e] := List.mem_append_right _ (List.mem_singleton_self e)
  obtain ⟨x, hx, hleast, hevict⟩ := evict_of_ne_nil (List.ne_nil_of_mem (h.perm.mem_iff.1 hlast))
  have hmem := h.perm.mem_iff.2 hx
  have hage := hleast e (h.perm.mem_iff.1 hlast)
  rw [age, age, if_pos (hread x hmem), if_pos (hread e hlast)] at hage
  obtain rfl : x = e := by
    rcases List.mem_append.1 hmem with hbefore | hend
    · have hlater := (List.pairwise_append.1 h.later).2.2 x hbefore e (List.mem_singleton_self e)
      exact absurd hlater (Nat.not_lt.2 hage)
    · exact List.mem_singleton.1 hend
  rw [hevict]
  have hrest := h.without x.key
  rwa [h.without_last] at hrest

/-- The rounds leave the values used last, as many as there is room for. -/
theorem Recent.shrink {xs : List StoredResult} (h : Recent s.entries s.nextSequence xs)
    (hread : ∀ x ∈ xs, x.value.isSome) (hcount : s.count = s.entries.length) {rounds : Nat}
    (henough : s.entries.length ≤ rounds) :
    Recent (shrink rounds s).entries (shrink rounds s).nextSequence (xs.take s.maxEntries) := by
  induction rounds generalizing s xs with
  | zero =>
    have hnil : xs = [] := List.length_eq_zero_iff.1 (by rw [h.perm.length_eq]; omega)
    rw [hnil, List.take_nil]
    exact hnil ▸ h
  | succ k ih =>
    by_cases hle : s.count ≤ s.maxEntries
    · rw [shrink_of_le hle, List.take_of_length_le (by rw [h.perm.length_eq]; omega)]
      exact h
    · have hlt := Nat.not_le.1 hle
      have hlength := h.perm.length_eq
      rcases List.eq_nil_or_concat xs with rfl | ⟨ys, e, rfl⟩
      · rw [List.length_nil] at hlength
        omega
      · rw [List.concat_eq_append] at h hread hlength ⊢
        rw [List.length_append, List.length_singleton] at hlength
        have hne : s.entries ≠ [] := List.ne_nil_of_length_pos (by omega)
        have hcounted := count_evict hne (by omega)
        have hshorter := length_evict h.ordered
        have hrest := ih (h.evict hread) (fun x hx => hread x (List.mem_append_left _ hx)) (by omega) (by omega)
        rw [shrink_of_lt hlt, List.take_append_of_le_length (by omega)]
        rwa [maxEntries_evict] at hrest

/-! ## The store and the map -/

/-- The value of the store is that of the map. -/
def Holds (e : StoredResult) (v : String × Assembly) : Prop := e.key = v.1 ∧ e.value = some v.2

/-- By their last use the values of the store are those of the map, and all else the map knows is the same. -/
structure Represents (s : ResultStore) (m : RecentMap) : Prop where
  values : ∃ xs, Recent s.entries s.nextSequence xs ∧ List.Forall₂ Holds xs m.values
  counted : s.count = s.entries.length
  maxEntries : s.maxEntries = m.capacity
  hits : s.hits = m.hits
  misses : s.misses = m.misses

theorem exists_of_mem_forall₂ {α β : Type} {R : α → β → Prop} {as : List α} {bs : List β}
    (h : List.Forall₂ R as bs) {a : α} (ha : a ∈ as) : ∃ b ∈ bs, R a b := by
  induction h with
  | nil => cases ha
  | cons hhead _ ih =>
    rcases List.mem_cons.1 ha with rfl | ha
    · exact ⟨_, List.mem_cons_self, hhead⟩
    · obtain ⟨b, hb, hrel⟩ := ih ha
      exact ⟨b, List.mem_cons_of_mem _ hb, hrel⟩

theorem isSome_of_forall₂_holds {xs : List StoredResult} {vs : List (String × Assembly)}
    (h : List.Forall₂ Holds xs vs) : ∀ x ∈ xs, x.value.isSome := by
  intro x hx
  obtain ⟨v, -, -, hvalue⟩ := exists_of_mem_forall₂ h hx
  rw [hvalue]
  rfl

theorem forall₂_holds_without {xs : List StoredResult} {vs : List (String × Assembly)} (h : List.Forall₂ Holds xs vs)
    (key : String) : List.Forall₂ Holds (without key xs) (RecentMap.without key vs) := by
  refine List.rel_filter (fun e v hholds => ?_) h
  show (e.key != key) = true ↔ (v.1 != key) = true
  rw [hholds.1]

variable {m : RecentMap}

theorem Represents.ordered (h : Represents s m) : Ordered s.entries := by
  obtain ⟨xs, hrecent, -⟩ := h.values
  exact hrecent.ordered

theorem Represents.length (h : Represents s m) : s.entries.length = m.values.length := by
  obtain ⟨xs, hrecent, hholds⟩ := h.values
  rw [← hrecent.perm.length_eq, hholds.length_eq]

/-- Under every key both have the same value, or both have none. -/
theorem Represents.find? (h : Represents s m) (key : String) :
    (s.find? key).map (·.value) = (m.find? key).map some := by
  obtain ⟨xs, hrecent, hholds⟩ := h.values
  cases hfind : m.find? key with
  | some value =>
    obtain ⟨e, he, hkey, hvalue⟩ := exists_of_mem_forall₂ hholds.flip (RecentMap.mem_values_of_find? hfind)
    rw [(find?_eq_some_iff h.ordered).2 ⟨hrecent.perm.mem_iff.1 he, hkey⟩]
    exact congrArg some hvalue
  | none =>
    rw [find?_eq_none_iff.2]
    · rfl
    · intro e he hkey
      obtain ⟨v, hv, hhead⟩ := exists_of_mem_forall₂ hholds (hrecent.perm.mem_iff.2 he)
      have hother := List.lookup_eq_none_iff.1 hfind v hv
      rw [← hhead.1, hkey] at hother
      exact absurd hother (by simp)

theorem represents_load {capacity : Nat} (hload : load capacity [] = .ok s) :
    Represents s { capacity } := by
  unfold load at hload
  split at hload
  · cases hload
  · cases hload
    exact ⟨⟨[], ⟨List.Pairwise.nil, List.Perm.refl _, List.Pairwise.nil, by simp⟩, .nil⟩, rfl, rfl, rfl, rfl⟩

theorem countUp_of_lt {count : Nat} (h : count + 1 < countLimit) : countUp count = count + 1 :=
  if_neg fun htop => by
    have htop : count = countLimit - 1 := htop
    omega

/-- The rounds leave all but the values and the count as it is. -/
theorem hits_shrink (rounds : Nat) (s : ResultStore) :
    (ResultStore.shrink rounds s).hits = s.hits ∧ (ResultStore.shrink rounds s).misses = s.misses := by
  induction rounds generalizing s with
  | zero => exact ⟨rfl, rfl⟩
  | succ k ih =>
    unfold ResultStore.shrink
    split
    · refine ⟨(ih s.evict).1.trans ?_, (ih s.evict).2.trans ?_⟩ <;>
      · unfold ResultStore.evict
        split <;> rfl
    · exact ⟨rfl, rfl⟩

theorem Represents.save (h : Represents s m) (key : String) (value : Assembly)
    (hroom : s.entries.length + 1 < countLimit) : Represents (s.save key value) (m.save key value) := by
  obtain ⟨xs, hrecent, hholds⟩ := h.values
  have htouched := hrecent.touch (e := ⟨key, some value, s.nextSequence⟩) rfl
  have hvalues : List.Forall₂ Holds (⟨key, some value, s.nextSequence⟩ :: without key xs)
      ((key, value) :: RecentMap.without key m.values) :=
    .cons ⟨rfl, rfl⟩ (forall₂_holds_without hholds key)
  have hcounted : (s.inserted key value).count = (s.inserted key value).entries.length := by
    have hlength := length_insertEntry h.ordered ⟨key, some value, s.nextSequence⟩
    have hup := countUp_of_lt (h.counted ▸ hroom)
    show (if (s.find? key).isSome then s.count else countUp s.count) =
      (insertEntry ⟨key, some value, s.nextSequence⟩ s.entries).length
    rw [hlength, hup, h.counted]
    split <;> rfl
  have hrest := Recent.shrink htouched (isSome_of_forall₂_holds hvalues) hcounted (Nat.le_refl _)
  have henough := shrink_enough (s := s.inserted key value) htouched.ordered (Nat.le_refl _)
  have hunused := hits_shrink (s.inserted key value).entries.length (s.inserted key value)
  rw [save_eq]
  refine ⟨⟨_, hrest, ?_⟩, ?_, ?_, hunused.1.trans h.hits, hunused.2.trans h.misses⟩
  · show List.Forall₂ Holds _ (((key, value) :: RecentMap.without key m.values).take m.capacity)
    rw [← h.maxEntries]
    exact List.forall₂_take _ hvalues
  · omega
  · exact (maxEntries_shrink _ _).trans h.maxEntries

theorem Represents.retrieve (h : Represents s m) (key : String) :
    (s.retrieve key).1 = .ok (m.retrieve key).1 ∧ Represents (s.retrieve key).2 (m.retrieve key).2 := by
  have hfind := h.find? key
  unfold ResultStore.retrieve RecentMap.retrieve
  cases hmap : m.find? key with
  | none =>
    rw [hmap] at hfind
    rw [Option.map_eq_none_iff.1 hfind]
    exact ⟨rfl, h.values, h.counted, h.maxEntries, h.hits, congrArg (· + 1) h.misses⟩
  | some value =>
    rw [hmap] at hfind
    obtain ⟨e, he, hvalue⟩ := Option.map_eq_some_iff.1 hfind
    obtain ⟨xs, hrecent, hholds⟩ := h.values
    obtain ⟨hmem, rfl⟩ := mem_of_find? he
    have hlength := length_insertEntry h.ordered { e with sequence := s.nextSequence }
    rw [he] at hlength ⊢
    cases e with
    | mk key kept sequence =>
    subst hvalue
    refine ⟨rfl, ⟨_, hrecent.touch (e := ⟨key, some value, s.nextSequence⟩) rfl, ?_⟩, ?_, h.maxEntries,
      congrArg (· + 1) h.hits, h.misses⟩
    · exact .cons ⟨rfl, rfl⟩ (forall₂_holds_without hholds key)
    · exact h.counted.trans hlength.symm

theorem Represents.remove (h : Represents s m) (key : String) : Represents (s.remove key) (m.remove key) := by
  obtain ⟨xs, hrecent, hholds⟩ := h.values
  have hrest := hrecent.without key
  have hvalues := forall₂_holds_without hholds key
  unfold ResultStore.remove
  split
  · next hnone =>
    rw [without_of_notMem (find?_eq_none_iff.1 hnone)] at hrest
    exact ⟨⟨_, hrest, hvalues⟩, h.counted, h.maxEntries, h.hits, h.misses⟩
  · next e hfind =>
    obtain ⟨hmem, rfl⟩ := mem_of_find? hfind
    refine ⟨⟨_, hrest, hvalues⟩, ?_, h.maxEntries, h.hits, h.misses⟩
    have hlength := length_without h.ordered hmem
    show countDown s.count = (ResultStore.without e.key s.entries).length
    rw [h.counted, ← hlength]
    rfl

theorem le_foldl_max {n : Nat} {ns : List Nat} {start : Nat} (h : n ≤ start ∨ n ∈ ns) : n ≤ ns.foldl max start := by
  induction ns generalizing start with
  | nil => exact h.resolve_right (by simp)
  | cons k ks ih =>
    refine ih ?_
    rcases h with hle | hmem
    · exact .inl (Nat.le_trans hle (Nat.le_max_left _ _))
    · rcases List.mem_cons.1 hmem with rfl | hmem
      · exact .inl (Nat.le_max_right _ _)
      · exact .inr hmem

/-- The numbers in sequence are taken up behind the highest that is stored. -/
theorem Recent.reopen {es xs : List StoredResult} {next : Nat} (h : Recent es next xs)
    (hread : ∀ x ∈ xs, x.value.isSome) :
    Recent es (((es.filter (·.value.isSome)).map (·.sequence)).foldl max 0 + 1) xs := by
  refine ⟨h.ordered, h.perm, h.later, fun x hx => Nat.lt_succ_of_le ?_⟩
  have hmem : x ∈ es.filter (·.value.isSome) := List.mem_filter.2 ⟨h.perm.mem_iff.1 hx, hread x hx⟩
  exact le_foldl_max (.inr (List.mem_map_of_mem hmem))

theorem Represents.reopen (h : Represents s m) {capacity : Nat} (hpos : 0 < capacity) :
    (s.step (.reopen capacity)).1 = .ok none ∧
      Represents (s.step (.reopen capacity)).2 (m.step (.reopen capacity)).2 := by
  obtain ⟨xs, hrecent, hholds⟩ := h.values
  have hread := isSome_of_forall₂_holds hholds
  have hall : s.entries.filter (·.value.isSome) = s.entries :=
    List.filter_eq_self.2 fun e he => hread e (hrecent.perm.mem_iff.2 he)
  have hload : load capacity s.entries = .ok _ := if_neg (Nat.ne_of_gt hpos)
  unfold step
  dsimp only
  rw [hload]
  exact ⟨rfl, ⟨xs, hrecent.reopen hread, hholds⟩, congrArg List.length hall, rfl, rfl, rfl⟩

theorem Represents.step (h : Represents s m) {x : StoreStep} (hreopen : ∀ n, x = .reopen n → 0 < n)
    (hroom : s.entries.length + 1 < countLimit) :
    (s.step x).1 = .ok (m.step x).1 ∧ Represents (s.step x).2 (m.step x).2 := by
  cases x with
  | use u =>
    cases u with
    | save key value => exact ⟨rfl, h.save key value hroom⟩
    | retrieve key => exact h.retrieve key
    | remove key => exact ⟨rfl, h.remove key⟩
  | reopen capacity => exact h.reopen (hreopen capacity rfl)

/-! ## Runs -/

theorem length_step_le (h : Ordered s.entries) (x : StoreStep) : (s.step x).2.entries.length ≤ s.entries.length + 1 := by
  cases x with
  | use u => exact length_use_le h u
  | reopen capacity =>
    unfold ResultStore.step
    dsimp only
    split
    · next s' hload =>
      unfold load at hload
      split at hload
      · cases hload
      · cases hload
        exact Nat.le_succ _
    · exact Nat.le_succ _

theorem Represents.run (h : Represents s m) {steps : List StoreStep} (hreopen : ∀ n, .reopen n ∈ steps → 0 < n)
    (hroom : s.entries.length + steps.length < countLimit) :
    (runSteps ResultStore.step s steps).1 = (runSteps RecentMap.step m steps).1.map .ok ∧
      Represents (runSteps ResultStore.step s steps).2 (runSteps RecentMap.step m steps).2 := by
  induction steps generalizing s m with
  | nil => exact ⟨rfl, h⟩
  | cons x xs ih =>
    rw [List.length_cons] at hroom
    have hlength := length_step_le h.ordered x
    obtain ⟨hanswer, hafter⟩ := h.step (fun n hn => hreopen n (hn ▸ List.mem_cons_self)) (by omega)
    obtain ⟨hanswers, hbehind⟩ := ih hafter (fun n hn => hreopen n (List.mem_cons_of_mem _ hn)) (by omega)
    refine ⟨?_, hbehind⟩
    unfold runSteps
    rw [hanswer, hanswers]
    rfl

end ResultStore

theorem runSteps_append {σ α β : Type} (step : σ → α → β × σ) (s : σ) (before behind : List α) :
    (runSteps step s (before ++ behind)).2 = (runSteps step (runSteps step s before).2 behind).2 := by
  induction before generalizing s with
  | nil => rfl
  | cons a as ih => exact ih (step s a).2

namespace RecentMap

/-- Under the key the value was saved last, and not removed since. -/
def SavedLast (key : String) (value : Assembly) (steps : List StoreStep) : Prop :=
  ∃ before behind, steps = before ++ .use (.save key value) :: behind ∧
    (∀ other, .use (.save key other) ∉ behind) ∧ .use (.remove key) ∉ behind

theorem SavedLast.concat {key : String} {value : Assembly} {steps : List StoreStep} (h : SavedLast key value steps)
    {x : StoreStep} (hsave : ∀ other, x ≠ .use (.save key other)) (hremove : x ≠ .use (.remove key)) :
    SavedLast key value (steps ++ [x]) := by
  obtain ⟨before, behind, rfl, hsaves, hremoves⟩ := h
  refine ⟨before, behind ++ [x], by simp, fun other hmem => ?_, fun hmem => ?_⟩
  · rcases List.mem_append.1 hmem with hmem | hmem
    · exact hsaves other hmem
    · exact hsave other (List.mem_singleton.1 hmem).symm
  · rcases List.mem_append.1 hmem with hmem | hmem
    · exact hremoves hmem
    · exact hremove (List.mem_singleton.1 hmem).symm

theorem mem_without {key : String} {vs : List (String × Assembly)} {v : String × Assembly} :
    v ∈ without key vs ↔ v ∈ vs ∧ v.1 ≠ key := by
  rw [without, List.mem_filter, bne_iff_ne]

variable {m : RecentMap}

/-- What is in the map after a step was there before, or is saved in it. -/
theorem savedLast_step {steps : List StoreStep} (h : ∀ v ∈ m.values, SavedLast v.1 v.2 steps) (x : StoreStep) :
    ∀ v ∈ (m.step x).2.values, SavedLast v.1 v.2 (steps ++ [x]) := by
  intro v hv
  cases x with
  | use u =>
    cases u with
    | save key value =>
      rcases List.mem_cons.1 (List.mem_of_mem_take hv) with rfl | hv
      · exact ⟨steps, [], rfl, by simp, by simp⟩
      · obtain ⟨hv, hkey⟩ := mem_without.1 hv
        refine (h v hv).concat (fun other heq => hkey ?_) (by simp)
        cases heq
        rfl
    | retrieve key =>
      refine SavedLast.concat ?_ (by simp) (by simp)
      have hv : v ∈ (m.retrieve key).2.values := hv
      unfold retrieve at hv
      split at hv
      · exact h v hv
      · next value hfind =>
        rcases List.mem_cons.1 hv with rfl | hv
        · exact h _ (mem_values_of_find? hfind)
        · exact h v (mem_without.1 hv).1
    | remove key =>
      obtain ⟨hv, hkey⟩ := mem_without.1 hv
      refine (h v hv).concat (by simp) fun heq => hkey ?_
      cases heq
      rfl
  | reopen capacity => exact (h v hv).concat (by simp) (by simp)

theorem savedLast_run {steps more : List StoreStep} (h : ∀ v ∈ m.values, SavedLast v.1 v.2 steps) :
    ∀ v ∈ (runSteps step m more).2.values, SavedLast v.1 v.2 (steps ++ more) := by
  induction more generalizing m steps with
  | nil => rwa [List.append_nil]
  | cons x xs ih =>
    rw [List.append_cons]
    exact ih (savedLast_step h x)

/-- In the step the key is saved or read. -/
def Uses (key : String) : StoreStep → Prop
  | .use (.save other _) | .use (.retrieve other) => other = key
  | .use (.remove _) | .reopen _ => False

/-- The one key was used later than the other was used last. -/
def UsedLater (steps : List StoreStep) (key other : String) : Prop :=
  ∃ before x behind, steps = before ++ x :: behind ∧ Uses key x ∧ ∀ y ∈ x :: behind, ¬ Uses other y

theorem UsedLater.concat {steps : List StoreStep} {key other : String} (h : UsedLater steps key other) {x : StoreStep}
    (hx : ¬ Uses other x) : UsedLater (steps ++ [x]) key other := by
  obtain ⟨before, y, behind, rfl, hkey, hother⟩ := h
  refine ⟨before, y, behind ++ [x], by simp, hkey, fun z hz => ?_⟩
  rw [← List.cons_append] at hz
  rcases List.mem_append.1 hz with hz | hz
  · exact hother z hz
  · rwa [List.mem_singleton.1 hz]

/-- The values stand in the order of their last use. -/
def ByUse (steps : List StoreStep) (vs : List (String × Assembly)) : Prop :=
  vs.Pairwise fun v w => UsedLater steps v.1 w.1

theorem ByUse.leaveOut {steps : List StoreStep} {vs : List (String × Assembly)} (h : ByUse steps vs) (key : String) :
    ByUse steps (without key vs) :=
  List.Pairwise.filter _ h

theorem ByUse.concat {steps : List StoreStep} {vs : List (String × Assembly)} (h : ByUse steps vs) {x : StoreStep}
    (hx : ∀ v ∈ vs, ¬ Uses v.1 x) : ByUse (steps ++ [x]) vs :=
  h.imp_of_mem fun _ hw hlater => hlater.concat (hx _ hw)

/-- The value of the key that a step uses comes to the front. -/
theorem ByUse.touch {steps : List StoreStep} {vs : List (String × Assembly)} (h : ByUse steps vs) {x : StoreStep}
    {key : String} (hkey : ∀ other, Uses other x ↔ key = other) (value : Assembly) :
    ByUse (steps ++ [x]) ((key, value) :: without key vs) := by
  have hothers : ∀ v ∈ without key vs, ¬ Uses v.1 x := fun v hv huse =>
    (mem_without.1 hv).2 ((hkey v.1).1 huse).symm
  refine List.pairwise_cons.2 ⟨fun v hv => ?_, (h.leaveOut key).concat hothers⟩
  refine ⟨steps, x, [], rfl, (hkey key).2 rfl, fun y hy => ?_⟩
  rw [List.mem_singleton.1 hy]
  exact hothers v hv

theorem byUse_step {steps : List StoreStep} (h : ByUse steps m.values) (x : StoreStep) :
    ByUse (steps ++ [x]) (m.step x).2.values := by
  cases x with
  | use u =>
    cases u with
    | save key value => exact (h.touch (fun _ => Iff.rfl) value).sublist (List.take_sublist _ _)
    | retrieve key =>
      show ByUse _ (m.retrieve key).2.values
      unfold retrieve
      split
      · next hfind =>
        refine h.concat fun v hv huse => ?_
        have huse : key = v.1 := huse
        exact absurd (List.lookup_eq_none_iff.1 hfind v hv) (by simp [huse])
      · exact h.touch (fun _ => Iff.rfl) _
    | remove key => exact (h.leaveOut key).concat fun _ _ huse => huse
  | reopen capacity => exact h.concat fun _ _ huse => huse

theorem byUse_run {steps more : List StoreStep} (h : ByUse steps m.values) :
    ByUse (steps ++ more) (runSteps step m more).2.values := by
  induction more generalizing m steps with
  | nil => rwa [List.append_nil]
  | cons x xs ih =>
    rw [List.append_cons]
    exact ih (byUse_step h x)

theorem capacity_step_pos (hpos : 0 < m.capacity) {x : StoreStep} (hreopen : ∀ n, x = .reopen n → 0 < n) :
    0 < (m.step x).2.capacity := by
  cases x with
  | use u =>
    cases u with
    | save key value => exact hpos
    | retrieve key =>
      show 0 < (m.retrieve key).2.capacity
      unfold retrieve
      split <;> exact hpos
    | remove key => exact hpos
  | reopen capacity => exact hreopen capacity rfl

theorem capacity_run_pos (hpos : 0 < m.capacity) {steps : List StoreStep} (hreopen : ∀ n, .reopen n ∈ steps → 0 < n) :
    0 < (runSteps step m steps).2.capacity := by
  induction steps generalizing m with
  | nil => exact hpos
  | cons x xs ih =>
    exact ih (capacity_step_pos hpos fun n hn => hreopen n (hn ▸ List.mem_cons_self))
      fun n hn => hreopen n (List.mem_cons_of_mem _ hn)

/-- With room for a value, the one that is saved is there behind. -/
theorem find?_save (hpos : 0 < m.capacity) (key : String) (value : Assembly) :
    (m.save key value).find? key = some value := by
  obtain ⟨room, hroom⟩ := Nat.exists_eq_succ_of_ne_zero (Nat.ne_of_gt hpos)
  unfold find? save
  dsimp only
  rw [hroom, List.take_succ_cons, List.lookup_cons_self]

/-- What is cut off when a value is saved was used longer ago than all that stays. -/
theorem usedLater_of_cut {steps : List StoreStep} (h : ByUse steps m.values) (hpos : 0 < m.capacity)
    {key gone kept : String} {value : Assembly} (hgone : (m.find? gone).isSome)
    (hcut : (m.save key value).find? gone = none) (hkept : ((m.save key value).find? kept).isSome)
    (hother : kept ≠ key) : UsedLater steps kept gone := by
  obtain ⟨old, hold⟩ := Option.isSome_iff_exists.1 hgone
  obtain ⟨new, hnew⟩ := Option.isSome_iff_exists.1 hkept
  have hgoneKey : gone ≠ key := by
    rintro rfl
    rw [find?_save hpos] at hcut
    cases hcut
  have hall : ((key, value) :: without key m.values).Pairwise fun v w => v.1 = key ∨ UsedLater steps v.1 w.1 :=
    List.pairwise_cons.2 ⟨fun _ _ => .inl rfl, (h.leaveOut key).imp .inr⟩
  rw [← List.take_append_drop m.capacity (_ :: _)] at hall
  have hstays := mem_values_of_find? hnew
  have hgoes : (gone, old) ∈ ((key, value) :: without key m.values).drop m.capacity := by
    have hmem : (gone, old) ∈ (key, value) :: without key m.values :=
      List.mem_cons_of_mem _ (mem_without.2 ⟨mem_values_of_find? hold, hgoneKey⟩)
    rw [← List.take_append_drop m.capacity (_ :: _)] at hmem
    refine (List.mem_append.1 hmem).resolve_left fun hmem => ?_
    exact absurd (List.lookup_eq_none_iff.1 hcut _ hmem) (by simp)
  exact ((List.pairwise_append.1 hall).2.2 _ hstays _ hgoes).resolve_left hother

end RecentMap

namespace ResultStore

theorem Represents.isSome_find? (h : Represents s m) (key : String) : (s.find? key).isSome = (m.find? key).isSome := by
  have hfind := congrArg Option.isSome (h.find? key)
  rwa [Option.isSome_map, Option.isSome_map] at hfind

/-- The store does what the map does: it gives the same answers, has the same values, the one saved last under each
key, and counts all of them.  Right after one is saved it is there, no more than allowed are, and all that stays was
used later than what had to go. -/
structure ActsAs (s : ResultStore) (m : RecentMap) (steps : List StoreStep) : Prop where
  answers : (runSteps step s steps).1 = (runSteps RecentMap.step m steps).1.map .ok
  values : ∀ key, ((runSteps step s steps).2.find? key).map (·.value) =
    ((runSteps RecentMap.step m steps).2.find? key).map some
  savedLast : ∀ key value, (runSteps RecentMap.step m steps).2.find? key = some value →
    RecentMap.SavedLast key value steps
  length : (runSteps step s steps).2.entries.length = (runSteps RecentMap.step m steps).2.values.length
  stats : (runSteps step s steps).2.stats =
    ⟨(runSteps step s steps).2.entries.length, (runSteps RecentMap.step m steps).2.capacity,
      (runSteps RecentMap.step m steps).2.hits, (runSteps RecentMap.step m steps).2.misses⟩
  saved : ∀ before key value, steps = before ++ [.use (.save key value)] →
    (runSteps step s steps).2.entries.length ≤ (runSteps step s steps).2.maxEntries ∧
      ((runSteps step s steps).2.find? key).map (·.value) = some (some value)
  evicted : ∀ before key value, steps = before ++ [.use (.save key value)] → ∀ gone kept, kept ≠ key →
    ((runSteps step s before).2.find? gone).isSome → (runSteps step s steps).2.find? gone = none →
    ((runSteps step s steps).2.find? kept).isSome → RecentMap.UsedLater before kept gone

/-- From an empty store on, whatever is saved, read and removed and whatever the store is opened again with, it does
what the map of the values used last does. -/
theorem actsAs_recentMap {capacity : Nat} {s : ResultStore} {steps : List StoreStep}
    (hload : load capacity [] = .ok s) (hreopen : ∀ n, .reopen n ∈ steps → 0 < n)
    (hsteps : steps.length < countLimit) : ActsAs s { capacity } steps := by
  have hstart := represents_load hload
  obtain ⟨hpos, hempty⟩ : 0 < capacity ∧ s.entries = [] := by
    unfold load at hload
    split at hload
    · cases hload
    · next hne =>
      cases hload
      exact ⟨Nat.pos_of_ne_zero hne, rfl⟩
  obtain ⟨hanswers, hbehind⟩ := hstart.run hreopen (by rwa [hempty, List.length_nil, Nat.zero_add])
  refine ⟨hanswers, hbehind.find?, fun key value hfind => ?_, hbehind.length, ?_, ?_, ?_⟩
  · have hnone : ∀ v ∈ ({ capacity } : RecentMap).values, RecentMap.SavedLast v.1 v.2 [] := by simp
    exact RecentMap.savedLast_run hnone _ (RecentMap.mem_values_of_find? hfind)
  · rw [ResultStore.stats, hbehind.counted, hbehind.maxEntries, hbehind.hits, hbehind.misses]
  · rintro before key value rfl
    have hroom := RecentMap.capacity_run_pos (m := { capacity }) hpos
      fun n hn => hreopen n (List.mem_append_left [.use (.save key value)] hn)
    rw [hbehind.find?, hbehind.length, hbehind.maxEntries, runSteps_append]
    exact ⟨List.length_take_le _ _, congrArg (Option.map some) (RecentMap.find?_save hroom key value)⟩
  · rintro before key value rfl gone kept hother hgone hcut hkept
    rw [List.length_append, List.length_singleton] at hsteps
    have hbefore := (hstart.run (fun n hn => hreopen n (List.mem_append_left _ hn))
      (by rw [hempty, List.length_nil]; omega)).2
    have hroom := RecentMap.capacity_run_pos (m := { capacity }) hpos
      fun n hn => hreopen n (List.mem_append_left [.use (.save key value)] hn)
    have hcut := Option.isNone_iff_eq_none.2 hcut
    rw [hbefore.isSome_find?] at hgone
    rw [← Option.not_isSome, hbehind.isSome_find?, Option.not_isSome, Option.isNone_iff_eq_none,
      runSteps_append] at hcut
    rw [hbehind.isSome_find?, runSteps_append] at hkept
    have hstart : RecentMap.ByUse [] ({ capacity } : RecentMap).values := List.Pairwise.nil
    have horder : RecentMap.ByUse ([] ++ before) _ := RecentMap.byUse_run hstart
    exact RecentMap.usedLater_of_cut horder hroom hgone hcut hkept hother

/-- With room for two, the value that is read stays when a third is saved, also after the store was opened again. -/
def thirdSaved : List StoreStep :=
  [.use (.save "a" noChunks), .use (.save "b" noChunks), .use (.retrieve "a"), .reopen 2, .use (.save "c" noChunks)]

theorem actsAs_recentMap_thirdSaved :
    ∃ s, load 2 [] = .ok s ∧ thirdSaved.length < countLimit ∧
      (runSteps step s thirdSaved).1 = [.ok none, .ok none, .ok (some noChunks), .ok none, .ok none] ∧
      ((runSteps step s thirdSaved).2.find? "a").map (·.value) = some (some noChunks) ∧
      (runSteps step s thirdSaved).2.find? "b" = none ∧
      (runSteps step s thirdSaved).2.entries.length ≤ (runSteps step s thirdSaved).2.maxEntries := by
  have hlength : thirdSaved.length < countLimit := by decide +kernel
  have hreopen : ∀ n, .reopen n ∈ thirdSaved → 0 < n := by
    intro n hn
    simp only [thirdSaved, List.mem_cons, reduceCtorEq, StoreStep.reopen.injEq, List.not_mem_nil, or_false,
      false_or] at hn
    omega
  obtain ⟨s, hload⟩ : ∃ s, load 2 [] = .ok s := ⟨_, rfl⟩
  have hacts := actsAs_recentMap hload hreopen hlength
  refine ⟨s, hload, hlength, hacts.answers.trans (by decide), (hacts.values "a").trans (by decide), ?_, ?_⟩
  · exact Option.map_eq_none_iff.1 ((hacts.values "b").trans (by decide))
  · exact (hacts.saved (thirdSaved.dropLast) "c" noChunks rfl).1

end ResultStore

end Pseudoscribe
