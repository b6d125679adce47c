import Mathlib.Data.List.Nodup
import Mathlib.Data.String.Basic
import Pseudoscribe.Cache.Store

/-!
# What a store takes away

A store keeps its values in the order of their keys, each key once.  When a value is stored, the oldest ones are
taken away in rounds, as long as more are counted than allowed.  A round takes one value and counts one less, so
the rounds come to an end exactly if no more are counted than are allowed and stored together: when nothing is left
to take away and the count is still too high, the rounds go on for ever.
-/

namespace Pseudoscribe.ResultStore

/-! ## Values in the order of their keys -/

/-- The values stand in the order of their keys, each key once. -/
def Ordered (es : List StoredResult) : Prop := es.Pairwise (·.key < ·.key)

instance (es : List StoredResult) : Decidable (Ordered es) := inferInstanceAs (Decidable (List.Pairwise _ es))

theorem Ordered.filter {es : List StoredResult} (h : Ordered es) (p : StoredResult → Bool) :
    Ordered (es.filter p) :=
  List.Pairwise.filter p h

theorem Ordered.eq_of_key {es : List StoredResult} (h : Ordered es) {x y : StoredResult} (hx : x ∈ es)
    (hy : y ∈ es) (hkey : x.key = y.key) : x = y := by
  have hnodup : (es.map (·.key)).Nodup := (List.pairwise_map.2 h).imp (fun hlt => ne_of_lt hlt)
  exact List.inj_on_of_nodup_map hnodup hx hy hkey

/-- All values but that of the given key. -/
def without (key : String) (es : List StoredResult) : List StoredResult := es.filter (·.key != key)

theorem mem_without {key : String} {es : List StoredResult} {x : StoredResult} :
    x ∈ without key es ↔ x ∈ es ∧ x.key ≠ key := by
  rw [without, List.mem_filter, bne_iff_ne]

theorem without_of_notMem {key : String} {es : List StoredResult} (h : ∀ x ∈ es, x.key ≠ key) :
    without key es = es := by
  rw [without, List.filter_eq_self]
  exact fun x hx => bne_iff_ne.2 (h x hx)

theorem without_cons_of_ne {key : String} {x : StoredResult} (h : x.key ≠ key) (xs : List StoredResult) :
    without key (x :: xs) = x :: without key xs :=
  List.filter_cons_of_pos (bne_iff_ne.2 h)

/-- In front of the others, the value of a key is the only one with it. -/
theorem Ordered.without_cons {x : StoredResult} {xs : List StoredResult} (h : Ordered (x :: xs)) :
    without x.key (x :: xs) = xs := by
  have hrest := without_of_notMem fun y hy => (ne_of_lt ((List.pairwise_cons.1 h).1 y hy)).symm
  rw [without] at hrest ⊢
  rw [List.filter_cons_of_neg (by simp), hrest]

theorem length_without {es : List StoredResult} (h : Ordered es) {e : StoredResult} (he : e ∈ es) :
    (without e.key es).length + 1 = es.length := by
  induction es with
  | nil => cases he
  | cons x xs ih =>
    obtain ⟨hbehind, hxs⟩ := List.pairwise_cons.1 h
    rcases List.mem_cons.1 he with rfl | he
    · rw [h.without_cons, List.length_cons]
    · rw [without_cons_of_ne (ne_of_lt (hbehind e he)), List.length_cons, List.length_cons, ih hxs he]

/-- A value is put to the others in place of the one with its key. -/
theorem insertEntry_perm {es : List StoredResult} (h : Ordered es) (e : StoredResult) :
    (insertEntry e es).Perm (e :: without e.key es) := by
  induction es with
  | nil => exact List.Perm.refl _
  | cons x xs ih =>
    obtain ⟨hbehind, hxs⟩ := List.pairwise_cons.1 h
    unfold insertEntry
    split
    · next hkey =>
      rw [← eq_of_beq hkey, h.without_cons]
    · next hkey =>
      split
      · next hlt =>
        rw [without_of_notMem]
        intro y hy
        rcases List.mem_cons.1 hy with rfl | hy
        · exact (ne_of_lt hlt).symm
        · exact (ne_of_lt (hlt.trans (hbehind y hy))).symm
      · rw [without_cons_of_ne fun heq => hkey (by simp [heq])]
        exact ((ih hxs).cons x).trans (List.Perm.swap e x _)

theorem mem_insertEntry {es : List StoredResult} (h : Ordered es) {e x : StoredResult} :
    x ∈ insertEntry e es ↔ x = e ∨ x ∈ es ∧ x.key ≠ e.key := by
  rw [(insertEntry_perm h e).mem_iff, List.mem_cons, mem_without]

theorem Ordered.insertEntry {es : List StoredResult} (h : Ordered es) (e : StoredResult) :
    Ordered (insertEntry e es) := by
  induction es with
  | nil => exact List.pairwise_singleton _ _
  | cons x xs ih =>
    obtain ⟨hbehind, hxs⟩ := List.pairwise_cons.1 h
    unfold ResultStore.insertEntry
    split
    · next hkey =>
      have hkey := eq_of_beq hkey
      exact List.pairwise_cons.2 ⟨fun y hy => hkey ▸ hbehind y hy, hxs⟩
    · next hkey =>
      split
      · next hlt =>
        refine List.pairwise_cons.2 ⟨fun y hy => ?_, h⟩
        rcases List.mem_cons.1 hy with rfl | hy
        · exact hlt
        · exact hlt.trans (hbehind y hy)
      · next hge =>
        refine List.pairwise_cons.2 ⟨fun y hy => ?_, ih hxs⟩
        rcases (mem_insertEntry hxs).1 hy with rfl | ⟨hy, -⟩
        · exact lt_of_le_of_ne (not_lt.1 hge) fun heq => hkey (by simp [heq])
        · exact hbehind y hy

theorem mem_of_find? {s : ResultStore} {key : String} {e : StoredResult} (h : s.find? key = some e) :
    e ∈ s.entries ∧ e.key = key :=
  ⟨List.mem_of_find?_eq_some h, eq_of_beq (List.find?_some (p := fun x : StoredResult => x.key == key) h)⟩

theorem find?_eq_some_iff {s : ResultStore} (h : Ordered s.entries) {key : String} {e : StoredResult} :
    s.find? key = some e ↔ e ∈ s.entries ∧ e.key = key := by
  refine ⟨mem_of_find?, ?_⟩
  rintro ⟨hmem, rfl⟩
  cases hfind : s.find? e.key with
  | none => simpa using List.find?_eq_none.1 hfind e hmem
  | some x =>
    obtain ⟨hx, hkey⟩ := mem_of_find? hfind
    rw [h.eq_of_key hx hmem hkey]

theorem find?_eq_none_iff {s : ResultStore} {key : String} :
    s.find? key = none ↔ ∀ e ∈ s.entries, e.key ≠ key := by
  simp [find?]

theorem length_insertEntry {s : ResultStore} (h : Ordered s.entries) (e : StoredResult) :
    (insertEntry e s.entries).length = s.entries.length + if (s.find? e.key).isSome then 0 else 1 := by
  rw [(insertEntry_perm h e).length_eq, List.length_cons]
  cases hfind : s.find? e.key with
  | none => rw [without_of_notMem (find?_eq_none_iff.1 hfind)]; rfl
  | some x =>
    obtain ⟨hmem, hkey⟩ := mem_of_find? hfind
    rw [← hkey, length_without h hmem]
    rfl

/-! ## The oldest value -/

theorem oldest?_eq_none_iff {es : List StoredResult} : oldest? es = none ↔ es = [] := by
  cases es with
  | nil => exact iff_of_true rfl rfl
  | cons x xs =>
    refine iff_of_false ?_ (List.cons_ne_nil x xs)
    unfold oldest?
    split
    · split <;> simp
    · simp

theorem oldest?_eq_some {es : List StoredResult} {e : StoredResult} (h : oldest? es = some e) :
    e ∈ es ∧ ∀ x ∈ es, age e ≤ age x := by
  induction es generalizing e with
  | nil => cases h
  | cons x xs ih =>
    unfold oldest? at h
    split at h
    · next y hy =>
      obtain ⟨hmem, hleast⟩ := ih hy
      split at h
      · next hlt =>
        cases h
        refine ⟨List.mem_cons_of_mem _ hmem, fun z hz => ?_⟩
        rcases List.mem_cons.1 hz with rfl | hz
        · exact Nat.le_of_lt hlt
        · exact hleast z hz
      · next hge =>
        cases h
        refine ⟨List.mem_cons_self, fun z hz => ?_⟩
        rcases List.mem_cons.1 hz with rfl | hz
        · exact Nat.le_refl _
        · exact Nat.le_trans (Nat.not_lt.1 hge) (hleast z hz)
    · next hnone =>
      cases h
      obtain rfl := oldest?_eq_none_iff.1 hnone
      exact ⟨List.mem_cons_self, by simp⟩

theorem evict_of_nil {s : ResultStore} (h : s.entries = []) : s.evict = s := by
  unfold evict
  rw [h]
  rfl

/-- The oldest value is taken away, if there is one. -/
theorem evict_of_ne_nil {s : ResultStore} (h : s.entries ≠ []) :
    ∃ e ∈ s.entries, (∀ x ∈ s.entries, age e ≤ age x) ∧
      s.evict = { s with entries := without e.key s.entries, count := countDown s.count } := by
  obtain ⟨e, he⟩ := Option.ne_none_iff_exists'.1 fun hnone => h (oldest?_eq_none_iff.1 hnone)
  obtain ⟨hmem, hleast⟩ := oldest?_eq_some he
  refine ⟨e, hmem, hleast, ?_⟩
  unfold evict
  rw [he]
  rfl

theorem maxEntries_evict (s : ResultStore) : s.evict.maxEntries = s.maxEntries := by
  unfold evict
  split <;> rfl

theorem Ordered.evict {s : ResultStore} (h : Ordered s.entries) : Ordered s.evict.entries := by
  unfold ResultStore.evict
  split
  · exact h
  · exact h.filter _

theorem length_evict {s : ResultStore} (h : Ordered s.entries) : s.evict.entries.length = s.entries.length - 1 := by
  by_cases hnil : s.entries = []
  · rw [evict_of_nil hnil, hnil]
    rfl
  · obtain ⟨e, hmem, -, hevict⟩ := evict_of_ne_nil hnil
    have hlength := length_without h hmem
    rw [hevict]
    exact Nat.eq_sub_of_add_eq hlength

theorem count_evict {s : ResultStore} (hnil : s.entries ≠ []) (hpos : 0 < s.count) :
    s.evict.count = s.count - 1 := by
  obtain ⟨e, -, -, hevict⟩ := evict_of_ne_nil hnil
  rw [hevict]
  exact if_neg (Nat.ne_of_gt hpos)

/-! ## Rounds -/

/-- The rounds come to an end: after some of them no more are counted than allowed. -/
def Ends (s : ResultStore) : Prop := ∃ rounds, (shrink rounds s).count ≤ (shrink rounds s).maxEntries

theorem shrink_of_le {s : ResultStore} (h : s.count ≤ s.maxEntries) (rounds : Nat) : shrink rounds s = s := by
  cases rounds with
  | zero => rfl
  | succ k => exact if_neg (Nat.not_lt.2 h)

theorem shrink_of_lt {s : ResultStore} (h : s.maxEntries < s.count) (rounds : Nat) :
    shrink (rounds + 1) s = shrink rounds s.evict :=
  if_pos h

theorem maxEntries_shrink (rounds : Nat) (s : ResultStore) : (shrink rounds s).maxEntries = s.maxEntries := by
  induction rounds generalizing s with
  | zero => rfl
  | succ k ih =>
    unfold shrink
    split
    · rw [ih, maxEntries_evict]
    · rfl

theorem Ordered.shrink {s : ResultStore} (h : Ordered s.entries) (rounds : Nat) :
    Ordered (shrink rounds s).entries := by
  induction rounds generalizing s with
  | zero => exact h
  | succ k ih =>
    unfold ResultStore.shrink
    split
    · exact ih h.evict
    · exact h

/-- Without values, and with too high a count, a round changes nothing. -/
theorem shrink_of_nil {s : ResultStore} (h : s.entries = []) (rounds : Nat) : shrink rounds s = s := by
  induction rounds with
  | zero => rfl
  | succ k ih =>
    unfold shrink
    rw [evict_of_nil h, ih, ite_self]

/-- As many rounds as there are values, or more: as many values go as are counted too many, if there are
so many. -/
theorem shrink_enough {s : ResultStore} (h : Ordered s.entries) {rounds : Nat} (henough : s.entries.length ≤ rounds) :
    (shrink rounds s).entries.length = s.entries.length - (s.count - s.maxEntries) ∧
      (shrink rounds s).count = s.count - min s.entries.length (s.count - s.maxEntries) := by
  induction rounds generalizing s with
  | zero =>
    rw [Nat.le_zero.1 henough]
    simp [shrink, Nat.le_zero.1 henough]
  | succ k ih =>
    by_cases hle : s.count ≤ s.maxEntries
    · rw [shrink_of_le hle, Nat.sub_eq_zero_of_le hle]
      simp
    · have hlt := Nat.not_le.1 hle
      by_cases hnil : s.entries = []
      · rw [shrink_of_nil hnil, hnil]
        simp
      · have hpos := List.length_pos_of_ne_nil hnil
        have hlength := length_evict h
        have hcount := count_evict hnil (Nat.lt_of_le_of_lt (Nat.zero_le _) hlt)
        obtain ⟨hentries, hcounted⟩ := ih h.evict (by omega)
        rw [shrink_of_lt hlt, hentries, hcounted, maxEntries_evict, hlength, hcount]
        omega

theorem shrink_of_ended {s : ResultStore} {rounds more : Nat} (hmore : rounds ≤ more)
    (h : (shrink rounds s).count ≤ s.maxEntries) : shrink more s = shrink rounds s := by
  induction rounds generalizing s more with
  | zero => exact shrink_of_le h more
  | succ k ih =>
    obtain ⟨m, rfl⟩ := Nat.exists_eq_add_of_lt hmore
    by_cases hle : s.count ≤ s.maxEntries
    · rw [shrink_of_le hle, shrink_of_le hle]
    · have hlt := Nat.not_le.1 hle
      rw [shrink_of_lt hlt] at h ⊢
      rw [shrink_of_lt hlt]
      exact ih (by omega) (by rwa [maxEntries_evict])

/-- The rounds end exactly if no more are counted than are allowed and stored together. -/
theorem ends_iff {s : ResultStore} (h : Ordered s.entries) : Ends s ↔ s.count ≤ s.maxEntries + s.entries.length := by
  constructor
  · rintro ⟨rounds, hrounds⟩
    rw [maxEntries_shrink] at hrounds
    have hmany := (shrink_enough h (Nat.le_max_right rounds s.entries.length)).2
    rw [shrink_of_ended (Nat.le_max_left rounds s.entries.length) hrounds] at hmany
    omega
  · intro hle
    refine ⟨s.entries.length, ?_⟩
    rw [maxEntries_shrink, (shrink_enough h (Nat.le_refl _)).2]
    omega

end Pseudoscribe.ResultStore
