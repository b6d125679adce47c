/-!
# The braces of a text

A text's braces are balanced if, read from left to right, none is closed that is not open and none is left open.  With
one kind of braces it is enough to count them.
-/

namespace Pseudoscribe.Text

/-- The braces of a text. -/
def braces (cs : List Char) : List Char := cs.filter fun c => c == '{' || c == '}'

/-- How many more braces a text opens than it closes. -/
def height (cs : List Char) : Int := cs.count '{' - cs.count '}'

/-- Read from left to right with `n` braces open, a text never closes a brace that is not open. -/
def NeverBelow (n : Int) : List Char → Prop
  | [] => 0 ≤ n
  | c :: cs => 0 ≤ n ∧ NeverBelow (n + height [c]) cs

/-- The braces of a text, read from left to right, never go below zero and end at zero. -/
structure Balanced (cs : List Char) : Prop where
  neverBelow : NeverBelow 0 cs
  ends : height cs = 0

instance decidableNeverBelow (n : Int) : (cs : List Char) → Decidable (NeverBelow n cs)
  | [] => inferInstanceAs (Decidable (0 ≤ n))
  | c :: cs =>
    have := decidableNeverBelow (n + height [c]) cs
    inferInstanceAs (Decidable (0 ≤ n ∧ NeverBelow (n + height [c]) cs))

instance (cs : List Char) : Decidable (Balanced cs) :=
  decidable_of_iff (NeverBelow 0 cs ∧ height cs = 0) ⟨fun h => ⟨h.1, h.2⟩, fun h => ⟨h.neverBelow, h.ends⟩⟩

@[simp]
theorem braces_nil : braces [] = [] := rfl

@[simp]
theorem braces_cons (c : Char) (cs : List Char) :
    braces (c :: cs) = if c = '{' ∨ c = '}' then c :: braces cs else braces cs := by
  simp [braces, List.filter_cons]

@[simp]
theorem braces_append (xs ys : List Char) : braces (xs ++ ys) = braces xs ++ braces ys := List.filter_append ..

theorem braces_eq_nil_iff {cs : List Char} : braces cs = [] ↔ '{' ∉ cs ∧ '}' ∉ cs := by
  rw [braces, List.filter_eq_nil_iff]
  constructor
  · intro h
    exact ⟨fun hc => h _ hc rfl, fun hc => h _ hc rfl⟩
  · rintro ⟨hopen, hclose⟩ c hc hbrace
    rcases Bool.or_eq_true_iff.1 hbrace with h | h
    · exact hopen (eq_of_beq h ▸ hc)
    · exact hclose (eq_of_beq h ▸ hc)

theorem braces_of_subset {cs ds : List Char} (h : braces ds = []) (hsub : cs ⊆ ds) : braces cs = [] := by
  obtain ⟨hopen, hclose⟩ := braces_eq_nil_iff.1 h
  exact braces_eq_nil_iff.2 ⟨fun hc => hopen (hsub hc), fun hc => hclose (hsub hc)⟩

@[simp]
theorem braces_replicate_space (n : Nat) : braces (List.replicate n ' ') = [] := by
  rw [braces_eq_nil_iff]
  simp

theorem height_append (xs ys : List Char) : height (xs ++ ys) = height xs + height ys := by
  simp only [height, List.count_append]
  omega

theorem height_braces (cs : List Char) : height (braces cs) = height cs := by
  rw [height, height, braces, List.count_filter rfl, List.count_filter rfl]

theorem height_replicate (k : Nat) : height (List.replicate k '}') = -k := by
  simp [height, List.count_replicate]

theorem NeverBelow.nonneg {n : Int} {cs : List Char} (h : NeverBelow n cs) : 0 ≤ n := by
  cases cs with
  | nil => exact h
  | cons c cs => exact h.1

theorem neverBelow_append (n : Int) (xs ys : List Char) :
    NeverBelow n (xs ++ ys) ↔ NeverBelow n xs ∧ NeverBelow (n + height xs) ys := by
  induction xs generalizing n with
  | nil =>
    have hzero : n + height [] = n := Int.add_zero n
    rw [List.nil_append, hzero]
    exact ⟨fun h => ⟨h.nonneg, h⟩, And.right⟩
  | cons c cs ih =>
    have hcons : n + height (c :: cs) = n + height [c] + height cs := by
      rw [← List.singleton_append, height_append, Int.add_assoc]
    rw [List.cons_append, NeverBelow, NeverBelow, ih, hcons, and_assoc]

theorem neverBelow_braces (n : Int) (cs : List Char) : NeverBelow n (braces cs) ↔ NeverBelow n cs := by
  induction cs generalizing n with
  | nil => exact Iff.rfl
  | cons c cs ih =>
    rw [braces_cons]
    split
    · rw [NeverBelow, NeverBelow, ih]
    · next hc =>
      have hzero : height [c] = 0 := by
        rw [not_or] at hc
        simp [height, hc.1, hc.2]
      rw [NeverBelow, hzero, Int.add_zero, ih]
      exact ⟨fun h => ⟨h.nonneg, h⟩, And.right⟩

theorem neverBelow_replicate {n : Int} (k : Nat) (hn : 0 ≤ n) :
    NeverBelow n (List.replicate k '}') ↔ k ≤ n := by
  induction k generalizing n with
  | zero => simp [NeverBelow]
  | succ k ih =>
    have hone : height ['}'] = -1 := rfl
    rw [List.replicate_succ, NeverBelow, hone]
    by_cases hpos : 1 ≤ n
    · rw [ih (by omega)]
      omega
    · constructor
      · rintro ⟨-, h⟩
        have hnonneg := h.nonneg
        omega
      · intro h
        omega

theorem braces_intercalate {sep : List Char} (hsep : braces sep = []) (texts : List (List Char)) :
    braces (sep.intercalate texts) = texts.flatMap braces := by
  rw [List.intercalate]
  induction texts with
  | nil => rfl
  | cons t ts ih =>
    cases ts with
    | nil => simp
    | cons u us =>
      rw [List.intersperse_cons_cons, List.flatten_cons, List.flatten_cons, braces_append, braces_append, hsep,
        List.nil_append, ih]
      rfl

end Pseudoscribe.Text
