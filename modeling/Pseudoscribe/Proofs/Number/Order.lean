import Mathlib.Algebra.Order.Field.Rat
import Mathlib.Algebra.Order.Field.Power
import Mathlib.Order.WithBot
import Mathlib.Tactic.Linarith
import Mathlib.Tactic.Positivity
import Pseudoscribe.Number.Double

/-!
# The order of floating-point numbers

The comparisons of floating-point numbers are those of the numbers they stand for, with an infinity on
either side; what is no number compares with nothing.  So the least of a list is one of the list and
not above any other.
-/

namespace Pseudoscribe.Double

/-- The number that a finite number stands for. -/
def toRat : Double → ℚ
  | finite s m e => (if s then -1 else 1) * (m * 2 ^ e)
  | _ => 0

/-- The place of a number in the order. -/
def extended : Double → WithBot (WithTop ℚ)
  | nan => ⊥
  | infinite s => if s then ⊥ else (⊤ : WithTop ℚ)
  | x => (x.toRat : WithTop ℚ)

theorem ratio_pos (x : Double) : 0 < x.ratio.2 := by
  cases x with
  | finite s m e =>
    simp only [ratio, scaled]
    split
    · exact Nat.one_pos
    · rw [Nat.one_mul]
      exact Nat.pow_pos Nat.two_pos
  | nan => exact Nat.one_pos
  | infinite s => exact Nat.one_pos

theorem ratio_finite (s : Bool) (m : Nat) (e : Int) :
    ((finite s m e).ratio.1 : ℚ) / (finite s m e).ratio.2 = m * 2 ^ e := by
  simp only [ratio, scaled]
  split
  · next h =>
    obtain ⟨n, rfl⟩ := Int.eq_ofNat_of_zero_le h
    simp
  · next h =>
    obtain ⟨n, hn⟩ := Int.eq_ofNat_of_zero_le (show 0 ≤ -e by omega)
    obtain rfl : e = -(n : Int) := by omega
    simp [div_eq_mul_inv]

theorem magnitudeLe_finite (s t : Bool) (m n : Nat) (e f : Int) :
    magnitudeLe (finite s m e) (finite t n f) = true ↔ (m * 2 ^ e : ℚ) ≤ n * 2 ^ f := by
  have hx : (0 : ℚ) < (finite s m e).ratio.2 := by exact_mod_cast ratio_pos _
  have hy : (0 : ℚ) < (finite t n f).ratio.2 := by exact_mod_cast ratio_pos _
  rw [← ratio_finite s m e, ← ratio_finite t n f, div_le_div_iff₀ hx hy]
  simp only [magnitudeLe, decide_eq_true_eq]
  exact_mod_cast Iff.rfl

theorem isZero_finite (s : Bool) (m : Nat) (e : Int) : (finite s m e).isZero = (m == 0) := by
  cases m <;> rfl

theorem le_finite_iff (s t : Bool) (m n : Nat) (e f : Int) :
    le (finite s m e) (finite t n f) = true ↔ (finite s m e).toRat ≤ (finite t n f).toRat := by
  have he : (0 : ℚ) < 2 ^ e := by positivity
  have hf : (0 : ℚ) < 2 ^ f := by positivity
  have hx : (0 : ℚ) ≤ m * 2 ^ e := by positivity
  have hy : (0 : ℚ) ≤ n * 2 ^ f := by positivity
  by_cases hzero : m = 0 ∧ n = 0
  · obtain ⟨rfl, rfl⟩ := hzero
    simp [le, isNan, isZero, toRat]
  · have hz : ((finite s m e).isZero && (finite t n f).isZero) = false := by
      simpa [isZero_finite] using hzero
    simp only [le, isNan, Bool.or_self, Bool.false_eq_true, if_false, hz, isNegative, toRat]
    cases s <;> cases t
    · simpa using magnitudeLe_finite false false m n e f
    · -- a number that is not negative is at most a negative one only when both are zero
      simp only [Bool.false_eq_true, if_false, if_true, one_mul, neg_mul, false_iff, not_le]
      rcases Nat.eq_zero_or_pos m with rfl | hm
      · have hn : (0 : ℚ) < n := by exact_mod_cast Nat.pos_of_ne_zero fun hn => hzero ⟨rfl, hn⟩
        have hlt := mul_pos hn hf
        linarith
      · have hm : (0 : ℚ) < m := by exact_mod_cast hm
        have hlt := mul_pos hm he
        linarith
    · simp only [Bool.false_eq_true, if_false, if_true, one_mul, neg_mul, true_iff]
      linarith
    · simpa using magnitudeLe_finite true true n m f e

theorem le_iff {x y : Double} (hx : x.isNan = false) (hy : y.isNan = false) :
    le x y = true ↔ x.extended ≤ y.extended := by
  cases x with
  | nan => cases hx
  | infinite s =>
    cases y with
    | nan => cases hy
    | infinite t => cases s <;> cases t <;> simp [le, isNan, isZero, isNegative, magnitudeLe, extended]
    | finite t n f =>
      cases s <;> cases t <;> simp [le, isNan, isZero, isNegative, magnitudeLe, extended]
  | finite s m e =>
    cases y with
    | nan => cases hy
    | infinite t =>
      cases s <;> cases t <;> simp [le, isNan, isZero, isNegative, magnitudeLe, extended]
    | finite t n f =>
      rw [le_finite_iff]
      simp only [extended, WithBot.coe_le_coe, WithTop.coe_le_coe]

theorem lt_iff {x y : Double} (hx : x.isNan = false) (hy : y.isNan = false) :
    lt x y = true ↔ x.extended < y.extended := by
  rw [lt, Bool.and_eq_true, le_iff hx hy, Bool.not_eq_true', ← Bool.not_eq_true, le_iff hy hx,
    lt_iff_le_not_ge]

/-! ## The least of a list -/

theorem least_eq_or (x y : Double) : least x y = x ∨ least x y = y := by
  unfold least
  split
  · exact .inr rfl
  · split
    · exact .inl rfl
    · split
      · exact .inr rfl
      · exact .inl rfl

/-- Nothing in the list is less than the number, which is a number. -/
structure Bounds (x : Double) (ys : List Double) : Prop where
  isNan_eq : x.isNan = false
  not_lt : ∀ y ∈ ys, lt y x = false

theorem Bounds.least {x : Double} {ys : List Double} (h : Bounds x ys) (y : Double) :
    Bounds (least x y) (y :: ys) := by
  unfold Double.least
  rw [if_neg (by simp [h.isNan_eq])]
  split
  · next hy =>
    refine ⟨h.isNan_eq, List.forall_mem_cons.2 ⟨?_, h.not_lt⟩⟩
    simp [lt, le, hy]
  · next hy =>
    rw [Bool.not_eq_true] at hy
    split
    · next hlt =>
      rw [lt_iff hy h.isNan_eq] at hlt
      refine ⟨hy, List.forall_mem_cons.2 ⟨?_, fun z hz => ?_⟩⟩
      · rw [← Bool.not_eq_true, lt_iff hy hy]
        exact lt_irrefl _
      · cases hn : z.isNan with
        | true => simp [lt, le, hn]
        | false =>
          have hzx := h.not_lt z hz
          rw [← Bool.not_eq_true, lt_iff hn h.isNan_eq] at hzx
          rw [← Bool.not_eq_true, lt_iff hn hy]
          exact fun hzy => hzx (hzy.trans hlt)
    · next hlt => exact ⟨h.isNan_eq, List.forall_mem_cons.2 ⟨by simpa using hlt, h.not_lt⟩⟩

theorem Bounds.foldl {x : Double} {zs : List Double} (h : Bounds x zs) (ys : List Double) :
    Bounds (ys.foldl Double.least x) (ys.reverse ++ zs) := by
  induction ys generalizing x zs with
  | nil => exact h
  | cons y ys ih =>
    rw [List.reverse_cons, List.append_assoc]
    exact ih (h.least y)

theorem foldl_least_mem (x : Double) (ys : List Double) : ys.foldl least x ∈ x :: ys := by
  induction ys generalizing x with
  | nil => exact List.mem_singleton.2 rfl
  | cons y ys ih =>
    rcases List.mem_cons.1 (ih (least x y)) with h | h
    · rw [List.foldl_cons, h]
      rcases least_eq_or x y with hx | hy
      · rw [hx]
        exact List.mem_cons_self
      · rw [hy]
        exact List.mem_cons_of_mem x List.mem_cons_self
    · exact List.mem_cons_of_mem x (List.mem_cons_of_mem y h)

/-- Nothing is less than the least of a list that is begun with a number. -/
theorem not_lt_foldl_least {x : Double} (ys : List Double) (hx : x.isNan = false) :
    ∀ y ∈ x :: ys, lt y (ys.foldl least x) = false := by
  have hbegin : Bounds x [x] := by
    refine ⟨hx, List.forall_mem_singleton.2 ?_⟩
    rw [← Bool.not_eq_true, lt_iff hx hx]
    exact lt_irrefl _
  intro y hy
  refine (hbegin.foldl ys).not_lt y ?_
  rcases List.mem_cons.1 hy with rfl | hy
  · exact List.mem_append_right _ (List.mem_singleton.2 rfl)
  · exact List.mem_append_left _ (List.mem_reverse.2 hy)

end Pseudoscribe.Double
