import Mathlib.Tactic.Ring
import Pseudoscribe.Proofs.Number.Order

/-!
# Rounding of floating-point numbers

Rounding never passes over a number that needs no rounding.  Powers of two are such numbers, so what lies between two of
them is rounded to a number between them.
-/

namespace Pseudoscribe.Double

theorem scaled_pos (num : Nat) {den : Nat} (hden : 0 < den) (e : Int) : 0 < (scaled num den e).2 := by
  unfold scaled
  split
  · exact hden
  · exact Nat.mul_pos hden (Nat.pow_pos Nat.two_pos)

theorem scaled_eq (num den : Nat) (e : Int) :
    ((scaled num den e).1 : ℚ) / (scaled num den e).2 = num / den * 2 ^ e := by
  unfold scaled
  split
  · next h =>
    obtain ⟨n, rfl⟩ := Int.eq_ofNat_of_zero_le h
    simp [div_mul_eq_mul_div]
  · next h =>
    obtain ⟨n, hn⟩ := Int.eq_ofNat_of_zero_le (show 0 ≤ -e by omega)
    obtain rfl : e = -(n : Int) := by omega
    simp [div_mul_eq_div_div, ← div_eq_mul_inv]

theorem le_roundedQuotient {k num den : Nat} (hden : 0 < den) (h : k * den ≤ num) : k ≤ roundedQuotient num den := by
  have hquotient : k ≤ num / den := (Nat.le_div_iff_mul_le hden).2 h
  unfold roundedQuotient
  dsimp only
  split_ifs <;> omega

theorem roundedQuotient_le {k num den : Nat} (hden : 0 < den) (h : num ≤ k * den) : roundedQuotient num den ≤ k := by
  have hparts := Nat.div_add_mod num den
  have hquotient : num / den ≤ k := Nat.div_le_of_le_mul (by rwa [Nat.mul_comm] at h)
  unfold roundedQuotient
  dsimp only
  rcases Nat.eq_or_lt_of_le hquotient with heq | hlt
  · have hexact : num % den = 0 := by
      rw [heq, Nat.mul_comm] at hparts
      omega
    rw [if_pos (by omega)]
    exact hquotient
  · split_ifs <;> omega

/-- The power of two that a quotient is measured by is not above it. -/
theorem two_zpow_floorLog2_le {num den : Nat} (hnum : num ≠ 0) (hden : den ≠ 0) :
    (2 : ℚ) ^ floorLog2 num den ≤ num / den := by
  have hpos : (0 : ℚ) < den := by exact_mod_cast Nat.pos_of_ne_zero hden
  have hscaled := scaled_eq num den (-((num.log2 : Int) - den.log2))
  have hbelow := scaled_pos num (Nat.pos_of_ne_zero hden) (-((num.log2 : Int) - den.log2))
  unfold floorLog2
  dsimp only
  split
  · next hle =>
    have hone : (1 : ℚ) ≤ num / den * 2 ^ (-((num.log2 : Int) - den.log2)) := by
      rw [← hscaled, one_le_div (by exact_mod_cast hbelow)]
      exact_mod_cast hle
    rwa [zpow_neg, ← div_eq_mul_inv, one_le_div (by positivity)] at hone
  · have hn : (2 : ℚ) ^ num.log2 ≤ num := by exact_mod_cast Nat.log2_self_le hnum
    have hd : (den : ℚ) ≤ 2 ^ (den.log2 + 1) := by exact_mod_cast Nat.lt_log2_self.le
    rw [le_div_iff₀ hpos]
    calc (2 : ℚ) ^ ((num.log2 : Int) - den.log2 - 1) * den
        ≤ 2 ^ ((num.log2 : Int) - den.log2 - 1) * 2 ^ (den.log2 + 1) := by gcongr
      _ = 2 ^ num.log2 := by
        rw [← zpow_natCast, ← zpow_natCast, ← zpow_add₀ two_ne_zero]
        congr 1
        push_cast
        ring
      _ ≤ num := hn

/-- The number is not negative, not infinite, and a number. -/
def IsMagnitude (x : Double) : Prop := ∃ m e, x = finite false m e

theorem IsMagnitude.toRat_nonneg {x : Double} (h : IsMagnitude x) : 0 ≤ x.toRat := by
  obtain ⟨m, e, rfl⟩ := h
  simp only [toRat, Bool.false_eq_true, if_false, one_mul]
  positivity

theorem IsMagnitude.ratio_eq {x : Double} (h : IsMagnitude x) : (x.ratio.1 : ℚ) / x.ratio.2 = x.toRat := by
  obtain ⟨m, e, rfl⟩ := h
  rw [ratio_finite]
  simp [toRat]

/-- A quotient that is not far above a power of two is rounded to a number on the same side of it. -/
theorem ofRatio_rounds {num den : Nat} (high : Int) (hhigh : high ≤ 970) (h : (num : ℚ) / den ≤ 2 ^ high) :
    IsMagnitude (ofRatio false num den) ∧ ∀ k : Int, high - 52 ≤ k → -1074 ≤ k →
      ((2 : ℚ) ^ k ≤ num / den → 2 ^ k ≤ (ofRatio false num den).toRat) ∧
        ((num : ℚ) / den ≤ 2 ^ k → (ofRatio false num den).toRat ≤ 2 ^ k) := by
  by_cases hzero : num = 0 ∨ den = 0
  · have hquotient : (num : ℚ) / den = 0 := by
      rcases hzero with rfl | rfl <;> simp
    rw [ofRatio, if_pos hzero, hquotient]
    refine ⟨⟨0, -1074, rfl⟩, fun k _ _ => ?_⟩
    simp [toRat]
  · rw [not_or] at hzero
    obtain ⟨hnum, hden⟩ := hzero
    have hlog : floorLog2 num den ≤ high :=
      (zpow_le_zpow_iff_right₀ one_lt_two).1 ((two_zpow_floorLog2_le hnum hden).trans h)
    have hpos := scaled_pos num (Nat.pos_of_ne_zero hden)
      (-(max (floorLog2 num den - 52) (-1074)))
    have hscaled := scaled_eq num den (-(max (floorLog2 num den - 52) (-1074)))
    unfold ofRatio
    rw [if_neg (not_or.2 ⟨hnum, hden⟩)]
    dsimp only
    generalize hexp : max (floorLog2 num den - 52) (-1074) = e at hpos hscaled ⊢
    generalize scaled num den (-e) = s at hpos hscaled ⊢
    have hfinite : ∃ m f, (if roundedQuotient s.1 s.2 = Nat.pow 2 53 then
          if e + 1 ≤ 971 then finite false (Nat.pow 2 52) (e + 1) else infinite false
        else if e ≤ 971 then finite false (roundedQuotient s.1 s.2) e else infinite false) = finite false m f ∧
          (m : ℚ) * 2 ^ f = roundedQuotient s.1 s.2 * 2 ^ e := by
      by_cases hcarry : roundedQuotient s.1 s.2 = Nat.pow 2 53
      · rw [if_pos hcarry, if_pos (by omega), hcarry]
        refine ⟨_, _, rfl, ?_⟩
        rw [zpow_add₀ two_ne_zero]
        norm_num
        ring
      · rw [if_neg hcarry, if_pos (by omega)]
        exact ⟨_, _, rfl, rfl⟩
    obtain ⟨m, f, heq, hvalue⟩ := hfinite
    rw [heq]
    refine ⟨⟨m, f, rfl⟩, fun k hk hleast => ?_⟩
    have hrat : (finite false m f).toRat = roundedQuotient s.1 s.2 * 2 ^ e := by
      rw [← hvalue]
      simp [toRat]
    -- the power of two is a whole number of the steps that are rounded to
    obtain ⟨d, hd⟩ := Int.eq_ofNat_of_zero_le (show 0 ≤ k - e by omega)
    have hsteps : (2 : ℚ) ^ k = (2 ^ d : ℕ) * 2 ^ e := by
      rw [show k = d + e by omega, zpow_add₀ two_ne_zero]
      push_cast
      rw [zpow_natCast]
    have hquotient : (num : ℚ) / den = s.1 / s.2 * 2 ^ e := by
      rw [hscaled, mul_assoc, ← zpow_add₀ two_ne_zero, neg_add_cancel, zpow_zero, mul_one]
    have hunit : (0 : ℚ) < 2 ^ e := by positivity
    have hbelow : (0 : ℚ) < s.2 := by exact_mod_cast hpos
    rw [hrat, hquotient, hsteps, mul_le_mul_iff_left₀ hunit, mul_le_mul_iff_left₀ hunit, mul_le_mul_iff_left₀ hunit,
      mul_le_mul_iff_left₀ hunit, le_div_iff₀ hbelow, div_le_iff₀ hbelow]
    exact ⟨fun hle => by exact_mod_cast le_roundedQuotient hpos (by exact_mod_cast hle),
      fun hle => by exact_mod_cast roundedQuotient_le hpos (by exact_mod_cast hle)⟩

theorem exists_add {x y : Double} (hx : IsMagnitude x) (hy : IsMagnitude y) : ∃ num den : Nat,
    x + y = ofRatio false num den ∧ (num : ℚ) / den = x.toRat + y.toRat := by
  have hxpos : (x.ratio.2 : ℚ) ≠ 0 := by exact_mod_cast (ratio_pos x).ne'
  have hypos : (y.ratio.2 : ℚ) ≠ 0 := by exact_mod_cast (ratio_pos y).ne'
  rw [← hx.ratio_eq, ← hy.ratio_eq, div_add_div _ _ hxpos hypos]
  obtain ⟨m, e, rfl⟩ := hx
  obtain ⟨n, f, rfl⟩ := hy
  refine ⟨(finite false m e).ratio.1 * (finite false n f).ratio.2 + (finite false n f).ratio.1 * (finite false m e).ratio.2,
    (finite false m e).ratio.2 * (finite false n f).ratio.2, rfl, ?_⟩
  push_cast
  ring

theorem exists_mul {x y : Double} (hx : IsMagnitude x) (hy : IsMagnitude y) : ∃ num den : Nat,
    x * y = ofRatio false num den ∧ (num : ℚ) / den = x.toRat * y.toRat := by
  rw [← hx.ratio_eq, ← hy.ratio_eq, div_mul_div_comm]
  obtain ⟨m, e, rfl⟩ := hx
  obtain ⟨n, f, rfl⟩ := hy
  refine ⟨(finite false m e).ratio.1 * (finite false n f).ratio.1, (finite false m e).ratio.2 * (finite false n f).ratio.2,
    rfl, ?_⟩
  push_cast
  rfl

theorem exists_div {x y : Double} (hx : IsMagnitude x) (hy : IsMagnitude y) (hzero : y.isZero = false) :
    ∃ num den : Nat, x / y = ofRatio false num den ∧ (num : ℚ) / den = x.toRat / y.toRat := by
  rw [← hx.ratio_eq, ← hy.ratio_eq, div_div_div_eq]
  obtain ⟨m, e, rfl⟩ := hx
  obtain ⟨n, f, rfl⟩ := hy
  refine ⟨(finite false m e).ratio.1 * (finite false n f).ratio.2, (finite false m e).ratio.2 * (finite false n f).ratio.1,
    ?_, by push_cast; rfl⟩
  show div _ _ = _
  unfold div
  simp [hzero, isNegative]

end Pseudoscribe.Double
