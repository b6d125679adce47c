import Pseudoscribe.Task.Retry

/-!
# Delays without overflow

A product that does not fit into a word is cut to the greatest word, and that is far more than the longest delay.  So where
a delay is cut on the way does not show: it is the doubled base, as if words had no end, up to half a minute.
-/

namespace Pseudoscribe

namespace Duration

theorem nanos_ofMillis (ms : Nat) : (ofMillis ms).nanos = ms * 1000000 := rfl

theorem ofMillis_inj {a b : Nat} : ofMillis a = ofMillis b ↔ a = b := by
  rw [Duration.mk.injEq]
  exact Nat.mul_left_inj (by decide)

theorem min_ofMillis (a b : Nat) : min (ofMillis a) (ofMillis b) = ofMillis (min a b) :=
  congrArg Duration.mk (Nat.mul_min_mul_right a b nanosPerMilli)

theorem millis_ofMillis (ms : Nat) : (ofMillis ms).millis = ms := Nat.mul_div_cancel ms (by decide)

end Duration

namespace Retry

/-! ## Words -/

theorem toNat_maxWord : maxWord.toNat = Nat.pow 2 64 - 1 := rfl

theorem toNat_saturatingMul (a b : UInt64) :
    (saturatingMul a b).toNat = min (a.toNat * b.toNat) maxWord.toNat := by
  unfold saturatingMul
  split
  · next h =>
    have hfits : a.toNat * b.toNat < Nat.pow 2 64 := h
    rw [UInt64.toNat_mul, Nat.mod_eq_of_lt hfits, toNat_maxWord]
    omega
  · next h =>
    have hlarge : Nat.pow 2 64 ≤ a.toNat * b.toNat := Nat.not_lt.1 h
    rw [toNat_maxWord]
    omega

/-- A power of two, or the greatest word if a word has no room for it. -/
theorem toNat_getD_bit? (n : UInt32) : ((bit? n).getD maxWord).toNat = min (Nat.pow 2 n.toNat) maxWord.toNat := by
  unfold bit?
  split
  · next h =>
    have hn : n.toNat < 64 := UInt32.lt_iff_toNat_lt.1 h
    have hpow : Nat.pow 2 n.toNat ≤ Nat.pow 2 63 := Nat.pow_le_pow_right Nat.two_pos (Nat.le_of_lt_succ hn)
    have hroom : Nat.pow 2 63 < Nat.pow 2 64 - 1 := by decide
    have hfits : Nat.pow 2 n.toNat < Nat.pow 2 64 - 1 := Nat.lt_of_le_of_lt hpow hroom
    rw [Option.getD_some, UInt64.toNat_shiftLeft, UInt32.toNat_toUInt64, Nat.mod_eq_of_lt hn, UInt64.toNat_one,
      Nat.one_shiftLeft, toNat_maxWord, Nat.min_eq_left (Nat.le_of_lt hfits)]
    exact Nat.mod_eq_of_lt (Nat.lt_of_lt_of_le hfits (Nat.sub_le _ 1))
  · next h =>
    have hn : 64 ≤ n.toNat := Nat.not_lt.1 fun hlt => h (UInt32.lt_iff_toNat_lt.2 hlt)
    have hpow : Nat.pow 2 64 ≤ Nat.pow 2 n.toNat := Nat.pow_le_pow_right Nat.two_pos hn
    rw [Option.getD_none, toNat_maxWord, Nat.min_eq_right (Nat.le_trans (Nat.sub_le _ 1) hpow)]

theorem toNat_saturatingPred (n : UInt32) : (saturatingPred n).toNat = n.toNat - 1 := by
  unfold saturatingPred
  split
  · next h =>
    rw [h]
    rfl
  · next h =>
    have hpos : n.toNat ≠ 0 := fun hzero => h (UInt32.toNat_inj.1 hzero)
    exact UInt32.toNat_sub_of_le n 1 (UInt32.le_iff_toNat_le.2 (Nat.one_le_iff_ne_zero.2 hpos))

/-! ## Cutting -/

/-- That a factor was cut does not show in a product that is cut. -/
theorem min_mul_min (a b cut : Nat) : min (min a cut * min b cut) cut = min (a * b) cut := by
  rcases Nat.eq_zero_or_pos cut with rfl | hcut
  · rw [Nat.min_zero, Nat.min_zero]
  have hlarge : ∀ x y : Nat, cut ≤ x → 0 < y → min (min x cut * min y cut) cut = min (x * y) cut := by
    intro x y hx hy
    have hmin : 0 < min y cut := Nat.lt_min.2 ⟨hy, hcut⟩
    rw [Nat.min_eq_right hx, Nat.min_eq_right (Nat.le_mul_of_pos_right cut hmin),
      Nat.min_eq_right (Nat.le_trans hx (Nat.le_mul_of_pos_right x hy))]
  rcases Nat.eq_zero_or_pos a with rfl | ha
  · rw [Nat.zero_min, Nat.zero_mul, Nat.zero_mul]
  rcases Nat.eq_zero_or_pos b with rfl | hb
  · rw [Nat.zero_min, Nat.mul_zero, Nat.mul_zero]
  rcases Nat.le_total cut a with hca | hac
  · exact hlarge a b hca hb
  rcases Nat.le_total cut b with hcb | hbc
  · rw [Nat.mul_comm (min a cut), hlarge b a hcb ha, Nat.mul_comm]
  · rw [Nat.min_eq_left hac, Nat.min_eq_left hbc]

/-! ## The delay -/

/-- The delay in milliseconds, if words had no end. -/
def exactMs (baseMs attempt : Nat) (timedOut : Bool) : Nat :=
  min (baseMs * Nat.pow 2 (attempt - 1) * if timedOut then 2 else 1) 30000

theorem delay_eq (baseMs : UInt64) (attempt : UInt32) (timedOut : Bool) :
    delay baseMs attempt timedOut = .ofMillis (exactMs baseMs.toNat attempt.toNat timedOut) := by
  have hbase : (if timedOut then saturatingMul baseMs 2 else baseMs).toNat =
      min (baseMs.toNat * if timedOut then 2 else 1) maxWord.toNat := by
    cases timedOut with
    | false =>
      have hword : baseMs.toNat ≤ maxWord.toNat := Nat.le_pred_of_lt baseMs.toNat_lt
      rw [if_neg Bool.false_ne_true, if_neg Bool.false_ne_true, Nat.mul_one, Nat.min_eq_left hword]
    | true =>
      rw [if_pos rfl, if_pos rfl, toNat_saturatingMul]
      rfl
  have hmax : maxDelay = .ofMillis 30000 := rfl
  have hcut : 30000 ≤ maxWord.toNat := by decide
  unfold delay exactMs
  rw [hmax, Duration.min_ofMillis, toNat_saturatingMul, hbase, toNat_getD_bit?, toNat_saturatingPred, min_mul_min,
    Nat.min_assoc, Nat.min_eq_right hcut, Nat.mul_right_comm]

/-- A run knows its numbers as they are, and its delays are the same. -/
theorem delayMs_eq (baseMs attempt : Nat) (timedOut : Bool) (hbase : baseMs < UInt64.size)
    (hattempt : attempt < UInt32.size) : delayMs baseMs attempt timedOut = exactMs baseMs attempt timedOut := by
  rw [delayMs, delay_eq, Duration.millis_ofMillis, UInt64.toNat_ofNatClamp_of_lt hbase,
    UInt32.toNat_ofNatClamp_of_lt hattempt]

theorem exactMs_eq_zero (baseMs attempt : Nat) (timedOut : Bool) :
    exactMs baseMs attempt timedOut = 0 ↔ baseMs = 0 := by
  have hpow : 0 < Nat.pow 2 (attempt - 1) := Nat.pow_pos Nat.two_pos
  have hdouble : 0 < if timedOut then 2 else 1 := by cases timedOut <;> decide
  unfold exactMs
  constructor
  · intro hzero
    rcases Nat.eq_zero_or_pos baseMs with hnone | hbase
    · exact hnone
    · have hproduct := Nat.mul_pos (Nat.mul_pos hbase hpow) hdouble
      omega
  · rintro rfl
    rw [Nat.zero_mul, Nat.zero_mul, Nat.zero_min]

theorem exactMs_le {baseMs baseMs' attempt attempt' : Nat} {timedOut timedOut' : Bool} (hbase : baseMs ≤ baseMs')
    (hattempt : attempt ≤ attempt') (htimedOut : timedOut ≤ timedOut') :
    exactMs baseMs attempt timedOut ≤ exactMs baseMs' attempt' timedOut' := by
  have hpow : Nat.pow 2 (attempt - 1) ≤ Nat.pow 2 (attempt' - 1) :=
    Nat.pow_le_pow_right Nat.two_pos (Nat.sub_le_sub_right hattempt 1)
  have hdouble : (if timedOut then 2 else 1) ≤ if timedOut' then 2 else 1 := by
    cases timedOut <;> cases timedOut' <;> first | decide | exact absurd htimedOut (by decide)
  have hproduct := Nat.mul_le_mul (Nat.mul_le_mul hbase hpow) hdouble
  unfold exactMs
  omega

/-- The delay between two attempts, for any base of 64 bits and any number of an attempt of 32 bits: it is what the same
products are over all natural numbers, and never more than half a minute.  There is no delay exactly if the base is
nothing, and a greater base, a later attempt and a timeout make no delay shorter.  A run, which keeps its numbers without
words, has the same delays. -/
theorem delay_exact :
    (∀ baseMs attempt timedOut, delay baseMs attempt timedOut =
      .ofMillis (min 30000 (baseMs.toNat * Nat.pow 2 (attempt.toNat - 1) * if timedOut then 2 else 1))) ∧
    (∀ baseMs attempt timedOut, delay baseMs attempt timedOut = ⟨0⟩ ↔ baseMs = 0) ∧
    (∀ {baseMs baseMs' attempt attempt' timedOut timedOut'}, baseMs ≤ baseMs' → attempt ≤ attempt' →
      timedOut ≤ timedOut' → (delay baseMs attempt timedOut).nanos ≤ (delay baseMs' attempt' timedOut').nanos) ∧
    ∀ (baseMs attempt : Nat) (timedOut : Bool), baseMs < UInt64.size → attempt < UInt32.size →
      delayMs baseMs attempt timedOut =
        min 30000 (baseMs * Nat.pow 2 (attempt - 1) * if timedOut then 2 else 1) := by
  refine ⟨fun baseMs attempt timedOut => ?_, fun baseMs attempt timedOut => ?_, ?_,
    fun baseMs attempt timedOut hbase hattempt => ?_⟩
  · rw [delay_eq, exactMs, Nat.min_comm]
  · have hnone : (⟨0⟩ : Duration) = .ofMillis 0 := rfl
    rw [delay_eq, hnone, Duration.ofMillis_inj, exactMs_eq_zero, ← UInt64.toNat_zero, UInt64.toNat_inj]
  · intro baseMs baseMs' attempt attempt' timedOut timedOut' hbase hattempt htimedOut
    rw [delay_eq, delay_eq, Duration.nanos_ofMillis, Duration.nanos_ofMillis]
    exact Nat.mul_le_mul_right _
      (exactMs_le (UInt64.le_iff_toNat_le.1 hbase) (UInt32.le_iff_toNat_le.1 hattempt) htimedOut)
  · rw [delayMs_eq baseMs attempt timedOut hbase hattempt, exactMs, Nat.min_comm]

/-- A base for which every product is too great for a word, and one for which none is. -/
theorem delay_exact_of_maxWord : delay maxWord 80 true = .ofSeconds 30 ∧ delay 3 4 false = .ofMillis 24 ∧
    (delay 3 4 false).nanos ≤ (delay maxWord 80 true).nanos ∧ delayMs 250 7 true = 30000 := by
  refine ⟨(delay_exact.1 maxWord 80 true).trans (by decide +kernel), (delay_exact.1 3 4 false).trans (by decide +kernel),
    delay_exact.2.2.1 ?_ ?_ ?_, (delay_exact.2.2.2 250 7 true ?_ ?_).trans (by decide +kernel)⟩ <;> decide

end Retry

end Pseudoscribe
