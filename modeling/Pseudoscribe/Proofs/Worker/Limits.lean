import Pseudoscribe.Options
import Pseudoscribe.Proofs.Number.Rounding
import Pseudoscribe.Worker.Link

/-!
# The time limit of an attempt

Options are accepted with any finite number of seconds above zero.  The limit of an attempt is that number to the nearest
nanosecond, and a worker in a process of its own is told its whole milliseconds in a word of 64 bits.  So the limit
arrives as it is exactly if it is neither less than a millisecond nor more milliseconds than fit into a word; and `2 ^ 64`
seconds and more are no length of time at all.
-/

namespace Pseudoscribe

namespace Double

/-! ## Numbers above zero -/

theorem exists_of_isPositive {x : Double} (h : Options.isPositive x = true) :
    ∃ m e, x = finite false m e ∧ 0 < x.toRat := by
  obtain ⟨hfinite, hlt⟩ := (Bool.and_eq_true _ _).mp h
  cases x with
  | nan => cases hfinite
  | infinite s => cases hfinite
  | finite s m e =>
    have hpos : (finite false 0 (-1074)).extended < (finite s m e).extended := (lt_iff rfl rfl).1 hlt
    have hzero : (finite false 0 (-1074)).toRat = 0 := by simp [toRat]
    simp only [extended, WithBot.coe_lt_coe, WithTop.coe_lt_coe, hzero] at hpos
    cases s with
    | false => exact ⟨m, e, rfl, hpos⟩
    | true =>
      have hmagnitude : (0 : ℚ) ≤ m * 2 ^ e := by positivity
      have hle : (finite true m e).toRat ≤ 0 := by
        rw [toRat, if_pos rfl]
        linarith
      exact absurd hpos (not_lt.2 hle)

/-! ## The nearest whole number -/

/-- A quotient is rounded down below a half and up above it, and a half goes to the even side. -/
theorem roundedQuotient_cases (num : Nat) {den : Nat} (hden : 0 < den) : ∃ q r, num = q * den + r ∧ r < den ∧
    (roundedQuotient num den = q ∧ (2 * r < den ∨ 2 * r = den ∧ q % 2 = 0) ∨
      roundedQuotient num den = q + 1 ∧ (den < 2 * r ∨ 2 * r = den ∧ q % 2 = 1)) := by
  refine ⟨num / den, num % den, (Nat.div_add_mod' num den).symm, Nat.mod_lt num hden, ?_⟩
  unfold roundedQuotient
  dsimp only
  split_ifs <;> omega

theorem roundedQuotient_near (num : Nat) {den : Nat} (hden : 0 < den) :
    2 * (roundedQuotient num den * den) ≤ 2 * num + den ∧ 2 * num ≤ 2 * (roundedQuotient num den * den) + den := by
  obtain ⟨q, r, hnum, hr, ⟨heq, hdown⟩ | ⟨heq, hup⟩⟩ := roundedQuotient_cases num hden
  · rw [heq]
    omega
  · have hnext : (q + 1) * den = q * den + den := Nat.add_one_mul q den
    rw [heq]
    omega

/-- An even number is reached from half a step below it on. -/
theorem two_mul_le_roundedQuotient_iff (k num : Nat) {den : Nat} (hden : 0 < den) :
    2 * k ≤ roundedQuotient num den ↔ 2 * (2 * k * den) ≤ 2 * num + den := by
  constructor
  · intro h
    have hnear := (roundedQuotient_near num hden).1
    have hproduct := Nat.mul_le_mul_right den h
    omega
  · intro h
    by_contra hlt
    obtain ⟨q, r, hnum, hr, ⟨heq, hdown⟩ | ⟨heq, hup⟩⟩ := roundedQuotient_cases num hden
    · have hle : (q + 1) * den ≤ 2 * k * den := Nat.mul_le_mul_right den (by omega)
      rw [Nat.add_one_mul] at hle
      rcases Nat.lt_or_ge (q + 1) (2 * k) with hfar | hbeside
      · have hle : (q + 2) * den ≤ 2 * k * den := Nat.mul_le_mul_right den (by omega)
        rw [Nat.add_mul] at hle
        omega
      · -- `q` is one less than an even number, so a half is not rounded down to it
        omega
    · have hle : (q + 2) * den ≤ 2 * k * den := Nat.mul_le_mul_right den (by omega)
      rw [Nat.add_mul] at hle
      omega

theorem abs_roundedQuotient_sub_le (num : Nat) {den : Nat} (hden : 0 < den) :
    |(roundedQuotient num den : ℚ) - num / den| ≤ 1 / 2 := by
  obtain ⟨hlow, hhigh⟩ := roundedQuotient_near num hden
  have hpos : (0 : ℚ) < den := by exact_mod_cast hden
  have hlow' : 2 * (roundedQuotient num den * den : ℚ) ≤ 2 * num + den := by exact_mod_cast hlow
  have hhigh' : (2 * num : ℚ) ≤ 2 * (roundedQuotient num den * den) + den := by exact_mod_cast hhigh
  rw [abs_le, neg_le_sub_iff_le_add, sub_le_iff_le_add, div_le_iff₀ hpos, ← sub_le_iff_le_add', le_div_iff₀ hpos]
  constructor <;> linarith

theorem two_mul_le_roundedQuotient_iff_rat (k num : Nat) {den : Nat} (hden : 0 < den) :
    2 * k ≤ roundedQuotient num den ↔ (2 * k - 1 / 2 : ℚ) ≤ num / den := by
  have hpos : (0 : ℚ) < den := by exact_mod_cast hden
  have hcast : 2 * (2 * k * den) ≤ 2 * num + den ↔ (2 * (2 * k * den) : ℚ) ≤ 2 * num + den := by exact_mod_cast Iff.rfl
  rw [two_mul_le_roundedQuotient_iff k num hden, hcast, le_div_iff₀ hpos]
  constructor <;> intro h <;> linarith

end Double

/-! ## Lengths of time -/

/-- A number that is not negative is a length of time if it is below `2 ^ 64`, and that to the nearest nanosecond; an even
number of nanoseconds is reached from half of one below on. -/
theorem Duration.ofSeconds?_finite (m : Nat) (e : Int) :
    (ofSeconds? (.finite false m e) = none ↔ 2 ^ 64 ≤ (Double.finite false m e).toRat) ∧
    ∀ d, ofSeconds? (.finite false m e) = some d →
      |(d.nanos : ℚ) - (Double.finite false m e).toRat * 10 ^ 9| ≤ 1 / 2 ∧
      ∀ k : Nat, 2 * k ≤ d.nanos ↔ (2 * k - 1 / 2 : ℚ) ≤ (Double.finite false m e).toRat * 10 ^ 9 := by
  have hratio := Double.IsMagnitude.ratio_eq ⟨m, e, rfl⟩
  have hden := Double.ratio_pos (.finite false m e)
  have hmade : ofSeconds? (.finite false m e) =
      if maxSeconds * (Double.finite false m e).ratio.2 ≤ (Double.finite false m e).ratio.1 then none
      else some ⟨Double.roundedQuotient ((Double.finite false m e).ratio.1 * nanosPerSecond)
        (Double.finite false m e).ratio.2⟩ := rfl
  rw [hmade, ← hratio]
  generalize (Double.finite false m e).ratio = ratio at hden ⊢
  obtain ⟨num, den⟩ := ratio
  have hpos : (0 : ℚ) < den := by exact_mod_cast hden
  have hnanos : (num / den * 10 ^ 9 : ℚ) = (num * nanosPerSecond : ℕ) / den := by
    rw [div_mul_eq_mul_div, nanosPerSecond]
    norm_num
  have hlarge : maxSeconds * den ≤ num ↔ (2 ^ 64 : ℚ) ≤ num / den := by
    rw [le_div_iff₀ hpos]
    exact_mod_cast Iff.rfl
  rw [← hlarge, hnanos]
  dsimp only
  split
  · next h => exact ⟨iff_of_true rfl h, fun d hd => by cases hd⟩
  · next h =>
    refine ⟨iff_of_false (Option.some_ne_none _) h, fun d hd => ?_⟩
    obtain rfl := Option.some.inj hd
    exact ⟨Double.abs_roundedQuotient_sub_le _ hden, fun k => Double.two_mul_le_roundedQuotient_iff_rat k _ hden⟩

/-! ## Limits -/

namespace Options

/-- The limit of an attempt is a length of time, and a worker that is given a task with it is told its whole milliseconds,
of which there is one at least. -/
def Usable (o : Options) : Prop :=
  ∃ d, o.timeout? = some d ∧ ∀ (t : PoolTask) (id : RequestId), t.timeout = d →
    1 ≤ (t.order id).timeoutMs ∧ (t.order id).timeoutMs = d.millis

theorem exists_of_validate {o : Options} (h : o.validate = .ok ()) :
    ∃ m e, o.timeoutSeconds = .finite false m e ∧ 0 < o.timeoutSeconds.toRat := by
  refine Double.exists_of_isPositive ?_
  by_contra hnot
  have hrefused : (!isPositive o.timeoutSeconds) = true := by rw [eq_false_of_ne_true hnot, Bool.not_false]
  unfold validate at h
  rw [if_pos hrefused] at h
  split_ifs at h

theorem timeoutMs_order (t : PoolTask) (id : RequestId) : (t.order id).timeoutMs = t.timeout.millis % 2 ^ 64 := rfl

/-- In nanoseconds, what is told whole. -/
theorem told_whole_iff (d : Duration) : 1 ≤ d.millis % 2 ^ 64 ∧ d.millis % 2 ^ 64 = d.millis ↔
    2 * 500000 ≤ d.nanos ∧ ¬ 2 * (2 ^ 63 * 1000000) ≤ d.nanos := by
  have hmillis : d.millis = d.nanos / 1000000 := rfl
  rw [hmillis]
  omega

theorem usable_of_timeout {o : Options} {d : Duration} (h : o.timeout? = some d) :
    o.Usable ↔ 1 ≤ d.millis % 2 ^ 64 ∧ d.millis % 2 ^ 64 = d.millis := by
  constructor
  · rintro ⟨d', hd', htold⟩
    obtain rfl := Option.some.inj (h.symm.trans hd')
    exact htold { ticket := 0, chunk := default, spec := default, language := .python, attempt := 1, timeout := d }
      default rfl
  · intro hwhole
    refine ⟨d, h, fun t id ht => ?_⟩
    rw [timeoutMs_order, ht]
    exact hwhole

/-- Options that are accepted have a number of seconds above zero.  The limit of an attempt is this number to the nearest
nanosecond, unless it is `2 ^ 64` or more: then there is none.  A worker is told the whole milliseconds of the limit,
as far as a word has room for them.  So what it is told is the limit, and is not nothing, exactly if the number is neither
less than a millisecond nor `2 ^ 64` milliseconds, as far as these can be told apart in nanoseconds. -/
theorem usable_iff (o : Options) (h : o.validate = .ok ()) :
    0 < o.timeoutSeconds.toRat ∧
    (o.timeout? = none ↔ 2 ^ 64 ≤ o.timeoutSeconds.toRat) ∧
    (∀ d, o.timeout? = some d → |(d.nanos : ℚ) - o.timeoutSeconds.toRat * 10 ^ 9| ≤ 1 / 2 ∧
      ∀ (t : PoolTask) (id : RequestId), t.timeout = d → (t.order id).timeoutMs = d.millis % 2 ^ 64) ∧
    (o.Usable ↔ (10 ^ 6 - 1 / 2 : ℚ) ≤ o.timeoutSeconds.toRat * 10 ^ 9 ∧
      o.timeoutSeconds.toRat * 10 ^ 9 < 2 ^ 64 * 10 ^ 6 - 1 / 2) := by
  obtain ⟨m, e, hseconds, hpos⟩ := exists_of_validate h
  obtain ⟨hnone, hsome⟩ := Duration.ofSeconds?_finite m e
  have htimeout : o.timeout? = Duration.ofSeconds? (.finite false m e) := congrArg Duration.ofSeconds? hseconds
  rw [← htimeout] at hnone hsome
  rw [hseconds] at hpos ⊢
  refine ⟨hpos, hnone, fun d hd => ⟨(hsome d hd).1, fun t id ht => by rw [timeoutMs_order, ht]⟩, ?_⟩
  cases hd : o.timeout? with
  | none =>
    have hlarge := hnone.1 hd
    refine iff_of_false ?_ fun hbounds => ?_
    · rintro ⟨d, hd', -⟩
      exact Option.some_ne_none d (hd'.symm.trans hd)
    · linarith [hbounds.2]
  | some d =>
    have hreached := (hsome d hd).2
    rw [usable_of_timeout hd, told_whole_iff, hreached, hreached, not_le]
    norm_num

/-- One minute is told as it is. -/
theorem usable_iff_of_minute :
    ({} : Options).validate = .ok () ∧ ({} : Options).timeoutSeconds.toRat = 60 ∧ ({} : Options).Usable := by
  have haccepted : ({} : Options).validate = .ok () := by decide +kernel
  have hseconds : ({} : Options).timeoutSeconds.toRat = 60 := by
    have hminute : ({} : Options).timeoutSeconds = .finite false 8444249301319680 (-47) := by decide +kernel
    rw [hminute, Double.toRat]
    norm_num
  refine ⟨haccepted, hseconds, (usable_iff {} haccepted).2.2.2.2 ?_⟩
  rw [hseconds]
  norm_num

/-- Of the numbers of seconds that are accepted some are no length of time, some are told as no time at all, and some as a
shorter time. -/
theorem exists_accepted_unusable :
    (∃ o : Options, o.validate = .ok () ∧ o.timeout? = none) ∧
    (∃ (o : Options) (d : Duration), o.validate = .ok () ∧ o.timeout? = some d ∧
      ∀ (t : PoolTask) (id : RequestId), t.timeout = d → (t.order id).timeoutMs = 0) ∧
    ∃ (o : Options) (d : Duration), o.validate = .ok () ∧ o.timeout? = some d ∧
      ∀ (t : PoolTask) (id : RequestId), t.timeout = d → (t.order id).timeoutMs < d.millis := by
  refine ⟨⟨{ timeoutSeconds := .ofNat 18446744073709551616 }, by decide +kernel, by decide +kernel⟩,
    ⟨{ timeoutSeconds := .ofRatio false 1 2000 }, ⟨500000⟩, by decide +kernel, by decide +kernel, fun t id ht => ?_⟩,
    ⟨{ timeoutSeconds := .ofNat 18446744073709552 }, .ofSeconds 18446744073709552, by decide +kernel,
      by decide +kernel, fun t id ht => ?_⟩⟩
  · rw [timeoutMs_order, ht]
    decide
  · rw [timeoutMs_order, ht]
    decide

end Options

end Pseudoscribe
