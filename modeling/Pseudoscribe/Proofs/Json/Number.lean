import Mathlib.Data.List.TakeWhile
import Pseudoscribe.Json.Printer
import Pseudoscribe.Json.Reader

/-!
# Reading back the numbers of JSON

A number ends where a character comes that no number goes on with.  So what is read from a text that holds a number
alone is also read where such a character follows; and a whole number of 64 bits is read as it is written.
-/

namespace Pseudoscribe.Json

/-! ## The parts of a number -/

/-- The digits behind the point, if there is one. -/
def fractionPart? (cs : List Char) : Option (Option (List Char) × List Char) :=
  match cs with
  | '.' :: r =>
    if (r.takeWhile Char.isDigit).isEmpty then none
    else some (some (r.takeWhile Char.isDigit), r.dropWhile Char.isDigit)
  | _ => some (none, cs)

/-- The sign of an exponent, and its digits with what follows. -/
def signPart (cs : List Char) : Bool × List Char :=
  match cs with
  | '-' :: r => (true, r)
  | '+' :: r => (false, r)
  | _ => (false, cs)

/-- An exponent whose sign has been read. -/
def unsignedExponent? (negative : Bool) (cs : List Char) : Option (Int × List Char) :=
  if (cs.takeWhile Char.isDigit).isEmpty then none
  else
    let n : Int := (String.ofList (cs.takeWhile Char.isDigit)).toNat?.getD 0
    some (if negative then -n else n, cs.dropWhile Char.isDigit)

theorem exponent?_eq (cs : List Char) : exponent? cs = unsignedExponent? (signPart cs).1 (signPart cs).2 := by
  rfl

/-- The exponent, if there is one. -/
def powerPart? (cs : List Char) : Option (Option Int × List Char) :=
  match cs with
  | 'e' :: r | 'E' :: r => (exponent? r).map fun p => (some p.1, p.2)
  | _ => some (none, cs)

/-- The value of a number with these parts, and what follows it. -/
def numberOf? (negative : Bool) (whole : List Char) (fraction : Option (List Char)) (power : Option Int)
    (rest : List Char) : Option (Json × List Char) := do
  let (n, dropped) := foldDigits 0 whole
  match fraction, power with
  | none, none =>
    if dropped = 0 then
      if !negative then pure (.int n, rest)
      else if 0 < n ∧ n ≤ Nat.pow 2 63 then pure (.int (-n), rest)
      else pure (.real (-(Double.ofNat n)), rest)
    else
      let x ← Double.ofDecimalSteps? negative n dropped
      pure (.real x, rest)
  | _, _ =>
    let ds := fraction.getD []
    let (m, left) := if dropped = 0 then foldDigits n ds else (n, ds.length)
    let places : Int := (ds.length - left : Nat)
    let x ← Double.ofDecimalSteps? negative m ((dropped : Int) - places + power.getD 0)
    pure (.real x, rest)

/-- What follows has no part in the value. -/
theorem numberOf?_eq_map (negative : Bool) (whole : List Char) (fraction : Option (List Char)) (power : Option Int)
    (rest : List Char) : numberOf? negative whole fraction power rest =
      ((numberOf? negative whole fraction power []).map Prod.fst).map fun j => (j, rest) := by
  unfold numberOf?
  dsimp only
  split
  · split
    · split
      · rfl
      · split <;> rfl
    · cases Double.ofDecimalSteps? negative _ _ <;> rfl
  · cases Double.ofDecimalSteps? negative _ _ <;> rfl

theorem bind_fractionPart? {β : Type} (cs : List Char) (k : Option (List Char) × List Char → Option β) :
    (fractionPart? cs).bind k = match cs with
      | '.' :: r =>
        if (r.takeWhile Char.isDigit).isEmpty then none.bind k
        else (some (some (r.takeWhile Char.isDigit), r.dropWhile Char.isDigit)).bind k
      | _ => (some (none, cs)).bind k := by
  unfold fractionPart?
  split
  · split <;> rfl
  · rfl

theorem bind_powerPart? {β : Type} (cs : List Char) (k : Option Int × List Char → Option β) :
    (powerPart? cs).bind k = match cs with
      | 'e' :: r => ((exponent? r).map fun (e, r') => (some e, r')).bind k
      | 'E' :: r => ((exponent? r).map fun (e, r') => (some e, r')).bind k
      | _ => (some (none, cs)).bind k := by
  unfold powerPart?
  split <;> rfl

/-- A number is read part by part. -/
theorem unsignedNumber?_eq (negative : Bool) (cs : List Char) : unsignedNumber? negative cs =
    (wholeDigits? cs).bind fun w => (fractionPart? w.2).bind fun f => (powerPart? f.2).bind fun p =>
      numberOf? negative w.1 f.1 p.1 p.2 := by
  unfold unsignedNumber?
  simp only [bind_fractionPart?, bind_powerPart?]
  rfl

/-! ## What follows a number -/

/-- No number goes on with what follows. -/
def EndsNumber (rest : List Char) : Prop := ∀ c ∈ rest.head?, c.isDigit = false ∧ c ≠ '.' ∧ c ≠ 'e' ∧ c ≠ 'E'

theorem endsNumber_nil : EndsNumber [] := nofun

section Following

variable {rest : List Char} (hrest : EndsNumber rest)
include hrest

theorem takeWhile_isDigit_append (cs : List Char) :
    (cs ++ rest).takeWhile Char.isDigit = cs.takeWhile Char.isDigit := by
  have hnone : rest.takeWhile Char.isDigit = [] := by
    cases rest with
    | nil => rfl
    | cons c rest => exact List.takeWhile_cons_of_neg (by simp [(hrest c rfl).1])
  rw [List.takeWhile_append]
  split
  · next h => rw [hnone, List.append_nil, (List.takeWhile_prefix _).eq_of_length h]
  · rfl

theorem dropWhile_isDigit_append (cs : List Char) :
    (cs ++ rest).dropWhile Char.isDigit = cs.dropWhile Char.isDigit ++ rest := by
  have hall : rest.dropWhile Char.isDigit = rest := by
    cases rest with
    | nil => rfl
    | cons c rest => exact List.dropWhile_cons_of_neg (by simp [(hrest c rfl).1])
  rw [List.dropWhile_append]
  split
  · next h => rw [hall, List.isEmpty_iff.1 h, List.nil_append]
  · rfl

theorem wholeDigits?_append {cs ds left : List Char} (h : wholeDigits? cs = some (ds, left)) :
    wholeDigits? (cs ++ rest) = some (ds, left ++ rest) := by
  unfold wholeDigits? at h ⊢
  rw [takeWhile_isDigit_append hrest, dropWhile_isDigit_append hrest]
  dsimp only at h ⊢
  split at h
  · cases h
  · cases h
  · obtain ⟨rfl, rfl⟩ := Prod.mk.inj (Option.some.inj h)
    rfl

theorem unsignedExponent?_append {negative : Bool} {cs left : List Char} {e : Int}
    (h : unsignedExponent? negative cs = some (e, left)) :
    unsignedExponent? negative (cs ++ rest) = some (e, left ++ rest) := by
  unfold unsignedExponent? at h ⊢
  rw [takeWhile_isDigit_append hrest, dropWhile_isDigit_append hrest]
  split at h
  · cases h
  · next hne =>
    obtain ⟨rfl, rfl⟩ := Prod.mk.inj (Option.some.inj h)
    rw [if_neg hne]

omit hrest in
theorem signPart_append {cs : List Char} (hcs : cs ≠ []) :
    signPart (cs ++ rest) = ((signPart cs).1, (signPart cs).2 ++ rest) := by
  obtain ⟨c, cs, rfl⟩ := List.exists_cons_of_ne_nil hcs
  rw [List.cons_append]
  unfold signPart
  split
  · next heq =>
    obtain ⟨rfl, rfl⟩ := List.cons.inj heq
    rfl
  · next heq =>
    obtain ⟨rfl, rfl⟩ := List.cons.inj heq
    rfl
  · next hminus hplus =>
    split
    · next heq => exact absurd (congrArg (· ++ rest) heq) (hminus _)
    · next heq => exact absurd (congrArg (· ++ rest) heq) (hplus _)
    · rfl

theorem exponent?_append {cs left : List Char} {e : Int} (h : exponent? cs = some (e, left)) :
    exponent? (cs ++ rest) = some (e, left ++ rest) := by
  have hcs : cs ≠ [] := by
    rintro rfl
    cases h
  rw [exponent?_eq] at h ⊢
  rw [signPart_append hcs]
  exact unsignedExponent?_append hrest h

theorem fractionPart?_append {cs left : List Char} {f : Option (List Char)} (h : fractionPart? cs = some (f, left)) :
    fractionPart? (cs ++ rest) = some (f, left ++ rest) := by
  unfold fractionPart? at h
  split at h
  · next r =>
    split at h
    · cases h
    · next hne =>
      obtain ⟨rfl, rfl⟩ := Prod.mk.inj (Option.some.inj h)
      rw [List.cons_append]
      show (if _ then _ else some (some _, _)) = _
      rw [takeWhile_isDigit_append hrest, dropWhile_isDigit_append hrest, if_neg hne]
  · next hpoint =>
    obtain ⟨rfl, rfl⟩ := Prod.mk.inj (Option.some.inj h)
    unfold fractionPart?
    split
    · next r hr =>
      rcases List.append_eq_cons_iff.1 hr with ⟨-, rfl⟩ | ⟨cs', rfl, -⟩
      · exact absurd rfl (hrest '.' rfl).2.1
      · exact absurd rfl (hpoint cs')
    · rfl

theorem powerPart?_append {cs left : List Char} {p : Option Int} (h : powerPart? cs = some (p, left)) :
    powerPart? (cs ++ rest) = some (p, left ++ rest) := by
  unfold powerPart? at h
  split at h
  · next r =>
    obtain ⟨⟨e, left'⟩, he, heq⟩ := Option.map_eq_some_iff.1 h
    obtain ⟨rfl, rfl⟩ := Prod.mk.inj heq
    show (exponent? (r ++ rest)).map _ = _
    rw [exponent?_append hrest he]
    rfl
  · next r =>
    obtain ⟨⟨e, left'⟩, he, heq⟩ := Option.map_eq_some_iff.1 h
    obtain ⟨rfl, rfl⟩ := Prod.mk.inj heq
    show (exponent? (r ++ rest)).map _ = _
    rw [exponent?_append hrest he]
    rfl
  · next hlower hupper =>
    obtain ⟨rfl, rfl⟩ := Prod.mk.inj (Option.some.inj h)
    unfold powerPart?
    split
    · next r hr =>
      rcases List.append_eq_cons_iff.1 hr with ⟨-, rfl⟩ | ⟨cs', rfl, -⟩
      · exact absurd rfl (hrest 'e' rfl).2.2.1
      · exact absurd rfl (hlower cs')
    · next r hr =>
      rcases List.append_eq_cons_iff.1 hr with ⟨-, rfl⟩ | ⟨cs', rfl, -⟩
      · exact absurd rfl (hrest 'E' rfl).2.2.2
      · exact absurd rfl (hupper cs')
    · rfl

omit hrest in
theorem numberOf?_append {negative : Bool} {whole left left' : List Char} {f : Option (List Char)} {p : Option Int}
    {j : Json} (h : numberOf? negative whole f p left = some (j, left')) :
    left' = left ∧ numberOf? negative whole f p (left ++ rest) = some (j, left ++ rest) := by
  rw [numberOf?_eq_map] at h ⊢
  obtain ⟨j', hj', heq⟩ := Option.map_eq_some_iff.1 h
  obtain ⟨rfl, rfl⟩ := Prod.mk.inj heq
  exact ⟨rfl, Option.map_eq_some_iff.2 ⟨_, hj', rfl⟩⟩

theorem unsignedNumber?_append {negative : Bool} {cs left : List Char} {j : Json}
    (h : unsignedNumber? negative cs = some (j, left)) :
    unsignedNumber? negative (cs ++ rest) = some (j, left ++ rest) := by
  simp only [unsignedNumber?_eq, Option.bind_eq_some_iff] at h ⊢
  obtain ⟨⟨whole, r₀⟩, hwhole, ⟨fraction, r₁⟩, hfraction, ⟨power, r₂⟩, hpower, hvalue⟩ := h
  obtain ⟨rfl, hvalue⟩ := numberOf?_append hvalue
  exact ⟨_, wholeDigits?_append hrest hwhole, _, fractionPart?_append hrest hfraction, _,
    powerPart?_append hrest hpower, hvalue⟩

theorem number?_append {cs left : List Char} {j : Json} (h : number? cs = some (j, left)) :
    number? (cs ++ rest) = some (j, left ++ rest) := by
  unfold number? at h
  split at h
  · exact unsignedNumber?_append hrest h
  · next hsign =>
    have h' := unsignedNumber?_append hrest h
    unfold number?
    split
    · next r hr =>
      rcases List.append_eq_cons_iff.1 hr with ⟨rfl, -⟩ | ⟨cs', rfl, -⟩
      · cases h
      · exact absurd rfl (hsign cs')
    · exact h'

end Following

/-! ## Whole numbers -/

theorem le_ofDigitChars (ds : List Char) : ∀ start : Nat, start ≤ Nat.ofDigitChars 10 ds start := by
  induction ds with
  | nil => exact fun start => Nat.le_of_eq Nat.ofDigitChars_nil.symm
  | cons d ds ih =>
    intro start
    rw [Nat.ofDigitChars_cons]
    exact Nat.le_trans (by omega) (ih _)

/-- Digits whose number has 64 bits are all counted. -/
theorem foldDigits_eq (ds : List Char) : ∀ start : Nat, Nat.ofDigitChars 10 ds start ≤ maxWord →
    foldDigits start ds = (Nat.ofDigitChars 10 ds start, 0) := by
  induction ds with
  | nil => exact fun start _ => congrArg (·, 0) Nat.ofDigitChars_nil.symm
  | cons d ds ih =>
    intro start h
    rw [Nat.ofDigitChars_cons, Nat.mul_comm] at h ⊢
    have hnext : start * 10 + digitValue d ≤ maxWord := Nat.le_trans (le_ofDigitChars ds _) h
    rw [← ih _ h]
    unfold foldDigits
    rw [List.foldl_cons]
    dsimp only
    rw [if_pos ⟨rfl, hnext⟩]
    rfl

theorem digitChar_eq_zero : ∀ n < 10, Nat.digitChar n = '0' → n = 0 := by decide

/-- Only the number nought is written with a nought in front. -/
theorem eq_zero_of_head?_toDigits {n : Nat} (h : (Nat.toDigits 10 n).head? = some '0') : n = 0 := by
  induction n using Nat.strongRecOn with
  | ind n ih =>
    by_cases hn : n < 10
    · rw [Nat.toDigits_of_lt_base hn] at h
      exact digitChar_eq_zero n hn (Option.some.inj h)
    · have hten : 10 ≤ n := Nat.le_of_not_lt hn
      rw [Nat.toDigits_of_base_le (by decide) hten, List.head?_append,
        Option.or_of_isSome (List.isSome_head?.2 Nat.toDigits_ne_nil)] at h
      have hzero := ih (n / 10) (by omega) h
      omega

theorem wholeDigits?_toDigits (n : Nat) : wholeDigits? (Nat.toDigits 10 n) = some (Nat.toDigits 10 n, []) := by
  have hdigit : ∀ c ∈ Nat.toDigits 10 n, c.isDigit = true := fun c hc =>
    Nat.isDigit_of_mem_toDigits (by decide) (by decide) hc
  unfold wholeDigits?
  rw [List.takeWhile_eq_self_iff.2 hdigit, List.dropWhile_eq_nil_iff.2 hdigit]
  dsimp only
  split
  · next h => exact absurd h Nat.toDigits_ne_nil
  · next h =>
    have hzero : n = 0 := eq_zero_of_head?_toDigits (congrArg List.head? h)
    rw [hzero, Nat.toDigits_zero] at h
    cases h
  · rfl

theorem numberOf?_toDigits {n : Nat} (hn : n ≤ maxWord) (negative : Bool) :
    numberOf? negative (Nat.toDigits 10 n) none none [] =
      if !negative then some (.int n, [])
      else if 0 < n ∧ n ≤ Nat.pow 2 63 then some (.int (-n), [])
      else some (.real (-(Double.ofNat n)), []) := by
  have hfold : foldDigits 0 (Nat.toDigits 10 n) = (n, 0) := by
    rw [foldDigits_eq _ 0 (by rw [Nat.ofDigitChars_ten_toDigits]; exact hn), Nat.ofDigitChars_ten_toDigits]
  unfold numberOf?
  rw [hfold]
  rfl

theorem unsignedNumber?_toDigits {n : Nat} (hn : n ≤ maxWord) (negative : Bool) :
    unsignedNumber? negative (Nat.toDigits 10 n) =
      if !negative then some (.int n, [])
      else if 0 < n ∧ n ≤ Nat.pow 2 63 then some (.int (-n), [])
      else some (.real (-(Double.ofNat n)), []) := by
  rw [unsignedNumber?_eq, wholeDigits?_toDigits, ← numberOf?_toDigits hn]
  rfl

theorem number?_natCast {n : Nat} (hn : n ≤ maxWord) : number? (toString n).toList = some (.int n, []) := by
  have h := unsignedNumber?_toDigits hn false
  rw [Nat.toString_eq_ofList_toDigits, String.toList_ofList]
  unfold number?
  split
  · next cs hcs =>
    have hminus := Nat.isDigit_of_mem_toDigits (b := 10) (n := n) (c := '-') (by decide) (by decide)
      (hcs ▸ List.mem_cons_self)
    exact absurd hminus (by decide)
  · exact h

/-- A whole number of 64 bits is read as it is written. -/
theorem number?_int {i : Int} (hlow : -(Nat.pow 2 63 : Nat) ≤ i) (hhigh : i ≤ maxWord) :
    number? (toString i).toList = some (.int i, []) := by
  cases i with
  | ofNat n => exact number?_natCast (Int.ofNat_le.1 hhigh)
  | negSucc n =>
    have hn : n + 1 ≤ Nat.pow 2 63 := by omega
    have hword : n + 1 ≤ maxWord := Nat.le_trans hn (by decide)
    have htext : (toString (Int.negSucc n)).toList = '-' :: Nat.toDigits 10 (n + 1) := by
      show ("-" ++ (n + 1).repr).toList = _
      rw [String.toList_append, Nat.toList_repr]
      rfl
    rw [htext]
    show unsignedNumber? true _ = _
    rw [unsignedNumber?_toDigits hword, if_neg (by decide), if_pos ⟨Nat.succ_pos n, hn⟩]
    rfl

theorem number?_head {cs : List Char} {r : Json × List Char} (h : number? cs = some r) :
    ∃ c cs', cs = c :: cs' ∧ (c = '-' ∨ c.isDigit = true) := by
  cases cs with
  | nil => cases h
  | cons c cs =>
    refine ⟨c, cs, rfl, ?_⟩
    unfold number? at h
    split at h
    · next heq => exact .inl (List.cons.inj heq).1
    · rw [unsignedNumber?_eq, Option.bind_eq_some_iff] at h
      obtain ⟨w, hw, -⟩ := h
      by_cases hdigit : c.isDigit = true
      · exact .inr hdigit
      · unfold wholeDigits? at hw
        rw [List.takeWhile_cons_of_neg hdigit] at hw
        cases hw

end Pseudoscribe.Json
