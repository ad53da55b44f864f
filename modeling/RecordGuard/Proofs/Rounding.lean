import Mathlib.Algebra.Order.Field.Power
import RecordGuard.Proofs.Equality

/-!
# What doubles denote

A double denotes a rational number (`Double.toRat`), and doubles are ordered by what they denote
(`compare_eq`). An integer becomes the nearest double: it is rounded to the multiples of the
smallest power of two that leaves a significand of 53 bits (`roundInt`, `toRat_ofInt`). Integers of
up to 53 bits stay what they are (`roundInt_of_le`), and rounding keeps the order of integers though
it may make them equal (`roundInt_le_roundInt`).
-/

namespace RecordGuard.Json

/-- What keeps a linear order keeps the outcome of comparisons. -/
theorem compare_map_of_strictMono {α β : Type} [LinearOrder α] [LinearOrder β] {f : α → β}
    (hf : StrictMono f) (a b : α) : compare (f a) (f b) = compare a b := by
  rw [← cmp_eq_compare, ← cmp_eq_compare, hf.cmp_map_eq]

namespace Double

/-- The number that a double denotes. -/
def toRat (d : Double) : ℚ :=
  (if d.negative then -1 else 1) * d.significand * 2 ^ d.exponent

theorem scaled_mul (d : Double) {e : Int} (h : e ≤ d.exponent) :
    (d.scaled e : ℚ) * 2 ^ e = d.toRat := by
  obtain ⟨k, hk⟩ := Int.le.dest h
  have hpow : (2 : ℚ) ^ d.exponent = 2 ^ k * 2 ^ e := by
    rw [← hk, add_comm, zpow_add₀ (by norm_num), zpow_natCast]
  have hshift : (d.exponent - e).toNat = k := by omega
  unfold scaled toRat
  rw [hshift, hpow]
  split_ifs <;> simp [mul_assoc]

/-- Doubles are ordered by what they denote. -/
theorem compare_eq (a b : Double) : a.compare b = compare a.toRat b.toRat := by
  have hmono : StrictMono fun k : ℤ => (k : ℚ) * 2 ^ min a.exponent b.exponent := by
    intro k l hkl
    exact mul_lt_mul_of_pos_right (Int.cast_lt.2 hkl) (zpow_pos (by norm_num) _)
  rw [Double.compare, ← a.scaled_mul (min_le_left _ b.exponent),
    ← b.scaled_mul (min_le_right a.exponent _)]
  exact (compare_map_of_strictMono hmono _ _).symm

/-! ### Rounding to multiples -/

/-- The multiple of a step nearest to a number; of two, the even one. -/
def roundTo (step n : Nat) : Nat := roundQuotient n step * step

theorem roundQuotient_le_roundQuotient {m n : Nat} (h : m ≤ n) (den : Nat) :
    roundQuotient m den ≤ roundQuotient n den := by
  have hdiv : m / den ≤ n / den := Nat.div_le_div_right h
  have hm := Nat.div_add_mod m den
  have hn := Nat.div_add_mod n den
  unfold roundQuotient
  rcases hdiv.lt_or_eq with hlt | heq
  · dsimp only
    split_ifs <;> omega
  · -- over one multiple, the larger number has the larger remainder
    have hmod : m % den ≤ n % den := by rw [heq] at hm; omega
    rw [heq]
    dsimp only
    split_ifs <;> omega

theorem roundQuotient_mul {den : Nat} (h : 0 < den) (k : Nat) :
    roundQuotient (k * den) den = k := by
  unfold roundQuotient
  simp [Nat.mul_div_cancel _ h, h]

theorem roundTo_le_roundTo {m n : Nat} (h : m ≤ n) (step : Nat) :
    roundTo step m ≤ roundTo step n :=
  Nat.mul_le_mul_right step (roundQuotient_le_roundQuotient h step)

theorem roundTo_of_dvd {step n : Nat} (hstep : 0 < step) (h : step ∣ n) : roundTo step n = n := by
  obtain ⟨k, rfl⟩ := h
  rw [roundTo, Nat.mul_comm step, roundQuotient_mul hstep]

/-- A rounded number is at most half a step away. -/
theorem two_mul_roundTo_le (step n : Nat) : 2 * roundTo step n ≤ 2 * n + step := by
  have hn := Nat.div_add_mod' n step
  have hsucc : (n / step + 1) * step = n / step * step + step := Nat.succ_mul _ _
  unfold roundTo roundQuotient
  dsimp only
  split_ifs <;> omega

theorem two_mul_le_roundTo {step : Nat} (h : 0 < step) (n : Nat) :
    2 * n ≤ 2 * roundTo step n + step := by
  have hn := Nat.div_add_mod' n step
  have hmod := Nat.mod_lt n h
  have hsucc : (n / step + 1) * step = n / step * step + step := Nat.succ_mul _ _
  unfold roundTo roundQuotient
  dsimp only
  split_ifs <;> omega

/-! ### Rounding to doubles -/

/-- What multiples a natural number is rounded to. -/
def stepOf (n : Nat) : Nat := 2 ^ (n.log2 - 52)

/-- A natural number as a double denotes it. -/
def roundNat (n : Nat) : Nat := roundTo (stepOf n) n

/-- An integer as a double denotes it. -/
def roundInt (n : Int) : Int := n.sign * roundNat n.natAbs

theorem stepOf_pos (n : Nat) : 0 < stepOf n := Nat.two_pow_pos _

/-- Powers of two from the step on are multiples of it. -/
theorem roundTo_two_pow {n k : Nat} (h : n.log2 ≤ k) : roundTo (stepOf n) (2 ^ k) = 2 ^ k :=
  roundTo_of_dvd (stepOf_pos n) (Nat.pow_dvd_pow 2 ((Nat.sub_le _ _).trans h))

/-- A number lies between two powers of two, and so does what it is rounded to. -/
theorem roundNat_le_two_pow (n : Nat) : roundNat n ≤ 2 ^ (n.log2 + 1) := by
  rw [← roundTo_two_pow (Nat.le_succ n.log2)]
  exact roundTo_le_roundTo Nat.lt_log2_self.le _

theorem two_pow_le_roundNat {n : Nat} (h : n ≠ 0) : 2 ^ n.log2 ≤ roundNat n := by
  rw [← roundTo_two_pow (le_refl n.log2)]
  exact roundTo_le_roundTo (Nat.log2_self_le h) _

theorem roundNat_le_roundNat {m n : Nat} (h : m ≤ n) : roundNat m ≤ roundNat n := by
  rcases Nat.eq_zero_or_pos m with rfl | hm
  · exact Nat.zero_le _
  have hlog : m.log2 ≤ n.log2 := (Nat.le_log2 (by omega)).2 ((Nat.log2_self_le hm.ne').trans h)
  rcases hlog.lt_or_eq with hlt | heq
  · -- a power of two separates the numbers
    calc roundNat m ≤ 2 ^ (m.log2 + 1) := roundNat_le_two_pow m
      _ ≤ 2 ^ n.log2 := Nat.pow_le_pow_right (by omega) hlt
      _ ≤ roundNat n := two_pow_le_roundNat (by omega)
  · have hstep : stepOf m = stepOf n := by rw [stepOf, stepOf, heq]
    rw [roundNat, roundNat, hstep]
    exact roundTo_le_roundTo h _

theorem roundNat_of_dvd {n : Nat} (h : stepOf n ∣ n) : roundNat n = n :=
  roundTo_of_dvd (stepOf_pos n) h

theorem roundInt_natCast (n : Nat) : roundInt n = roundNat n := by
  rcases Nat.eq_zero_or_pos n with rfl | hn
  · rfl
  · rw [roundInt, Int.sign_eq_one_of_pos (Int.natCast_pos.2 hn), Int.natAbs_natCast, one_mul]

theorem roundInt_neg (n : Int) : roundInt (-n) = -roundInt n := by
  rw [roundInt, roundInt, Int.sign_neg, Int.natAbs_neg, neg_mul]

/-- Rounding keeps the order of integers. -/
theorem roundInt_le_roundInt {m n : Int} (h : m ≤ n) : roundInt m ≤ roundInt n := by
  obtain ⟨k, rfl | rfl⟩ := m.eq_nat_or_neg <;> obtain ⟨l, rfl | rfl⟩ := n.eq_nat_or_neg <;>
    simp only [roundInt_neg, roundInt_natCast]
  · have := roundNat_le_roundNat (m := k) (n := l) (by omega)
    omega
  · obtain ⟨rfl, rfl⟩ : k = 0 ∧ l = 0 := by omega
    decide
  · omega
  · have := roundNat_le_roundNat (m := l) (n := k) (by omega)
    omega

/-- Integers of up to 53 bits stay what they are. -/
theorem roundInt_of_le {n : Int} (h : n.natAbs ≤ 2 ^ 53) : roundInt n = n := by
  have hnat {k : Nat} (hk : k ≤ 2 ^ 53) : roundNat k = k := by
    apply roundNat_of_dvd
    rcases hk.lt_or_eq with hlt | rfl
    · have hlog : k.log2 ≤ 52 := by
        rcases Nat.eq_zero_or_pos k with rfl | hpos
        · decide
        · exact Nat.lt_succ_iff.1 ((Nat.log2_lt hpos.ne').2 hlt)
      rw [stepOf, Nat.sub_eq_zero_of_le hlog]
      exact one_dvd k
    · decide +kernel
  rw [roundInt, hnat h, Int.sign_mul_natAbs]

/-! ### The nearest double -/

theorem floorLog2_one {n : Nat} (h : n ≠ 0) : floorLog2 n 1 = n.log2 := by
  have hlog : Nat.log2 1 = 0 := by decide
  have hreaches : 2 ^ n.log2 ≤ n := Nat.log2_self_le h
  unfold floorLog2
  simp [hlog, hreaches]

/-- The significand of a natural number, with the exponent that leaves 53 bits. -/
theorem roundAt_mul (n : Nat) :
    (roundAt n 1 (n.log2 - 52) : ℚ) * 2 ^ ((n.log2 : Int) - 52) = roundNat n := by
  unfold roundAt
  split_ifs with hexp
  · have hshift : ((n.log2 : Int) - 52) = (n.log2 - 52 : Nat) := by omega
    rw [hshift, Int.toNat_natCast, Nat.one_mul, zpow_natCast]
    simp [roundNat, roundTo, stepOf]
  · -- the number has fewer bits, so that its significand is exact
    obtain ⟨k, hk⟩ : ∃ k : Nat, (n.log2 : Int) - 52 = -(k : Int) := ⟨52 - n.log2, by omega⟩
    have hstep : stepOf n ∣ n := by
      rw [stepOf, Nat.sub_eq_zero_of_le (by omega)]
      exact one_dvd n
    have hexact := roundQuotient_mul Nat.one_pos (n * 2 ^ k)
    rw [mul_one] at hexact
    rw [hk, neg_neg, Int.toNat_natCast, Nat.pow_eq, hexact, roundNat_of_dvd hstep, zpow_neg,
      zpow_natCast, Nat.cast_mul, Nat.cast_pow, Nat.cast_ofNat,
      mul_inv_cancel_right₀ (pow_ne_zero k two_ne_zero)]

theorem toRat_nearest (negative : Bool) (n : Nat) :
    (nearest negative n 1).toRat = (if negative then -1 else 1) * roundNat n := by
  by_cases hn : n = 0
  · subst hn
    have hzero : roundNat 0 = 0 := by decide
    simp [nearest, zero, toRat, hzero]
  have hexp : max (floorLog2 n 1 - (precision - 1 : Nat)) minExponent = n.log2 - 52 := by
    rw [floorLog2_one hn]
    exact max_eq_left (by simp only [minExponent, precision]; omega)
  rw [nearest, if_neg hn, hexp, ← roundAt_mul, ← mul_assoc]
  by_cases hcarry : roundAt n 1 (n.log2 - 52) = 2 * minSignificand
  · -- a carry into one more bit is taken by the exponent
    simp only [hcarry, if_true, toRat]
    rw [zpow_add_one₀ two_ne_zero, Nat.cast_mul]
    ring
  · simp only [hcarry, if_false, toRat]

theorem toRat_ofInt (n : Int) : (ofInt n).toRat = roundInt n := by
  rw [ofInt, toRat_nearest]
  obtain ⟨k, rfl | rfl⟩ := n.eq_nat_or_neg
  · rw [roundInt_natCast, Int.natAbs_natCast, decide_eq_false (by omega)]
    simp
  · rcases Nat.eq_zero_or_pos k with rfl | hk
    · have hzero : roundNat 0 = 0 := by decide
      simp [hzero, roundInt]
    · rw [roundInt_neg, roundInt_natCast, Int.natAbs_neg, Int.natAbs_natCast,
        decide_eq_true (by omega)]
      simp

end Double

end RecordGuard.Json
