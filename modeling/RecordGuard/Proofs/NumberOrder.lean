import RecordGuard.Filter.Comparison
import RecordGuard.Proofs.Rounding

/-!
# The order of numbers

Two integers that both fit a signed word are compared as they are, and every other two numbers as
the doubles nearest to them. So an integer can count as equal to another one: `Blurs` says when, and
`compare_integer_of_not_blurs` that all other integers are ordered by value. Of two integers that
blur the larger is at least `2 ^ 63`, and they differ by at most 2048 (`Blurs.distance_le`).
-/

namespace RecordGuard.Json

open Double (roundInt roundNat roundTo stepOf)

namespace Number

/-- The number that a JSON number denotes. -/
def toRat : Number → ℚ
  | .integer n => n
  | .double d => d.toRat

/-- The number is the double nearest to it. -/
def IsExact (n : Number) : Prop := n.toDouble.toRat = n.toRat

theorem compare_swap (a b : Number) : a.compare b = (b.compare a).swap := by
  unfold Number.compare
  cases a.toInt64? <;> cases b.toInt64? <;> simp only [Double.compare_eq] <;>
    exact Std.OrientedOrd.eq_swap

theorem toRat_of_toInt64? {a : Number} {n : Int} (h : a.toInt64? = some n) : a.toRat = n := by
  cases a with
  | integer m =>
    rw [toInt64?] at h
    split_ifs at h
    cases h
    rfl
  | double d => cases h

/-- Integers that fit a signed word are compared by value. -/
theorem compare_of_toInt64? {a b : Number} {m n : Int} (ha : a.toInt64? = some m)
    (hb : b.toInt64? = some n) : a.compare b = compare a.toRat b.toRat := by
  rw [toRat_of_toInt64? ha, toRat_of_toInt64? hb, Number.compare, ha, hb]
  exact (compare_map_of_strictMono Int.cast_strictMono m n).symm

theorem isExact_double (d : Double) : (double d).IsExact := rfl

/-- Integers of up to 53 bits are doubles. -/
theorem isExact_integer {n : Int} (h : n.natAbs ≤ 2 ^ 53) : (integer n).IsExact := by
  rw [IsExact, toDouble, toRat, Double.toRat_ofInt, Double.roundInt_of_le h]

/-- Numbers that are doubles are compared by value. -/
theorem compare_of_isExact {a b : Number} (ha : a.IsExact) (hb : b.IsExact) :
    a.compare b = compare a.toRat b.toRat := by
  have hdoubles : a.toDouble.compare b.toDouble = compare a.toRat b.toRat := by
    rw [Double.compare_eq, ha, hb]
  cases hm : a.toInt64? with
  | none => rw [Number.compare, hm, hdoubles]
  | some m =>
    cases hn : b.toInt64? with
    | none => rw [Number.compare, hm, hn, hdoubles]
    | some n => exact compare_of_toInt64? hm hn

/-! ### Integers -/

/-- Two different integers that are not both compared as they are and are nearest to the same
double. -/
def Blurs (a b : Int) : Prop :=
  a ≠ b ∧ ¬(isInt64 a = true ∧ isInt64 b = true) ∧ roundInt a = roundInt b

theorem compare_integer (a b : Int) :
    (integer a).compare (integer b) =
      if isInt64 a = true ∧ isInt64 b = true then compare a b
      else compare (roundInt a) (roundInt b) := by
  have hdoubles : (integer a).toDouble.compare (integer b).toDouble =
      compare (roundInt a) (roundInt b) := by
    rw [Double.compare_eq, toDouble, toDouble, Double.toRat_ofInt, Double.toRat_ofInt]
    exact compare_map_of_strictMono Int.cast_strictMono _ _
  rw [Number.compare, toInt64?, toInt64?, hdoubles]
  by_cases ha : isInt64 a = true <;> by_cases hb : isInt64 b = true <;> simp [ha, hb]

theorem compare_integer_of_blurs {a b : Int} (h : Blurs a b) :
    (integer a).compare (integer b) = .eq := by
  rw [compare_integer, if_neg h.2.1, compare_eq_iff_eq]
  exact h.2.2

/-- Integers that do not blur are ordered by value. -/
theorem compare_integer_of_not_blurs {a b : Int} (h : ¬Blurs a b) :
    (integer a).compare (integer b) = compare a b := by
  rw [compare_integer]
  split_ifs with hwords
  · rfl
  have hne (hab : a ≠ b) : roundInt a ≠ roundInt b := fun heq => h ⟨hab, hwords, heq⟩
  rcases lt_trichotomy a b with hlt | rfl | hlt
  · rw [compare_lt_iff_lt.2 hlt, compare_lt_iff_lt]
    exact (Double.roundInt_le_roundInt hlt.le).lt_of_ne (hne hlt.ne)
  · rw [compare_eq_iff_eq.2 rfl, compare_eq_iff_eq.2 rfl]
  · rw [compare_gt_iff_gt.2 hlt, compare_gt_iff_gt]
    exact (Double.roundInt_le_roundInt hlt.le).lt_of_ne (hne hlt.ne').symm

theorem Blurs.symm {a b : Int} (h : Blurs a b) : Blurs b a :=
  ⟨h.1.symm, fun hwords => h.2.1 hwords.symm, h.2.2.symm⟩

/-- From `2 ^ 63` on doubles are 2048 apart. -/
theorem natAbs_roundInt_sub_le {n : Int} (hn : (Word.half64 : Int) ≤ n) (hlt : n < Word.limit64) :
    (roundInt n - n).natAbs ≤ 1024 := by
  unfold Word.half64 at hn
  unfold Word.limit64 at hlt
  obtain ⟨k, rfl⟩ := Int.eq_ofNat_of_zero_le (a := n) (by omega)
  have hlog : k.log2 = 63 := (Nat.log2_eq_iff (by omega)).2 ⟨by omega, by omega⟩
  have hstep : stepOf k = 2048 := by
    rw [stepOf, hlog]
    rfl
  have hle := Double.two_mul_roundTo_le 2048 k
  have hge : 2 * k ≤ 2 * roundTo 2048 k + 2048 := Double.two_mul_le_roundTo (by omega) k
  rw [Double.roundInt_natCast, roundNat, hstep]
  omega

/-- Of two integers in the range that blur, the smaller one is close to the larger. -/
theorem Blurs.sub_le_of_lt {a b : Int} (hlt : a < b) (ha : isInteger a = true)
    (hb : isInteger b = true) (h : Blurs a b) : b - a ≤ 2048 ∧ (Word.half64 : Int) ≤ b := by
  obtain ⟨-, hwords, hround⟩ := h
  simp only [isInteger, isInt64, decide_eq_true_eq] at ha hb hwords
  have hlarge : (Word.half64 : Int) ≤ b := by omega
  have hdistance := natAbs_roundInt_sub_le hlarge hb.2
  refine ⟨?_, hlarge⟩
  by_cases hboth : (Word.half64 : Int) ≤ a
  · have := natAbs_roundInt_sub_le hboth ha.2
    omega
  · -- the smaller one is below `2 ^ 63` and is rounded up to it
    have hup : roundInt a ≤ roundInt Word.half64 := Double.roundInt_le_roundInt (by omega)
    have hdown : roundInt Word.half64 ≤ roundInt b := Double.roundInt_le_roundInt hlarge
    have hhalf : roundInt Word.half64 = Word.half64 := by decide +kernel
    have hbelow : roundInt (Word.half64 - 1024) = Word.half64 - 1024 := by decide +kernel
    have hnear : Word.half64 - 1024 < a := by
      by_contra hfar
      have := Double.roundInt_le_roundInt (m := a) (n := Word.half64 - 1024) (by omega)
      omega
    omega

/-- Integers that blur differ by at most 2048, and one of them fits no signed word. -/
theorem Blurs.distance_le {a b : Int} (ha : isInteger a = true) (hb : isInteger b = true)
    (h : Blurs a b) : (a - b).natAbs ≤ 2048 ∧ (Word.half64 : Int) ≤ max a b := by
  rcases lt_or_gt_of_ne h.1 with hlt | hlt
  · have := h.sub_le_of_lt hlt ha hb
    omega
  · have := h.symm.sub_le_of_lt hlt hb ha
    omega

end Number

end RecordGuard.Json
