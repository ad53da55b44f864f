import RecordGuard.Filter.Evaluation
import RecordGuard.Proofs.NumberOrder
import RecordGuard.Template

/-!
# Filters on integers

A filter that compares a field with an integer should go by the values of the integers, and so
should the scope of a caller whose number is compared with the owner of a record
(`ComparesByValue`). `compares_by_value_iff` says when this is so: whenever the two integers do not
blur. An integer that blurs with the one in the field is taken for it, so that a caller can be shown
the record of a neighbour (`neighbour_taken_for_owner`).
-/

namespace RecordGuard

open Json (Value Number)

namespace Comparison

/-- What a comparison says of two integers. -/
def Relates (a b : Int) : Comparison → Prop
  | .eq => a = b
  | .ne => a ≠ b
  | .lt => a < b
  | .le => a ≤ b
  | .gt => a > b
  | .ge => a ≥ b

/-- What a comparison says of the order of two values. -/
def allows (ordering : Ordering) : Comparison → Bool
  | .eq => ordering == .eq
  | .ne => ordering != .eq
  | .lt => ordering.isLT
  | .le => ordering.isLE
  | .gt => ordering.isGT
  | .ge => ordering.isGE

theorem allows_compare_iff (comparison : Comparison) (a b : Int) :
    comparison.allows (compare a b) = true ↔ comparison.Relates a b := by
  rcases lt_trichotomy a b with hlt | rfl | hgt
  · rw [compare_lt_iff_lt.2 hlt]
    cases comparison <;> simp [allows, Relates] <;> omega
  · rw [compare_eq_iff_eq.2 rfl]
    cases comparison <;> simp [allows, Relates]
  · rw [compare_gt_iff_gt.2 hgt]
    cases comparison <;> simp [allows, Relates] <;> omega

end Comparison

/-- Filters, lists of alternatives and scopes of callers that ask a field which holds `a` for the
integer `b` go by the values of the two. -/
structure ComparesByValue (document : Value) (field : String) (a b : Int) : Prop where
  order : (Value.integer a).order? (Value.integer b) = some (compare a b)
  comparison : ∀ comparison : Comparison,
    (Filter.field field (.compare comparison (.integer b))).isMatch document = true ↔
      comparison.Relates a b
  /-- One of several values, if the field has none of the others. -/
  oneOf : ∀ before after : List Value,
    (∀ other ∈ before ++ after, (Filter.eq field other).isMatch document = false) →
      ((Filter.field field (.oneOf (before ++ .integer b :: after))).isMatch document = true ↔
        a = b)
  /-- The field has the value of an attribute of the caller. -/
  scope : ∀ (identity : Identity) (name : String), identity.attribute? name = some (.integer b) →
    ∃ filter, (Template.attributeEq field name).resolve identity = .ok filter ∧
      (filter.isMatch document = true ↔ a = b)

section Filters

variable {document : Value} {field : String} {a b : Int}
  (h : Path.get? document field = some (.integer a))

include h in
theorem isMatch_compare (comparison : Comparison) :
    (Filter.field field (.compare comparison (.integer b))).isMatch document =
      comparison.allows ((Number.integer a).compare (.integer b)) := by
  rw [Filter.isMatch, Test.holds, h]
  cases comparison <;> rfl

/-- Of a list of values only those count that the field has. -/
theorem isMatch_oneOf {before after : List Value}
    (hothers : ∀ other ∈ before ++ after, (Filter.eq field other).isMatch document = false) :
    (Filter.field field (.oneOf (before ++ .integer b :: after))).isMatch document =
      (Filter.eq field (.integer b)).isMatch document := by
  have hnone {values : List Value} (hvalues : ∀ other ∈ values, other ∈ before ++ after) :
      (values.any fun value => someFound Value.isEqual (Path.get? document field) value) = false :=
    List.any_eq_false.2 fun other ho => Bool.eq_false_iff.1 (hothers other (hvalues other ho))
  rw [Filter.isMatch, Test.holds, List.any_append, List.any_cons,
    hnone fun _ => List.mem_append_left after, hnone fun _ => List.mem_append_right before,
    Bool.false_or, Bool.or_false]
  rfl

include h

/-- Integers that do not blur are compared by value. -/
theorem comparesByValue_of_not_blurs (hblurs : ¬Number.Blurs a b) :
    ComparesByValue document field a b := by
  have horder := Number.compare_integer_of_not_blurs hblurs
  have heq : (Filter.eq field (.integer b)).isMatch document = true ↔ a = b := by
    rw [Filter.eq, isMatch_compare h, horder]
    exact Comparison.allows_compare_iff .eq a b
  refine ⟨congrArg some horder, fun comparison => ?_, fun before after hothers => ?_,
    fun identity name hname => ⟨Filter.eq field (.integer b), ?_, heq⟩⟩
  · rw [isMatch_compare h, horder, Comparison.allows_compare_iff]
  · rw [isMatch_oneOf hothers, heq]
  · rw [Template.resolve, Template.lookup, hname]
    rfl

/-- Filters go by the values of the integer in a field and the one they ask for exactly if the two
do not blur. Otherwise the one is taken for the other, which is at most 2048 away, and one of them
fits no signed word. -/
theorem compares_by_value_iff (ha : Number.isInteger a = true) (hb : Number.isInteger b = true) :
    (ComparesByValue document field a b ↔ ¬Number.Blurs a b) ∧
      (Number.Blurs a b →
        (Filter.eq field (.integer b)).isMatch document = true ∧
          (a - b).natAbs ≤ 2048 ∧ (Word.half64 : Int) ≤ max a b) := by
  refine ⟨⟨fun hvalue hblurs => ?_, comparesByValue_of_not_blurs h⟩, fun hblurs => ⟨?_, ?_⟩⟩
  · have hcompare := Option.some.inj hvalue.order
    rw [Number.compare_integer_of_blurs hblurs] at hcompare
    exact hblurs.1 (compare_eq_iff_eq.1 hcompare.symm)
  · rw [Filter.eq, isMatch_compare h, Number.compare_integer_of_blurs hblurs]
    rfl
  · exact hblurs.distance_le ha hb

end Filters

/-- The last two integers of the range that are doubles do not blur. -/
theorem compares_by_value_of_largest :
    let largest : Int := 2 ^ 64 - 2048
    let document := Value.object [("n", .integer largest)]
    Number.isInteger largest = true ∧ Number.isInteger (largest - 2048) = true ∧
      Path.get? document "n" = some (.integer largest) ∧
      ComparesByValue document "n" largest (largest - 2048) := by
  intro largest document
  have ha : Number.isInteger largest = true := by decide
  have hb : Number.isInteger (largest - 2048) = true := by decide
  have hget : Path.get? document "n" = some (.integer largest) := rfl
  refine ⟨ha, hb, hget, (compares_by_value_iff hget ha hb).1.2 ?_⟩
  rintro ⟨-, -, hround⟩
  exact absurd hround (by decide +kernel)

/-- Account `2 ^ 63` is shown a record of account `2 ^ 63 + 1`. -/
theorem neighbour_taken_for_owner :
    let document := Value.object [("_id", .string "1"), ("owner", .integer (2 ^ 63 + 1))]
    let caller := (Identity.ofRoles ["USER"]).withAttribute "account" (.integer (2 ^ 63))
    (∃ filter, (Template.attributeEq "owner" "account").resolve caller = .ok filter ∧
      filter.isMatch document = true) ∧
      ¬ComparesByValue document "owner" (2 ^ 63 + 1) (2 ^ 63) := by
  intro document caller
  have hmatch : (Filter.eq "owner" (.integer (2 ^ 63))).isMatch document = true := by
    decide +kernel
  refine ⟨⟨_, rfl, hmatch⟩, fun hvalue => ?_⟩
  have heq : (2 ^ 63 + 1 : Int) = 2 ^ 63 := (hvalue.comparison .eq).1 hmatch
  exact absurd heq (by decide)

end RecordGuard
