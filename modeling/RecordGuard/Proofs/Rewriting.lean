import Mathlib.Tactic.Linarith
import RecordGuard.Proofs.Equality
import RecordGuard.Proofs.PrintedNumbers

/-!
# Values that are written again and again

A document is kept as a text, and a double that is read from its text is not always the one that
was written. `Rewritten` is what may have become of a value after it was written any number of
times and callers have put equal values in its place. A value whose numbers all read back as they
are is still equal to what it was (`Rewritten.same_of_isSteady`); integers always do.
-/

namespace RecordGuard.Json

/-! ### Numbers -/

/-- The significand has 53 bits, fewer only under the smallest exponent. -/
structure Double.IsNormal (d : Double) : Prop where
  significand_lt : d.significand < 2 * minSignificand
  le_significand : d.exponent ≠ minExponent → minSignificand ≤ d.significand
  le_exponent : minExponent ≤ d.exponent

theorem Double.natAbs_scaled (d : Double) (e : Int) :
    (d.scaled e).natAbs = d.significand * 2 ^ (d.exponent - e).toNat := by
  unfold scaled
  split_ifs
  · rw [Int.natAbs_neg]
    rfl
  · rfl

/-- Of equal normal doubles neither has the larger exponent. -/
theorem Double.exponent_le_of_compare {a b : Double} (h : a.compare b = .eq) (ha : a.IsNormal)
    (hb : b.IsNormal) : b.exponent ≤ a.exponent := by
  by_contra hlt
  have hlt : a.exponent < b.exponent := not_le.1 hlt
  have hscaled := congrArg Int.natAbs ((compare_eq_iff le_rfl hlt.le).1 h)
  rw [natAbs_scaled, natAbs_scaled, sub_self, Int.toNat_zero, pow_zero, mul_one] at hscaled
  have hpow : 2 ^ 1 ≤ 2 ^ (b.exponent - a.exponent).toNat :=
    Nat.pow_le_pow_right (by omega) (by omega)
  -- `b` is not subnormal, so that its significand has 53 bits and `a` would need more
  have hmin := ha.le_exponent
  have hsig := hb.le_significand (by omega)
  have hmul := Nat.mul_le_mul hsig hpow
  have hbound := ha.significand_lt
  omega

theorem Double.exponent_eq_of_compare {a b : Double} (h : a.compare b = .eq) (ha : a.IsNormal)
    (hb : b.IsNormal) : a.exponent = b.exponent :=
  le_antisymm (exponent_le_of_compare (compare_symm h) hb ha) (exponent_le_of_compare h ha hb)

/-- Equal normal doubles are the same double, or two zeros. -/
theorem Double.eq_or_zero_of_compare {a b : Double} (h : a.compare b = .eq) (ha : a.IsNormal)
    (hb : b.IsNormal) : a = b ∨ a = zero a.negative := by
  have hexp := exponent_eq_of_compare h ha hb
  have hscaled := (compare_eq_iff le_rfl hexp.le).1 h
  unfold scaled at hscaled
  rw [← hexp, sub_self] at hscaled
  obtain ⟨s, m, e⟩ := a
  obtain ⟨t, n, f⟩ := b
  simp only [Int.toNat_zero, Nat.pow_eq, pow_zero, mul_one] at hexp hscaled
  subst hexp
  by_cases hm : m = 0
  · right
    have hmin : e = minExponent := by
      by_contra hne
      have hsig : minSignificand ≤ m := ha.le_significand hne
      rw [hm] at hsig
      exact absurd hsig (by decide)
    rw [hm, hmin]
    rfl
  · left
    cases s <;> cases t <;> simp only [Bool.false_eq_true, if_false, if_true] at hscaled
    · rw [show m = n by omega]
    · omega
    · omega
    · rw [show m = n by omega]

namespace Number

/-- The number is one that can be read from a text. -/
def IsNormal : Number → Prop
  | .integer _ => True
  | .double d => d.IsNormal

/-- The number reads back as it is written. -/
structure IsSteady (n : Number) : Prop where
  isNormal : n.IsNormal
  readBack_eq : n.readBack = n

theorem isSteady_integer {n : Int} (h : isInteger n = true) : (Number.integer n).IsSteady :=
  ⟨trivial, by rw [readBack, Reader.reread?_integer h]; rfl⟩

theorem isSteady_of_beq {m n : Number} (h : m.beq n = true) (hn : n.IsSteady) (hm : m.IsNormal) :
    m.IsSteady := by
  refine ⟨hm, ?_⟩
  cases m with
  | integer m =>
    cases n with
    | integer n =>
      rw [show m = n from eq_of_beq h]
      exact hn.readBack_eq
    | double b => cases h
  | double a =>
    cases n with
    | integer n => cases h
    | double b =>
      rcases Double.eq_or_zero_of_compare (eq_of_beq h) hm hn.isNormal with heq | hzero
      · rw [heq]
        exact hn.readBack_eq
      · rw [hzero]
        cases a.negative <;> decide +kernel

end Number

namespace Value

mutual

/-- The numbers in a value, in its order. -/
def numbers : Value → List Number
  | .number n => [n]
  | .array items => numbersOfItems items
  | .object members => numbersOfMembers members
  | _ => []
termination_by structural v => v

/-- The numbers in items. -/
def numbersOfItems : List Value → List Number
  | [] => []
  | v :: vs => numbers v ++ numbersOfItems vs
termination_by structural vs => vs

/-- The numbers in the values of members. -/
def numbersOfMembers : List (String × Value) → List Number
  | [] => []
  | (_, v) :: ms => numbers v ++ numbersOfMembers ms
termination_by structural ms => ms

end

/-- Every number in the value can be read from a text. -/
def IsNormal (v : Value) : Prop := ∀ n ∈ v.numbers, n.IsNormal

/-- Every number in the value reads back as it is written. -/
def IsSteady (v : Value) : Prop := ∀ n ∈ v.numbers, n.IsSteady

theorem numbers_subset_of_get? {members : List (String × Value)} {key : String} {child : Value}
    (h : Entries.get? members key = some child) : child.numbers ⊆ numbersOfMembers members := by
  induction members with
  | nil => cases h
  | cons member members ih =>
    rw [Entries.get?_cons] at h
    split_ifs at h
    · cases h
      exact List.subset_append_left _ _
    · exact List.Subset.trans (ih h) (List.subset_append_right _ _)

theorem IsNormal.getSegments? {v : Value} (h : v.IsNormal) {keys : List String} {w : Value}
    (hw : Path.getSegments? v keys = some w) : w.IsNormal := by
  induction keys generalizing v with
  | nil =>
    cases hw
    exact h
  | cons key keys ih =>
    obtain ⟨child, hc, hw⟩ := Option.bind_eq_some_iff.1 hw
    refine ih (fun n hn => h n ?_) hw
    cases v with
    | object members => exact numbers_subset_of_get? hc hn
    | _ => cases hc

/-! ### Steady values -/

mutual

theorem readBack_of_isSteady : (v : Value) → (∀ n ∈ v.numbers, n.IsSteady) → v.readBack = v
  | .null, _ => rfl
  | .bool _, _ => rfl
  | .number n, h => congrArg Value.number (h n (List.mem_singleton_self n)).readBack_eq
  | .string _, _ => rfl
  | .array items, h => congrArg Value.array (readBackItems_of_isSteady items h)
  | .object members, h => congrArg Value.object (readBackMembers_of_isSteady members h)

theorem readBackItems_of_isSteady :
    (vs : List Value) → (∀ n ∈ numbersOfItems vs, n.IsSteady) → readBackItems vs = vs
  | [], _ => rfl
  | v :: vs, h => by
    rw [readBackItems, readBack_of_isSteady v fun n hn => h n (List.mem_append_left _ hn),
      readBackItems_of_isSteady vs fun n hn => h n (List.mem_append_right _ hn)]

theorem readBackMembers_of_isSteady : (ms : List (String × Value)) →
    (∀ n ∈ numbersOfMembers ms, n.IsSteady) → readBackMembers ms = ms
  | [], _ => rfl
  | (k, v) :: ms, h => by
    rw [readBackMembers, readBack_of_isSteady v fun n hn => h n (List.mem_append_left _ hn),
      readBackMembers_of_isSteady ms fun n hn => h n (List.mem_append_right _ hn)]

end

mutual

theorem isSteady_of_same : {v w : Value} → v.same w = true → (∀ n ∈ w.numbers, n.IsSteady) →
    (∀ n ∈ v.numbers, n.IsNormal) → ∀ n ∈ v.numbers, n.IsSteady
  | .null, _, _, _, _ => fun _ hn => absurd hn List.not_mem_nil
  | .bool _, _, _, _, _ => fun _ hn => absurd hn List.not_mem_nil
  | .string _, _, _, _, _ => fun _ hn => absurd hn List.not_mem_nil
  | .number m, .number l, h, hw, hv => by
    intro n hn
    cases List.mem_singleton.1 hn
    exact Number.isSteady_of_beq h (hw l (List.mem_singleton_self l)) (hv m hn)
  | .array _, .array _, h, hw, hv => itemsSteady_of_sameItems h hw hv
  | .object _, .object _, h, hw, hv => membersSteady_of_sameMembers h hw hv

theorem itemsSteady_of_sameItems : {vs ws : List Value} → sameItems vs ws = true →
    (∀ n ∈ numbersOfItems ws, n.IsSteady) → (∀ n ∈ numbersOfItems vs, n.IsNormal) →
    ∀ n ∈ numbersOfItems vs, n.IsSteady
  | [], _, _, _, _ => fun _ hn => absurd hn List.not_mem_nil
  | v :: vs, w :: ws, h, hw, hv => by
    rw [sameItems, Bool.and_eq_true] at h
    intro n hn
    rcases List.mem_append.1 hn with hn | hn
    · exact isSteady_of_same h.1 (fun m hm => hw m (List.mem_append_left _ hm))
        (fun m hm => hv m (List.mem_append_left _ hm)) n hn
    · exact itemsSteady_of_sameItems h.2 (fun m hm => hw m (List.mem_append_right _ hm))
        (fun m hm => hv m (List.mem_append_right _ hm)) n hn

theorem membersSteady_of_sameMembers : {ms ns : List (String × Value)} →
    sameMembers ms ns = true → (∀ n ∈ numbersOfMembers ns, n.IsSteady) →
    (∀ n ∈ numbersOfMembers ms, n.IsNormal) → ∀ n ∈ numbersOfMembers ms, n.IsSteady
  | [], _, _, _, _ => fun _ hn => absurd hn List.not_mem_nil
  | (_, v) :: ms, (_, w) :: ns, h, hw, hv => by
    simp only [sameMembers, Bool.and_eq_true] at h
    intro n hn
    rcases List.mem_append.1 hn with hn | hn
    · exact isSteady_of_same h.1.2 (fun m hm => hw m (List.mem_append_left _ hm))
        (fun m hm => hv m (List.mem_append_left _ hm)) n hn
    · exact membersSteady_of_sameMembers h.2 (fun m hm => hw m (List.mem_append_right _ hm))
        (fun m hm => hv m (List.mem_append_right _ hm)) n hn

end

/-! ### Rewriting -/

theorem get?_readBackMembers (members : List (String × Value)) (key : String) :
    Entries.get? (readBackMembers members) key = (Entries.get? members key).map readBack := by
  induction members with
  | nil => rfl
  | cons member members ih =>
    rw [readBackMembers, Entries.get?_cons, Entries.get?_cons]
    split_ifs
    · rfl
    · exact ih

theorem member?_readBack (v : Value) (key : String) :
    v.readBack.member? key = (v.member? key).map readBack := by
  cases v with
  | object members => exact get?_readBackMembers members key
  | _ => rfl

theorem getSegments?_readBack (v : Value) (keys : List String) :
    Path.getSegments? v.readBack keys = (Path.getSegments? v keys).map readBack := by
  induction keys generalizing v with
  | nil => rfl
  | cons key keys ih =>
    rw [Path.getSegments?_cons, Path.getSegments?_cons, member?_readBack]
    cases v.member? key with
    | none => rfl
    | some child => exact ih child

/-- What may have become of a value: equal values, each of which can be read from a text, have taken
its place, and it has been written and read back. -/
inductive Rewritten (u : Value) : Value → Prop where
  | refl : Rewritten u u
  | replace {v w : Value} (h : Rewritten u v) (hs : w.same v = true) (hw : w.IsNormal) :
    Rewritten u w
  | write {v : Value} (h : Rewritten u v) : Rewritten u v.readBack

/-- What has become of a steady value is equal to it. -/
theorem Rewritten.same_of_isSteady {u v : Value} (h : Rewritten u v) (hu : u.IsSteady) :
    v.same u = true ∧ v.IsSteady := by
  induction h with
  | refl => exact ⟨same_refl u, hu⟩
  | replace _ hs hw ih =>
    obtain ⟨hsame, hsteady⟩ := ih
    exact ⟨same_trans hs hsame, isSteady_of_same hs hsteady hw⟩
  | write _ ih =>
    rw [readBack_of_isSteady _ ih.2]
    exact ih

end Value

end RecordGuard.Json
