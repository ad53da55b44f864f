import Mathlib.Tactic.Positivity
import Mathlib.Tactic.Ring
import RecordGuard.Proofs.Lookup
import RecordGuard.Proofs.Segments

/-!
# Equal values

Equality of values is reflexive, symmetric and transitive (`same_refl`, `same_symm`, `same_trans`),
and equal values hold equal values at every path (`agree_getSegments?`). `agree` is the equality of
what may be missing.
-/

namespace RecordGuard.Json

namespace Double

@[simp] theorem compare_self (d : Double) : d.compare d = .eq := by
  rw [Double.compare]
  exact Std.ReflCmp.compare_self

theorem scaled_eq (d : Double) {e f : Int} (hef : f ≤ e) (he : e ≤ d.exponent) :
    d.scaled f = d.scaled e * 2 ^ (e - f).toNat := by
  have hexp : (d.exponent - f).toNat = (d.exponent - e).toNat + (e - f).toNat := by omega
  unfold scaled
  rw [hexp, show Nat.pow 2 ((d.exponent - e).toNat + (e - f).toNat) =
    Nat.pow 2 (d.exponent - e).toNat * 2 ^ (e - f).toNat from Nat.pow_add 2 _ _]
  split_ifs
  · push_cast
    ring
  · push_cast
    ring

/-- Doubles are equal if their magnitudes over any common power of two are. -/
theorem compare_eq_iff {a b : Double} {e : Int} (ha : e ≤ a.exponent) (hb : e ≤ b.exponent) :
    a.compare b = .eq ↔ a.scaled e = b.scaled e := by
  have hmin : e ≤ min a.exponent b.exponent := le_min ha hb
  rw [Double.compare, compare_eq_iff_eq, a.scaled_eq hmin (min_le_left _ _),
    b.scaled_eq hmin (min_le_right _ _)]
  have hpos : (2 : Int) ^ (min a.exponent b.exponent - e).toNat ≠ 0 := by positivity
  exact (mul_left_inj' hpos).symm

theorem compare_symm {a b : Double} (h : a.compare b = .eq) : b.compare a = .eq := by
  have hscaled := (compare_eq_iff (min_le_left a.exponent b.exponent) (min_le_right _ _)).1 h
  exact (compare_eq_iff (min_le_right _ _) (min_le_left _ _)).2 hscaled.symm

theorem compare_trans {a b d : Double} (hab : a.compare b = .eq) (hbd : b.compare d = .eq) :
    a.compare d = .eq := by
  -- all three are compared over the smallest of their powers of two
  have ha : min a.exponent (min b.exponent d.exponent) ≤ a.exponent := min_le_left _ _
  have hb : min a.exponent (min b.exponent d.exponent) ≤ b.exponent :=
    (min_le_right _ _).trans (min_le_left _ _)
  have hd : min a.exponent (min b.exponent d.exponent) ≤ d.exponent :=
    (min_le_right _ _).trans (min_le_right _ _)
  rw [compare_eq_iff ha hb] at hab
  rw [compare_eq_iff hb hd] at hbd
  rw [compare_eq_iff ha hd, hab, hbd]

end Double

@[simp] theorem Number.beq_self (n : Number) : n.beq n = true := by
  cases n with
  | integer n => exact beq_self_eq_true n
  | double d => rw [Number.beq, Double.compare_self]; rfl

theorem Number.beq_trans {l m n : Number} (hlm : l.beq m = true) (hmn : m.beq n = true) :
    l.beq n = true := by
  cases l <;> cases m <;> cases n <;> simp only [Number.beq, beq_iff_eq, Bool.false_eq_true] at *
  · exact hlm.trans hmn
  · exact Double.compare_trans hlm hmn

theorem Number.beq_symm {m n : Number} (h : m.beq n = true) : n.beq m = true := by
  cases m <;> cases n <;> simp only [Number.beq, beq_iff_eq, Bool.false_eq_true] at *
  · exact h.symm
  · exact Double.compare_symm h

namespace Value

mutual

theorem same_refl : (v : Value) → v.same v = true
  | .null => rfl
  | .bool b => beq_self_eq_true b
  | .number n => n.beq_self
  | .string s => beq_self_eq_true s
  | .array items => sameItems_refl items
  | .object members => sameMembers_refl members

theorem sameItems_refl : (vs : List Value) → sameItems vs vs = true
  | [] => rfl
  | v :: vs => by rw [sameItems, same_refl v, sameItems_refl vs]; rfl

theorem sameMembers_refl : (ms : List (String × Value)) → sameMembers ms ms = true
  | [] => rfl
  | (k, v) :: ms => by rw [sameMembers, same_refl v, sameMembers_refl ms, beq_self_eq_true k]; rfl

end

mutual

theorem same_symm : {v w : Value} → v.same w = true → w.same v = true
  | .null, .null, _ => rfl
  | .bool _, .bool _, h => by
    rw [same, beq_iff_eq] at *
    exact h.symm
  | .number _, .number _, h => Number.beq_symm h
  | .string _, .string _, h => by
    rw [same, beq_iff_eq] at *
    exact h.symm
  | .array _, .array _, h => sameItems_symm h
  | .object _, .object _, h => sameMembers_symm h

theorem sameItems_symm : {vs ws : List Value} → sameItems vs ws = true → sameItems ws vs = true
  | [], [], _ => rfl
  | _ :: _, _ :: _, h => by
    rw [sameItems, Bool.and_eq_true] at *
    exact ⟨same_symm h.1, sameItems_symm h.2⟩

theorem sameMembers_symm : {ms ns : List (String × Value)} → sameMembers ms ns = true →
    sameMembers ns ms = true
  | [], [], _ => rfl
  | (_, _) :: _, (_, _) :: _, h => by
    simp only [sameMembers, Bool.and_eq_true, beq_iff_eq] at *
    exact ⟨⟨h.1.1.symm, same_symm h.1.2⟩, sameMembers_symm h.2⟩

end

mutual

theorem same_trans : {u v w : Value} → u.same v = true → v.same w = true → u.same w = true
  | .null, .null, .null, _, _ => rfl
  | .bool _, .bool _, .bool _, huv, hvw => by
    rw [same, beq_iff_eq] at *
    exact huv.trans hvw
  | .number _, .number _, .number _, huv, hvw => Number.beq_trans huv hvw
  | .string _, .string _, .string _, huv, hvw => by
    rw [same, beq_iff_eq] at *
    exact huv.trans hvw
  | .array _, .array _, .array _, huv, hvw => sameItems_trans huv hvw
  | .object _, .object _, .object _, huv, hvw => sameMembers_trans huv hvw

theorem sameItems_trans : {us vs ws : List Value} → sameItems us vs = true →
    sameItems vs ws = true → sameItems us ws = true
  | [], [], [], _, _ => rfl
  | u :: us, v :: vs, w :: ws, huv, hvw => by
    rw [sameItems, Bool.and_eq_true] at *
    exact ⟨same_trans huv.1 hvw.1, sameItems_trans huv.2 hvw.2⟩

theorem sameMembers_trans : {ls ms ns : List (String × Value)} → sameMembers ls ms = true →
    sameMembers ms ns = true → sameMembers ls ns = true
  | [], [], [], _, _ => rfl
  | (j, u) :: ls, (k, v) :: ms, (l, w) :: ns, hlm, hmn => by
    simp only [sameMembers, Bool.and_eq_true, beq_iff_eq] at *
    exact ⟨⟨hlm.1.1.trans hmn.1.1, same_trans hlm.1.2 hmn.1.2⟩, sameMembers_trans hlm.2 hmn.2⟩

end

/-- Both values are missing, or both are there and equal. -/
def agree : Option Value → Option Value → Bool
  | none, none => true
  | some v, some w => v.same w
  | _, _ => false

@[simp] theorem agree_refl (found : Option Value) : agree found found = true := by
  cases found with
  | none => rfl
  | some v => exact same_refl v

theorem agree_some_left {found : Option Value} {v : Value} (h : agree (some v) found = true) :
    ∃ w, found = some w ∧ v.same w = true := by
  cases found with
  | none => cases h
  | some w => exact ⟨w, rfl, h⟩

theorem agree_some_right {found : Option Value} {w : Value} (h : agree found (some w) = true) :
    ∃ v, found = some v ∧ v.same w = true := by
  cases found with
  | none => cases h
  | some v => exact ⟨v, rfl, h⟩

/-- What equal values are taken to agrees if both are taken to what agrees. -/
theorem agree_bind {found other : Option Value} (h : agree found other = true)
    {f g : Value → Option Value}
    (hfg : ∀ v w, v.same w = true → agree (f v) (g w) = true) :
    agree (found.bind f) (other.bind g) = true := by
  cases found with
  | none =>
    cases other with
    | none => rfl
    | some w => cases h
  | some v =>
    obtain ⟨w, rfl, hsame⟩ := agree_some_left h
    exact hfg v w hsame

theorem agree_get?_of_sameMembers {ms ns : List (String × Value)} (h : sameMembers ms ns = true)
    (key : String) : agree (Entries.get? ms key) (Entries.get? ns key) = true := by
  induction ms generalizing ns with
  | nil =>
    cases ns with
    | nil => rfl
    | cons n ns => cases h
  | cons m ms ih =>
    cases ns with
    | nil => cases h
    | cons n ns =>
      obtain ⟨k, v⟩ := m
      obtain ⟨l, w⟩ := n
      simp only [sameMembers, Bool.and_eq_true, beq_iff_eq] at h
      obtain ⟨⟨rfl, hv⟩, hms⟩ := h
      by_cases hk : k = key
      · simpa [Entries.get?, hk, agree] using hv
      · simpa [Entries.get?, hk] using ih hms

theorem agree_member? {v w : Value} (h : v.same w = true) (key : String) :
    agree (v.member? key) (w.member? key) = true := by
  cases v <;> cases w <;> first | rfl | exact agree_get?_of_sameMembers h key | cases h

/-- Equal values hold equal values at the end of every list of keys. -/
theorem agree_getSegments? {v w : Value} (h : v.same w = true) (keys : List String) :
    agree (Path.getSegments? v keys) (Path.getSegments? w keys) = true := by
  induction keys generalizing v w with
  | nil => exact h
  | cons key keys ih =>
    rw [Path.getSegments?_cons, Path.getSegments?_cons]
    exact agree_bind (agree_member? h key) fun v w hsame => ih hsame

end Value

end RecordGuard.Json
