import RecordGuard.Order
import RecordGuard.Proofs.NumberOrder

/-!
# Sorted documents

A sorted list of documents should have no document behind one that it comes before, and documents
that tie under every key in the order in which they were given. Both are conditions on two
documents at a time, and together they say of any two which one has to stand first. No list meets
them if three documents go round in a circle, which they can: values without an order tie with
everything, so that a null between two numbers ties with both.

A sorter promises a sorted list where the comparison is transitive on the documents, and nothing
elsewhere. `SortKey.sorts_iff_transitiveOn` says that all sorters sort exactly there, for which
lists there is a sorted one at all, and that the comparison is transitive if the values under each
key are of one kind.
-/

namespace RecordGuard

open Json (Value Number)

namespace Sorting

variable {α : Type} {cmp : α → α → Ordering}

/-- Items that all tie are sorted as they stand. -/
theorem isSorted_of_forall_eq (items : List α) (h : ∀ a b, cmp a b = .eq) :
    IsSorted cmp items items := by
  refine ⟨items.zipIdx, .refl _, List.zipIdx_map_fst 0 items, ?_⟩
  have hplaces : (items.zipIdx.map Prod.snd).Pairwise (· < ·) := by
    rw [List.zipIdx_map_snd]
    exact List.pairwise_lt_range'
  exact (List.pairwise_map.1 hplaces).imp fun hlt => ⟨by simp [h], fun _ => hlt⟩

section Precedence

variable [Std.OrientedCmp cmp]

theorem Precedes.asymm {x y : α × Nat} (hxy : Precedes cmp x y) : ¬Precedes cmp y x := by
  have hswap : cmp y.1 x.1 = (cmp x.1 y.1).swap := Std.OrientedCmp.eq_swap
  unfold Precedes at *
  rw [hswap]
  rcases hxy with hlt | ⟨heq, hplace⟩
  · simp [hlt]
  · simp only [heq, Ordering.swap_eq, reduceCtorEq, true_and, false_or]
    omega

/-- If every item of a list precedes those behind it, precedence is transitive. -/
theorem isConsistent_of_pairwise {placed : List (α × Nat)}
    (h : placed.Pairwise (Precedes cmp)) : IsConsistent cmp placed := by
  induction placed with
  | nil => exact List.forall_mem_nil _
  | cons first rest ih =>
    obtain ⟨hfirst, hrest⟩ := List.pairwise_cons.1 h
    intro x hx y hy z hz hxy hyz
    -- nothing precedes the first item
    have hnone {w : α × Nat} (hw : w ∈ first :: rest) : ¬Precedes cmp w first := by
      rcases List.mem_cons.1 hw with rfl | hw
      · exact fun hself => hself.asymm hself
      · exact (hfirst w hw).asymm
    have hmem {w : α × Nat} (hw : w ∈ first :: rest) (hne : w ≠ first) : w ∈ rest :=
      (List.mem_cons.1 hw).resolve_left hne
    have hy' : y ∈ rest := hmem hy (by rintro rfl; exact hnone hx hxy)
    have hz' : z ∈ rest := hmem hz (by rintro rfl; exact hnone hy hyz)
    by_cases hxf : x = first
    · rw [hxf]
      exact hfirst z hz'
    · exact ih hrest x (hmem hx hxf) y hy' z hz' hxy hyz

/-- There is a sorted list exactly if precedence is transitive. -/
theorem exists_isSorted_iff {items : List α} :
    (∃ sorted, IsSorted cmp items sorted) ↔ IsConsistent cmp items.zipIdx := by
  constructor
  · rintro ⟨sorted, h⟩
    obtain ⟨placed, hperm, -, hpairwise⟩ := isSorted_iff.1 h
    have hplaced := isConsistent_of_pairwise hpairwise
    simpa only [IsConsistent, hperm.mem_iff] using hplaced
  · exact fun h => ⟨_, isSorted_byInsertion h⟩

/-- There is at most one sorted list. -/
theorem IsSorted.eq {items sorted sorted' : List α} (h : IsSorted cmp items sorted)
    (h' : IsSorted cmp items sorted') : sorted = sorted' := by
  obtain ⟨placed, hperm, rfl, hpairwise⟩ := isSorted_iff.1 h
  obtain ⟨placed', hperm', rfl, hpairwise'⟩ := isSorted_iff.1 h'
  rw [List.Perm.eq_of_pairwise (fun x y _ _ hxy hyx => (hxy.asymm hyx).elim) hpairwise hpairwise'
    (hperm.trans hperm'.symm)]

end Precedence

end Sorting

open Classical in
/-- Sorting that is given up wherever nothing is promised. -/
noncomputable def Sorter.strict {α : Type} : Sorter α where
  sort cmp items :=
    if Sorting.TransitiveOn cmp items then some (Sorting.byInsertion cmp items) else none
  perm := by
    intro cmp items sorted h
    split_ifs at h
    cases h
    exact Sorting.perm_byInsertion items
  isSorted := by
    intro cmp items _ h
    exact ⟨_, if_pos h, Sorting.isSorted_byInsertion h.isConsistent⟩

open Sorting (IsSorted IsConsistent TransitiveOn Precedes)

/-! ### Comparing both ways -/

theorem Json.Value.order?_swap (a b : Value) : a.order? b = (b.order? a).map Ordering.swap := by
  cases a <;> cases b <;> simp only [Value.order?, Option.map_none, Option.map_some]
  · exact congrArg some Std.OrientedOrd.eq_swap
  · exact congrArg some (Number.compare_swap _ _)
  · exact congrArg some Std.OrientedOrd.eq_swap

namespace SortKey

theorem compareFound_swap (a b : Option Value) : compareFound a b = (compareFound b a).swap := by
  cases a <;> cases b <;> simp only [compareFound, Ordering.swap_lt, Ordering.swap_gt,
    Ordering.swap_eq]
  rename_i a b
  rw [a.order?_swap b]
  cases b.order? a <;> rfl

theorem compare_swap (key : SortKey) (a b : Value) :
    key.compare a b = (key.compare b a).swap := by
  unfold SortKey.compare
  rw [compareFound_swap]
  cases key.direction <;> rfl

instance (key : SortKey) : Std.OrientedCmp key.compare := ⟨compare_swap key _ _⟩

theorem compareAll_swap (keys : List SortKey) (a b : Value) :
    compareAll keys a b = (compareAll keys b a).swap := by
  induction keys with
  | nil => rfl
  | cons key keys ih => rw [compareAll, compareAll, Ordering.swap_then, ← ih, ← compare_swap]

instance (keys : List SortKey) : Std.OrientedCmp (compareAll keys) := ⟨compareAll_swap keys _ _⟩

/-! ### Values of one kind -/

variable {keys : List SortKey}

theorem transitiveOn_compareAll {documents : List Value}
    (h : ∀ key ∈ keys, TransitiveOn key.compare documents) :
    TransitiveOn (compareAll keys) documents := by
  induction keys with
  | nil => exact fun _ _ _ _ _ _ _ _ => rfl
  | cons key keys ih =>
    obtain ⟨hkey, hkeys⟩ := List.forall_mem_cons.1 h
    intro a ha b hb c hc hab hbc
    rw [compareAll, Ordering.isLE_then_iff_or] at *
    have hle {o : Ordering} {p : Prop} (h : o = .lt ∨ o = .eq ∧ p) : o.isLE = true :=
      Ordering.isLE_iff_eq_lt_or_eq_eq.2 (h.imp_right And.left)
    rcases Ordering.isLE_iff_eq_lt_or_eq_eq.1 (hkey a ha b hb c hc (hle hab) (hle hbc)) with
      hlt | heq
    · exact Or.inl hlt
    · -- the first key does not tell them apart
      obtain ⟨hab', hbc'⟩ := hkey.eq_of_eq ha hb hc (hle hab) (hle hbc) heq
      rw [hab'] at hab
      rw [hbc'] at hbc
      exact Or.inr ⟨heq, ih hkeys a ha b hb c hc (by simpa using hab) (by simpa using hbc)⟩

/-- Kinds of values that are ordered among themselves. -/
inductive Kind where
  | text
  | flag
  /-- Integers that fit a signed word. -/
  | word
  /-- Numbers that are doubles, among them the integers of up to 53 bits. -/
  | exact
  /-- Nulls, arrays and objects, which all tie. -/
  | unordered

/-- The values of a kind. -/
def Kind.Has : Kind → Value → Prop
  | .text, v => ∃ s, v = .string s
  | .flag, v => ∃ b, v = .bool b
  | .word, v => ∃ n m, v = .number n ∧ n.toInt64? = some m
  | .exact, v => ∃ n, v = .number n ∧ n.IsExact
  | .unordered, v => v.isNull = true ∨ v.isContainer = true

/-- The values that documents have under the key, as far as they have any, are of one kind. -/
def IsUniform (key : SortKey) (documents : List Value) : Prop :=
  ∃ kind : Kind, ∀ document ∈ documents, ∀ v,
    Path.get? document key.field = some v → kind.Has v

/-- Values that are compared by their ranks in a linear order are compared transitively. -/
theorem transitiveOn_of_rank {key : SortKey} {documents : List Value} {β : Type} [Ord β]
    [Std.TransOrd β] (rank : Value → β)
    (h : ∀ a ∈ documents, ∀ b ∈ documents, ∀ v w, Path.get? a key.field = some v →
      Path.get? b key.field = some w → (v.order? w).getD .eq = compare (rank v) (rank w)) :
    TransitiveOn key.compare documents := by
  have hfound : ∀ a ∈ documents, ∀ b ∈ documents,
      compareFound (Path.get? a key.field) (Path.get? b key.field) =
        compare ((Path.get? a key.field).map rank) ((Path.get? b key.field).map rank) := by
    intro a ha b hb
    cases hv : Path.get? a key.field <;> cases hw : Path.get? b key.field
    · rfl
    · rfl
    · rfl
    · exact h a ha b hb _ _ hv hw
  intro a ha b hb c hc
  unfold SortKey.compare
  simp only [hfound a ha b hb, hfound b hb c hc, hfound a ha c hc]
  cases key.direction with
  | ascending => exact Std.TransOrd.isLE_trans
  | descending =>
    have hswap (x y : Option β) : (compare x y).swap = compare y x := Std.OrientedOrd.eq_swap.symm
    simp only [hswap]
    exact fun hab hbc => Std.TransOrd.isLE_trans hbc hab

/-- The characters of a text. -/
def textOf : Value → String
  | .string s => s
  | _ => ""

/-- The truth of a flag. -/
def flagOf : Value → Bool
  | .bool b => b
  | _ => false

/-- What a number denotes. -/
def numberOf : Value → ℚ
  | .number n => n.toRat
  | _ => 0

theorem transitiveOn_of_isUniform {key : SortKey} {documents : List Value}
    (h : IsUniform key documents) : TransitiveOn key.compare documents := by
  obtain ⟨kind, hkind⟩ := h
  cases kind with
  | text =>
    refine transitiveOn_of_rank textOf fun a ha b hb v w hv hw => ?_
    obtain ⟨s, rfl⟩ := hkind a ha v hv
    obtain ⟨t, rfl⟩ := hkind b hb w hw
    rfl
  | flag =>
    refine transitiveOn_of_rank flagOf fun a ha b hb v w hv hw => ?_
    obtain ⟨s, rfl⟩ := hkind a ha v hv
    obtain ⟨t, rfl⟩ := hkind b hb w hw
    rfl
  | word =>
    refine transitiveOn_of_rank numberOf fun a ha b hb v w hv hw => ?_
    obtain ⟨m, _, rfl, hm⟩ := hkind a ha v hv
    obtain ⟨n, _, rfl, hn⟩ := hkind b hb w hw
    exact Number.compare_of_toInt64? hm hn
  | exact =>
    refine transitiveOn_of_rank numberOf fun a ha b hb v w hv hw => ?_
    obtain ⟨m, rfl, hm⟩ := hkind a ha v hv
    obtain ⟨n, rfl, hn⟩ := hkind b hb w hw
    exact Number.compare_of_isExact hm hn
  | unordered =>
    refine transitiveOn_of_rank (fun _ => 0) fun a ha b hb v w hv hw => ?_
    have hv := hkind a ha v hv
    cases v <;>
      first
      | rfl
      | simp [Kind.Has, Value.isNull, Value.isContainer, Value.isArray, Value.isObject] at hv

/-- Where the comparison is transitive on the documents, every sorter sorts them. -/
theorem exists_sort_of_transitiveOn (sorter : Sorter Value) {documents : List Value}
    (h : TransitiveOn (compareAll keys) documents) :
    ∃ sorted, sort sorter keys documents = some sorted ∧
      IsSorted (compareAll keys) documents sorted := by
  cases keys with
  | nil => exact ⟨documents, rfl, Sorting.isSorted_of_forall_eq documents fun _ _ => rfl⟩
  | cons key keys => exact sorter.isSorted inferInstance h

/-- The strict sorter gives nothing else back. -/
theorem transitiveOn_of_sort_strict {documents sorted : List Value}
    (h : sort .strict keys documents = some sorted) :
    TransitiveOn (compareAll keys) documents := by
  cases keys with
  | nil => exact transitiveOn_compareAll (List.forall_mem_nil _)
  | cons key keys =>
    by_contra hnot
    cases (if_neg hnot).symm.trans h

/-- A sorter that returns a list has rearranged the documents. All sorters sort the documents exactly
if the comparison is transitive on them, which it is if the values under each key are of one kind.
There is a sorted list exactly if precedence is transitive, and then only one. -/
theorem sorts_iff_transitiveOn (keys : List SortKey) (documents : List Value) :
    (∀ sorter sorted, sort sorter keys documents = some sorted → sorted.Perm documents) ∧
      ((∀ sorter, ∃ sorted, sort sorter keys documents = some sorted ∧
          IsSorted (compareAll keys) documents sorted) ↔
        TransitiveOn (compareAll keys) documents) ∧
      ((∀ key ∈ keys, IsUniform key documents) → TransitiveOn (compareAll keys) documents) ∧
      ((∃ sorted, IsSorted (compareAll keys) documents sorted) ↔
        IsConsistent (compareAll keys) documents.zipIdx) ∧
      ∀ sorted sorted', IsSorted (compareAll keys) documents sorted →
        IsSorted (compareAll keys) documents sorted' → sorted = sorted' := by
  refine ⟨fun _ _ => perm_sort, ⟨fun h => ?_, fun h sorter => exists_sort_of_transitiveOn sorter h⟩,
    fun h => transitiveOn_compareAll fun key hkey => transitiveOn_of_isUniform (h key hkey),
    Sorting.exists_isSorted_iff, fun _ _ => IsSorted.eq⟩
  obtain ⟨sorted, hsorted, -⟩ := h .strict
  exact transitiveOn_of_sort_strict hsorted

/-- Documents that are few enough are left sorted by insertion if there is a sorted list. -/
theorem exists_sort_insertion (keys : List SortKey) {documents : List Value}
    (h : documents.length ≤ Sorter.shortLength) :
    ∃ sorted, sort .insertion keys documents = some sorted ∧
      (IsSorted (compareAll keys) documents sorted ↔
        IsConsistent (compareAll keys) documents.zipIdx) := by
  cases keys with
  | nil =>
    have hsorted : IsSorted (compareAll []) documents documents :=
      Sorting.isSorted_of_forall_eq documents fun _ _ => rfl
    exact ⟨documents, rfl, fun _ => Sorting.exists_isSorted_iff.1 ⟨_, hsorted⟩, fun _ => hsorted⟩
  | cons key keys =>
    exact ⟨_, if_pos (Or.inl h), fun hsorted => Sorting.exists_isSorted_iff.1 ⟨_, hsorted⟩,
      Sorting.isSorted_byInsertion⟩

/-- A null between two numbers keeps the larger one in front, and in no other order would the three
be sorted. -/
theorem larger_stays_in_front :
    let number (n : Int) := Value.object [("n", .integer n)]
    let documents := [number 2, .object [("n", .null)], number 1]
    let keys : List SortKey := [⟨"n", .ascending⟩]
    sort .insertion keys documents = some documents ∧
      compareAll keys (number 1) (number 2) = .lt ∧
      ∀ sorter sorted, sort sorter keys documents = some sorted →
        ¬IsSorted (compareAll keys) documents sorted := by
  intro number documents keys
  have hlt : compareAll keys (number 1) (number 2) = .lt := by decide +kernel
  refine ⟨rfl, hlt, fun sorter sorted _ h => ?_⟩
  have hconsistent := Sorting.exists_isSorted_iff.1 ⟨sorted, h⟩
  have hfirst : Precedes (compareAll keys) (number 2, 0) (.object [("n", .null)], 1) :=
    Or.inr ⟨by decide +kernel, by decide⟩
  have hsecond : Precedes (compareAll keys) (.object [("n", .null)], 1) (number 1, 2) :=
    Or.inr ⟨by decide +kernel, by decide⟩
  have hlast : Precedes (compareAll keys) (number 1, 2) (number 2, 0) := Or.inl hlt
  exact hlast.asymm (hconsistent _ (by simp [documents]) _ (by simp [documents]) _
    (by simp [documents]) hfirst hsecond)

end SortKey

end RecordGuard
