/-!
# Sorting by a comparison

Two items may compare before each other, or tie. A list is sorted if no item stands behind one that
it comes before, and items that tie stand in the order in which they were given (`IsSorted`). The
library sorts stably, but promises an order only where the comparison is transitive on the items
(`TransitiveOn`). Otherwise the items come back in some order, or the library gives up, and with it
the program. A `Sorter` is a way of sorting that keeps this promise.

`Sorter.insertion` sorts by insertion. Where the comparison leaves a list out of order that is too
long to be sorted by insertion in the library, it gives up.
-/

namespace RecordGuard

namespace Sorting

variable {α : Type} {cmp : α → α → Ordering}

/-- Of two items with their places in a list, the one that has to stand before the other in the
sorted list: it compares before it, or they tie and it stood before it. -/
def Precedes (cmp : α → α → Ordering) (x y : α × Nat) : Prop :=
  cmp x.1 y.1 = .lt ∨ cmp x.1 y.1 = .eq ∧ x.2 < y.2

/-- The list holds the same items, none behind one that it comes before, and those that tie in the
order of their places. -/
def IsSorted (cmp : α → α → Ordering) (items sorted : List α) : Prop :=
  ∃ placed : List (α × Nat), placed.Perm items.zipIdx ∧ placed.map Prod.fst = sorted ∧
    placed.Pairwise fun x y => cmp y.1 x.1 ≠ .lt ∧ (cmp x.1 y.1 = .eq → x.2 < y.2)

/-- To compare before another item or to tie with it is transitive on the items. -/
def TransitiveOn (cmp : α → α → Ordering) (items : List α) : Prop :=
  ∀ a ∈ items, ∀ b ∈ items, ∀ c ∈ items,
    (cmp a b).isLE = true → (cmp b c).isLE = true → (cmp a c).isLE = true

/-- Among the items with their places nothing has to stand before what has to stand before it:
precedence is transitive. -/
def IsConsistent (cmp : α → α → Ordering) (placed : List (α × Nat)) : Prop :=
  ∀ x ∈ placed, ∀ y ∈ placed, ∀ z ∈ placed,
    Precedes cmp x y → Precedes cmp y z → Precedes cmp x z

section Precedence

variable [Std.OrientedCmp cmp]

theorem precedes_iff {x y : α × Nat} :
    Precedes cmp x y ↔ cmp y.1 x.1 ≠ .lt ∧ (cmp x.1 y.1 = .eq → x.2 < y.2) := by
  have hswap : cmp y.1 x.1 = (cmp x.1 y.1).swap := Std.OrientedCmp.eq_swap
  rw [Precedes, hswap]
  cases cmp x.1 y.1 <;> simp

theorem isSorted_iff {items sorted : List α} :
    IsSorted cmp items sorted ↔
      ∃ placed : List (α × Nat), placed.Perm items.zipIdx ∧
        placed.map Prod.fst = sorted ∧ placed.Pairwise (Precedes cmp) := by
  have hrelation : Precedes cmp = fun x y => cmp y.1 x.1 ≠ .lt ∧
      (cmp x.1 y.1 = .eq → x.2 < y.2) :=
    funext fun x => funext fun y => propext precedes_iff
  rw [IsSorted, hrelation]

/-- If the ends of a chain tie, so do its links. -/
theorem TransitiveOn.eq_of_eq {items : List α} (h : TransitiveOn cmp items) {a b c : α}
    (ha : a ∈ items) (hb : b ∈ items) (hc : c ∈ items)
    (hab : (cmp a b).isLE = true) (hbc : (cmp b c).isLE = true) (hac : cmp a c = .eq) :
    cmp a b = .eq ∧ cmp b c = .eq := by
  have hca : (cmp c a).isLE = true := by rw [Std.OrientedCmp.eq_comm.1 hac]; rfl
  exact ⟨Std.OrientedCmp.isLE_antisymm hab (h b hb c hc a ha hbc hca),
    Std.OrientedCmp.isLE_antisymm hbc (h c hc a ha b hb hca hab)⟩

theorem TransitiveOn.isConsistent {items : List α} (h : TransitiveOn cmp items) :
    IsConsistent cmp items.zipIdx := by
  intro x hx y hy z hz hxy hyz
  have hmem {w : α × Nat} (hw : w ∈ items.zipIdx) : w.1 ∈ items := List.fst_mem_of_mem_zipIdx hw
  have hle {v w : α × Nat} (hvw : Precedes cmp v w) : (cmp v.1 w.1).isLE = true :=
    Ordering.isLE_iff_eq_lt_or_eq_eq.2 (hvw.imp_right And.left)
  rcases Ordering.isLE_iff_eq_lt_or_eq_eq.1
      (h _ (hmem hx) _ (hmem hy) _ (hmem hz) (hle hxy) (hle hyz)) with hlt | heq
  · exact Or.inl hlt
  · obtain ⟨hxy', hyz'⟩ := h.eq_of_eq (hmem hx) (hmem hy) (hmem hz) (hle hxy) (hle hyz) heq
    have hplace {v w : α × Nat} (hvw : Precedes cmp v w) (htie : cmp v.1 w.1 = .eq) :
        v.2 < w.2 := by
      rcases hvw with hlt | ⟨-, hplace⟩
      · rw [htie] at hlt
        cases hlt
      · exact hplace
    exact Or.inr ⟨heq, Nat.lt_trans (hplace hxy hxy') (hplace hyz hyz')⟩

end Precedence

/-! ### Insertion -/

/-- Puts an item behind the items it does not come before. The items already sorted stand in
reverse order. -/
def insertLast (cmp : α → α → Ordering) (item : α) : List α → List α
  | [] => [item]
  | last :: before =>
    if cmp item last = .lt then last :: insertLast cmp item before else item :: last :: before

/-- The items, inserted one after the other. -/
def byInsertion (cmp : α → α → Ordering) (items : List α) : List α :=
  (items.foldl (fun sorted item => insertLast cmp item sorted) []).reverse

/-- Whether no item stands behind one that it comes before. -/
def isOrdered (cmp : α → α → Ordering) : List α → Bool
  | [] => true
  | first :: rest => (rest.all fun item => cmp item first != .lt) && isOrdered cmp rest

theorem isOrdered_iff {items : List α} :
    isOrdered cmp items = true ↔ items.Pairwise fun x y => cmp y x ≠ .lt := by
  induction items with
  | nil => simp [isOrdered]
  | cons first rest ih =>
    rw [isOrdered, Bool.and_eq_true, ih, List.pairwise_cons, List.all_eq_true]
    simp only [bne_iff_ne]

theorem IsSorted.isOrdered {items sorted : List α} (h : IsSorted cmp items sorted) :
    isOrdered cmp sorted = true := by
  obtain ⟨placed, -, rfl, hpairwise⟩ := h
  exact isOrdered_iff.2 (List.pairwise_map.2 (hpairwise.imp And.left))

theorem perm_insertLast (item : α) (sorted : List α) :
    (insertLast cmp item sorted).Perm (item :: sorted) := by
  induction sorted with
  | nil => exact List.Perm.refl _
  | cons last before ih =>
    rw [insertLast]
    split
    · exact (ih.cons last).trans (List.Perm.swap item last before)
    · exact List.Perm.refl _

theorem perm_foldl_insertLast (items sorted : List α) :
    (items.foldl (fun sorted item => insertLast cmp item sorted) sorted).Perm
      (items ++ sorted) := by
  induction items generalizing sorted with
  | nil => exact List.Perm.refl _
  | cons item items ih =>
    have hinsert : (items ++ insertLast cmp item sorted).Perm (items ++ item :: sorted) :=
      (perm_insertLast item sorted).append_left items
    exact (ih _).trans (hinsert.trans List.perm_middle)

/-- Insertion rearranges the items. -/
theorem perm_byInsertion (items : List α) : (byInsertion cmp items).Perm items := by
  have hfold : (items.foldl (fun sorted item => insertLast cmp item sorted) []).Perm
      (items ++ []) := perm_foldl_insertLast items []
  rw [List.append_nil] at hfold
  exact (List.reverse_perm _).trans hfold

section Stacks

variable {all placed : List (α × Nat)} {k : Nat} {item : α}

/-- The items before place `k` when they have been inserted, in reverse order. -/
structure IsStacked (cmp : α → α → Ordering) (all : List (α × Nat)) (k : Nat)
    (placed : List (α × Nat)) : Prop where
  mem : ∀ y ∈ placed, y ∈ all
  lt : ∀ y ∈ placed, y.2 < k
  pairwise : placed.Pairwise fun y z => Precedes cmp z y

theorem isStacked_nil : IsStacked cmp all k [] :=
  ⟨List.forall_mem_nil _, List.forall_mem_nil _, .nil⟩

theorem isStacked_cons_iff {y : α × Nat} :
    IsStacked cmp all k (y :: placed) ↔
      y ∈ all ∧ y.2 < k ∧ (∀ z ∈ placed, Precedes cmp z y) ∧ IsStacked cmp all k placed := by
  constructor
  · rintro ⟨hmem, hlt, hpairwise⟩
    obtain ⟨hy, hmem⟩ := List.forall_mem_cons.1 hmem
    obtain ⟨hyk, hlt⟩ := List.forall_mem_cons.1 hlt
    obtain ⟨hprecedes, hpairwise⟩ := List.pairwise_cons.1 hpairwise
    exact ⟨hy, hyk, hprecedes, hmem, hlt, hpairwise⟩
  · rintro ⟨hy, hyk, hprecedes, hmem, hlt, hpairwise⟩
    exact ⟨List.forall_mem_cons.2 ⟨hy, hmem⟩, List.forall_mem_cons.2 ⟨hyk, hlt⟩,
      List.pairwise_cons.2 ⟨hprecedes, hpairwise⟩⟩

theorem IsStacked.succ (h : IsStacked cmp all k placed) : IsStacked cmp all (k + 1) placed :=
  ⟨h.mem, fun y hy => Nat.lt_succ_of_lt (h.lt y hy), h.pairwise⟩

variable [Std.OrientedCmp cmp]

/-- The next item is put where it belongs. -/
theorem exists_insertLast (hall : IsConsistent cmp all) (hitem : (item, k) ∈ all)
    (h : IsStacked cmp all k placed) :
    ∃ placed' : List (α × Nat), placed'.Perm ((item, k) :: placed) ∧
      placed'.map Prod.fst = insertLast cmp item (placed.map Prod.fst) ∧
      IsStacked cmp all (k + 1) placed' := by
  induction placed with
  | nil =>
    refine ⟨[(item, k)], .refl _, rfl, isStacked_cons_iff.2 ?_⟩
    exact ⟨hitem, Nat.lt_succ_self k, List.forall_mem_nil _, isStacked_nil⟩
  | cons last before ih =>
    obtain ⟨hlast, hlt, hprecedes, hbefore⟩ := isStacked_cons_iff.1 h
    rw [List.map_cons, insertLast]
    split
    case isTrue hcompare =>
      obtain ⟨placed', hperm, hmap, hstacked⟩ := ih hbefore
      refine ⟨last :: placed', (hperm.cons last).trans (.swap _ _ _), ?_, isStacked_cons_iff.2
        ⟨hlast, Nat.lt_succ_of_lt hlt, fun y hy => ?_, hstacked⟩⟩
      · rw [List.map_cons, hmap]
      · rcases List.mem_cons.1 (hperm.mem_iff.1 hy) with rfl | hy
        · exact Or.inl hcompare
        · exact hprecedes y hy
    case isFalse hcompare =>
      have hlastfirst : Precedes cmp last (item, k) := precedes_iff.2 ⟨hcompare, fun _ => hlt⟩
      refine ⟨(item, k) :: last :: before, .refl _, rfl, isStacked_cons_iff.2
        ⟨hitem, Nat.lt_succ_self k, List.forall_mem_cons.2 ⟨hlastfirst, fun y hy => ?_⟩, h.succ⟩⟩
      exact hall y (hbefore.mem y hy) last hlast _ hitem (hprecedes y hy) hlastfirst

theorem exists_foldl_insertLast (hall : IsConsistent cmp all) (items : List α)
    (hitems : ∀ x ∈ items.zipIdx k, x ∈ all) (h : IsStacked cmp all k placed) :
    ∃ placed' : List (α × Nat), placed'.Perm (items.zipIdx k ++ placed) ∧
      placed'.map Prod.fst = items.foldl (fun sorted item => insertLast cmp item sorted)
        (placed.map Prod.fst) ∧
      IsStacked cmp all (k + items.length) placed' := by
  induction items generalizing k placed with
  | nil => exact ⟨placed, .refl _, rfl, h⟩
  | cons item items ih =>
    rw [List.zipIdx_cons] at hitems ⊢
    obtain ⟨hitem, hitems⟩ := List.forall_mem_cons.1 hitems
    obtain ⟨inserted, hperm, hmap, hinserted⟩ := exists_insertLast hall hitem h
    obtain ⟨placed', hperm', hmap', hstacked⟩ := ih hitems hinserted
    refine ⟨placed', hperm'.trans ?_, ?_, ?_⟩
    · exact (hperm.append_left _).trans List.perm_middle
    · rw [hmap', hmap]
      rfl
    · rwa [List.length_cons, ← Nat.add_assoc, Nat.add_right_comm]

end Stacks

/-- Insertion sorts where precedence is transitive. -/
theorem isSorted_byInsertion [Std.OrientedCmp cmp] {items : List α}
    (h : IsConsistent cmp items.zipIdx) : IsSorted cmp items (byInsertion cmp items) := by
  obtain ⟨placed, hperm, hmap, hstacked⟩ :=
    exists_foldl_insertLast h items (fun _ => id) isStacked_nil
  rw [List.append_nil] at hperm
  refine isSorted_iff.2 ⟨placed.reverse, (List.reverse_perm _).trans hperm, ?_,
    List.pairwise_reverse.2 hstacked.pairwise⟩
  rw [List.map_reverse, hmap]
  rfl

end Sorting

/-- A way of sorting lists by a comparison. -/
structure Sorter (α : Type) where
  /-- The sorted list; none if the sorter gives up. -/
  sort : (α → α → Ordering) → List α → Option (List α)
  perm : ∀ {cmp items sorted}, sort cmp items = some sorted → sorted.Perm items
  isSorted : ∀ {cmp items}, Std.OrientedCmp cmp → Sorting.TransitiveOn cmp items →
    ∃ sorted, sort cmp items = some sorted ∧ Sorting.IsSorted cmp items sorted

namespace Sorter

/-- The length up to which the library sorts by insertion. -/
def shortLength : Nat := 20

/-- Sorting by insertion, given up for long lists that it leaves out of order. -/
def insertion {α : Type} : Sorter α where
  sort cmp items :=
    let sorted := Sorting.byInsertion cmp items
    if items.length ≤ shortLength ∨ Sorting.isOrdered cmp sorted = true then some sorted else none
  perm := by
    intro cmp items sorted h
    dsimp only at h
    split at h
    · cases h
      exact Sorting.perm_byInsertion items
    · cases h
  isSorted := by
    intro cmp items _ h
    have hsorted := Sorting.isSorted_byInsertion h.isConsistent
    exact ⟨_, if_pos (Or.inr hsorted.isOrdered), hsorted⟩

end Sorter

end RecordGuard
