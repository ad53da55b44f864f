import RecordGuard.Proofs.Masks
import RecordGuard.Proofs.RoleVerdicts

/-!
# Masks of several roles

The masks of a caller's roles are merged in the order of the roles, and the first entry of the
result decides how all of it is read. A later mask can change that entry, and with it what becomes
of every path that is not listed. Still the merged mask removes only what some role's mask removes,
and all that every one of them removes, as long as each of them only includes or only excludes.

Every entry of the merged mask is an entry of one of the masks (`mem_entries_mergeAll`), and it
lists every path that one of them lists (`isSome_get?_mergeAll`). So the mask that a path has its
flag from, or the one that the first entry is from if the path is not listed, removes the path
exactly if the merged mask does (`exists_removes_eq`).
-/

namespace RecordGuard

namespace Mask

/-! ### Entries of merged masks -/

theorem mem_entries_set {mask : Mask} {path : String} {included : Bool} {entry : String × Bool}
    (h : entry ∈ (mask.set path included).entries) :
    entry = (path, included) ∨ entry ∈ mask.entries := by
  obtain ⟨entries⟩ := mask
  simp only [set] at h ⊢
  induction entries with
  | nil => exact .inl (List.mem_singleton.1 h)
  | cons first rest ih =>
    rw [setEntry] at h
    split_ifs at h with hpath
    · rcases List.mem_cons.1 h with rfl | h
      · exact .inl (hpath ▸ rfl)
      · exact .inr (List.mem_cons_of_mem _ h)
    · rcases List.mem_cons.1 h with rfl | h
      · exact .inr List.mem_cons_self
      · exact (ih h).imp_right (List.mem_cons_of_mem _)

theorem mem_entries_merge {mask other : Mask} {entry : String × Bool}
    (h : entry ∈ (mask.merge other).entries) : entry ∈ mask.entries ∨ entry ∈ other.entries := by
  obtain ⟨entries⟩ := other
  simp only [merge] at h ⊢
  induction entries generalizing mask with
  | nil => exact .inl h
  | cons first rest ih =>
    rcases ih h with h | h
    · rcases mem_entries_set h with rfl | h
      · exact .inr List.mem_cons_self
      · exact .inl h
    · exact .inr (List.mem_cons_of_mem _ h)

/-- A merged mask lists the paths that one of the two lists. -/
theorem isSome_get?_merge (mask other : Mask) (path : String) :
    ((mask.merge other).get? path).isSome =
      ((mask.get? path).isSome || (other.get? path).isSome) := by
  obtain ⟨entries⟩ := other
  simp only [merge]
  induction entries generalizing mask with
  | nil => simp [get?]
  | cons first rest ih =>
    rw [List.foldl_cons, ih, get?_set]
    by_cases hpath : first.1 = path
    · simp [get?, hpath]
    · simp [get?, hpath]

/-- The masks merged in their order. -/
def mergeAll (masks : List Mask) : Mask := masks.foldl merge empty

theorem mem_entries_mergeAll {masks : List Mask} {entry : String × Bool}
    (h : entry ∈ (mergeAll masks).entries) : ∃ mask ∈ masks, entry ∈ mask.entries := by
  induction masks using List.reverseRecOn with
  | nil => cases h
  | append_singleton masks last ih =>
    rw [mergeAll, List.foldl_append] at h
    rcases mem_entries_merge h with h | h
    · obtain ⟨mask, hmask, hentry⟩ := ih h
      exact ⟨mask, List.mem_append_left _ hmask, hentry⟩
    · exact ⟨last, List.mem_append_right _ (List.mem_singleton_self last), h⟩

theorem isSome_get?_mergeAll (masks : List Mask) (path : String) :
    ((mergeAll masks).get? path).isSome = masks.any fun mask => (mask.get? path).isSome := by
  induction masks using List.reverseRecOn with
  | nil => rfl
  | append_singleton masks last ih =>
    rw [mergeAll, List.foldl_append, List.foldl_cons, List.foldl_nil, isSome_get?_merge,
      List.any_append, ← ih, mergeAll]
    simp

/-! ### Masks of one flag -/

/-- Whether all entries of a mask have one flag. -/
def IsUniform (mask : Mask) (included : Bool) : Prop :=
  ∀ entry ∈ mask.entries, entry.2 = included

/-- A path that is not listed is removed unless the mask is exclusive. -/
theorem removes_eq_elim (mask : Mask) (path : String) :
    mask.removes path = (mask.get? path).elim (!mask.isExclusive) fun included => !included := by
  rw [removes]
  cases mask.isExclusive <;> rcases mask.get? path with _ | (_ | _) <;> rfl

theorem exists_mem_entries {mask : Mask} (h : mask.isEmpty = false) :
    ∃ entry ∈ mask.entries, mask.isExclusive = !entry.2 := by
  obtain ⟨entries⟩ := mask
  cases entries with
  | nil => cases h
  | cons first rest => exact ⟨first, List.mem_cons_self, rfl⟩

theorem isSome_get?_of_mem {mask : Mask} {entry : String × Bool} (h : entry ∈ mask.entries) :
    (mask.get? entry.1).isSome = true := by
  rw [get?, Option.isSome_map, List.find?_isSome]
  exact ⟨entry, h, beq_self_eq_true entry.1⟩

namespace IsUniform

variable {mask : Mask} {included : Bool}

theorem get?_eq (h : mask.IsUniform included) {path : String}
    (hpath : (mask.get? path).isSome = true) : mask.get? path = some included := by
  obtain ⟨flag, hflag⟩ := Option.isSome_iff_exists.1 hpath
  exact hflag.trans (congrArg some (h _ (mem_entries_of_get? hflag)))

theorem isExclusive_eq (h : mask.IsUniform included) (hne : mask.isEmpty = false) :
    mask.isExclusive = !included := by
  obtain ⟨entry, hentry, hexclusive⟩ := exists_mem_entries hne
  rw [hexclusive, h entry hentry]

end IsUniform

/-! ### What merged masks remove -/

variable {masks : List Mask}

theorem isEmpty_mergeAll (hne : masks ≠ []) (hmasks : ∀ mask ∈ masks, mask.isEmpty = false) :
    (mergeAll masks).isEmpty = false := by
  obtain ⟨mask, rest, rfl⟩ := List.exists_cons_of_ne_nil hne
  obtain ⟨entry, hentry, -⟩ := exists_mem_entries (hmasks mask List.mem_cons_self)
  have hlisted : ((mergeAll (mask :: rest)).get? entry.1).isSome = true := by
    rw [isSome_get?_mergeAll, List.any_cons, isSome_get?_of_mem hentry, Bool.true_or]
  obtain ⟨flag, hflag⟩ := Option.isSome_iff_exists.1 hlisted
  exact List.isEmpty_eq_false_iff_exists_mem.2 ⟨_, mem_entries_of_get? hflag⟩

/-- The merged mask treats a path as one of the masks does: the one it has the flag of the path
from, or its first entry if the path is not listed. -/
theorem exists_removes_eq (hne : masks ≠ [])
    (hmasks : ∀ mask ∈ masks, mask.isEmpty = false ∧ ∃ included, mask.IsUniform included)
    (path : String) : ∃ mask ∈ masks, (mergeAll masks).removes path = mask.removes path := by
  rw [removes_eq_elim]
  cases hpath : (mergeAll masks).get? path with
  | some included =>
    obtain ⟨mask, hmask, hentry⟩ := mem_entries_mergeAll (mem_entries_of_get? hpath)
    obtain ⟨-, flag, hflag⟩ := hmasks mask hmask
    obtain rfl : included = flag := hflag _ hentry
    refine ⟨mask, hmask, ?_⟩
    rw [removes_eq_elim, hflag.get?_eq (isSome_get?_of_mem hentry)]
    rfl
  | none =>
    obtain ⟨first, hfirst, hexclusive⟩ :=
      exists_mem_entries (isEmpty_mergeAll hne fun mask hmask => (hmasks mask hmask).1)
    obtain ⟨mask, hmask, hentry⟩ := mem_entries_mergeAll hfirst
    obtain ⟨hnonempty, flag, hflag⟩ := hmasks mask hmask
    have hunlisted : mask.get? path = none := by
      have hany := isSome_get?_mergeAll masks path
      rw [hpath, Option.isSome_none, eq_comm, List.any_eq_false] at hany
      simpa using hany mask hmask
    refine ⟨mask, hmask, ?_⟩
    rw [removes_eq_elim, hunlisted, hflag.isExclusive_eq hnonempty, hexclusive, hflag _ hentry]

end Mask

/-! ### The mask of a caller -/

namespace Permission

theorem lastPosition_eq_zero {α : Type} {p : α → Bool} {l : List α} (h : ∀ a ∈ l, p a = false) :
    lastPosition p l = 0 := by
  have hnone : l.reverse.findIdx p = l.reverse.length :=
    List.findIdx_eq_length.2 fun a ha => h a (List.mem_reverse.1 ha)
  rw [lastPosition, hnone, List.length_reverse, Nat.sub_self]

variable {verdicts : List Verdict} {masks : List Mask}

/-- Where nothing denies, the scope of all verdicts is left. -/
theorem left_of_no_denial (hne : verdicts ≠ []) (hd : ∀ v ∈ verdicts, v.isDenial = false)
    (filters : List Filter) :
    left verdicts filters = .scoped ⟨filters, mergedMask verdicts⟩ := by
  have hlength : 0 ≠ verdicts.length := (List.length_pos_iff.2 hne).ne
  unfold left
  dsimp only
  rw [lastPosition_eq_zero hd, if_neg hlength, List.drop_zero]

theorem mergedMask_eq_mergeAll (hne : masks ≠ []) (hmasks : ∀ mask ∈ masks, mask.isEmpty = false)
    (h : verdicts.map Verdict.mask? = masks.map some) :
    mergedMask verdicts = some (Mask.mergeAll masks) := by
  have hfilter := congrArg (List.filterMap id) h
  rw [List.filterMap_map, List.filterMap_map, Function.id_comp, Function.id_comp,
    List.filterMap_some] at hfilter
  rw [mergedMask, hfilter]
  exact if_neg (Bool.eq_false_iff.1 (Mask.isEmpty_mergeAll hne hmasks))

/-- A verdict with a mask neither grants nor denies. -/
theorem scopes_of_map_mask? (h : verdicts.map Verdict.mask? = masks.map some) :
    ∀ v ∈ verdicts, v.isGrant = false ∧ v.isDenial = false := by
  intro v hv
  have hmask : v.mask? ∈ masks.map some := h ▸ List.mem_map_of_mem hv
  obtain ⟨mask, -, hmask⟩ := List.mem_map.1 hmask
  cases v with
  | scopes rule => exact ⟨rfl, rfl⟩
  | _ => cases hmask

/-- A caller all of whose roles have scopes with masks is left with the merged mask. -/
theorem projection_of_resolve {policy : Option Policy} {reserved : ReservedRoles} {action : Action}
    {identity : Identity} {permission : Permission} (hne : masks ≠ [])
    (hmasks : ∀ mask ∈ masks, mask.isEmpty = false)
    (hroles : identity.roles.map (fun role => (verdict policy reserved action role).mask?) =
      masks.map some)
    (hresolve : resolve policy reserved (some identity) action = .ok permission) :
    permission.projection = some (Mask.mergeAll masks) := by
  have h : (identity.roles.map (verdict policy reserved action)).map Verdict.mask? =
      masks.map some := by
    rw [List.map_map]
    exact hroles
  rw [resolve_eq_foldlM] at hresolve
  generalize identity.roles.map (verdict policy reserved action) = verdicts at h hresolve
  have hverdicts : verdicts ≠ [] := by
    rintro rfl
    exact hne (List.map_eq_nil_iff.1 h.symm)
  have hscopes := scopes_of_map_mask? h
  have hfold := foldlM_of_no_grant identity verdicts fun v hv => (hscopes v hv).1
  cases hfail : verdicts.findSome? (Verdict.failure? identity) with
  | some e =>
    rw [hfail] at hfold
    dsimp only at hfold
    rw [hfold] at hresolve
    cases hresolve
  | none =>
    rw [hfail] at hfold
    obtain ⟨filters, -, hfold⟩ := hfold
    rw [hfold, left_of_no_denial hverdicts (fun v hv => (hscopes v hv).2),
      mergedMask_eq_mergeAll hne hmasks h] at hresolve
    cases hresolve
    rw [projection, Option.filter_some, Mask.isEmpty_mergeAll hne hmasks]
    rfl

end Permission

namespace Mask

/-- A caller whose roles have scopes with masks is left with the merged mask. Whatever the order of
the roles, it removes each path that every mask removes and none that no mask does, if each mask
only includes or only excludes. -/
theorem removes_mergeAll {masks : List Mask} (hne : masks ≠ [])
    (hmasks : ∀ mask ∈ masks, mask.isEmpty = false ∧ ∃ included, mask.IsUniform included) :
    (∀ policy reserved action identity permission,
      identity.roles.map (fun role => (Permission.verdict policy reserved action role).mask?) =
          masks.map some →
        Permission.resolve policy reserved (some identity) action = .ok permission →
          permission.projection = some (mergeAll masks)) ∧
    ∀ path,
      ((∀ mask ∈ masks, mask.removes path = true) → (mergeAll masks).removes path = true) ∧
      ((∀ mask ∈ masks, mask.removes path = false) → (mergeAll masks).removes path = false) := by
  constructor
  · intro policy reserved action identity permission hroles hresolve
    exact Permission.projection_of_resolve hne (fun mask hmask => (hmasks mask hmask).1) hroles
      hresolve
  · intro path
    obtain ⟨mask, hmask, hremoves⟩ := exists_removes_eq hne hmasks path
    rw [hremoves]
    exact ⟨fun h => h mask hmask, fun h => h mask hmask⟩

/-- Two masks of which the second turns the whole into one that includes: the salary, which both
hide, stays hidden, and the city, which both show, is shown. -/
theorem removes_mergeAll_of_salary :
    let masks : List Mask :=
      [⟨[("name", false), ("salary", false)]⟩, ⟨[("name", true), ("city", true)]⟩]
    masks ≠ [] ∧
      (∀ mask ∈ masks, mask.isEmpty = false ∧ ∃ included, mask.IsUniform included) ∧
      (mergeAll masks).isExclusive = false ∧ (mergeAll masks).removes "salary" = true ∧
      (mergeAll masks).removes "city" = false := by
  intro masks
  have hne : masks ≠ [] := List.cons_ne_nil _ _
  have hmasks : ∀ mask ∈ masks, mask.isEmpty = false ∧ ∃ included, mask.IsUniform included := by
    intro mask hmask
    rcases List.mem_cons.1 hmask with rfl | hmask
    · exact ⟨rfl, false, by unfold IsUniform; decide⟩
    · obtain rfl := List.mem_singleton.1 hmask
      exact ⟨rfl, true, by unfold IsUniform; decide⟩
  have hpaths := (removes_mergeAll hne hmasks).2
  exact ⟨hne, hmasks, rfl, (hpaths "salary").1 (by decide), (hpaths "city").2 (by decide)⟩

end Mask

end RecordGuard
