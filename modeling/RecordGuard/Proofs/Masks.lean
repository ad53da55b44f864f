import Mathlib.Data.List.Nodup
import Mathlib.Tactic.SplitIfs
import RecordGuard.Proofs.Segments
import RecordGuard.Redaction.Restore

/-!
# What masks say of paths

`get?_set` is the law of the entries; where no path is listed twice, an entry is what a look-up of
its path gives (`get?_eq_some_iff`), and the entries set one after the other make the mask
(`ofList_entries`). A mask that only excludes removes the paths it was made from
(`removes_excluding`). An exclusive mask treats a path it excludes as restricted
(`access_of_excluded`) and walks into, or restricts, every path on the way there
(`access_ne_allowed`). Any other path is walked into if one of the other flag lies below it
(`access_of_not_excluded`, `access_of_not_included`).
-/

namespace RecordGuard.Mask

theorem find?_setEntry (entries : List (String × Bool)) (path other : String) (included : Bool) :
    ((setEntry entries path included).find? fun entry => entry.1 == other) =
      if path = other then some (path, included)
      else entries.find? fun entry => entry.1 == other := by
  induction entries with
  | nil =>
    by_cases h : path = other
    · simp [setEntry, h]
    · simp [setEntry, h]
  | cons entry rest ih =>
    obtain ⟨p, flag⟩ := entry
    by_cases hp : p = path
    · subst hp
      by_cases h : p = other
      · simp [setEntry, h]
      · simp [setEntry, h]
    · by_cases h : p = other
      · subst h
        simp [setEntry, hp, Ne.symm hp]
      · simp [setEntry, hp, h, ih]

theorem get?_set (mask : Mask) (path other : String) (included : Bool) :
    (mask.set path included).get? other =
      if path = other then some included else mask.get? other := by
  rw [get?, set, find?_setEntry]
  split_ifs <;> rfl

theorem mem_entries_of_get? {mask : Mask} {path : String} {included : Bool}
    (h : mask.get? path = some included) : (path, included) ∈ mask.entries := by
  obtain ⟨entry, hfound, rfl⟩ := Option.map_eq_some_iff.1 h
  have hpath := List.find?_some hfound
  rw [beq_iff_eq] at hpath
  subst hpath
  exact List.mem_of_find?_eq_some hfound

/-! ### Masks without repeats -/

/-- No path is listed twice. -/
def HasDistinctPaths (mask : Mask) : Prop := (mask.entries.map Prod.fst).Nodup

instance (mask : Mask) : Decidable mask.HasDistinctPaths :=
  inferInstanceAs (Decidable (List.Nodup _))

theorem get?_eq_some_iff {mask : Mask} (h : mask.HasDistinctPaths) {path : String}
    {included : Bool} : mask.get? path = some included ↔ (path, included) ∈ mask.entries := by
  refine ⟨mem_entries_of_get?, fun hm => ?_⟩
  -- an entry of the path is found, and it is this one
  have hsome : (mask.entries.find? fun entry => entry.1 == path).isSome :=
    List.find?_isSome.2 ⟨_, hm, beq_self_eq_true path⟩
  obtain ⟨found, hfound⟩ := Option.isSome_iff_exists.1 hsome
  have hpath := List.find?_some hfound
  rw [beq_iff_eq] at hpath
  have heq : found = (path, included) :=
    List.inj_on_of_nodup_map h (List.mem_of_find?_eq_some hfound) hm hpath
  rw [get?, hfound, heq]
  rfl

theorem mem_pathsWith_iff_mem_entries {mask : Mask} {path : String} {included : Bool} :
    path ∈ mask.pathsWith included ↔ (path, included) ∈ mask.entries := by
  constructor
  · intro hm
    obtain ⟨⟨p, flag⟩, hkept, rfl⟩ := List.mem_map.1 hm
    obtain ⟨hentry, hflag⟩ := List.mem_filter.1 hkept
    obtain rfl : flag = included := eq_of_beq hflag
    exact hentry
  · exact fun hm => List.mem_map.2 ⟨_, List.mem_filter.2 ⟨hm, beq_self_eq_true included⟩, rfl⟩

theorem mem_pathsWith_iff {mask : Mask} (h : mask.HasDistinctPaths) {path : String}
    {included : Bool} : path ∈ mask.pathsWith included ↔ mask.get? path = some included := by
  rw [get?_eq_some_iff h, mem_pathsWith_iff_mem_entries]

theorem setEntry_of_not_mem {entries : List (String × Bool)} {path : String}
    (h : path ∉ entries.map Prod.fst) (included : Bool) :
    setEntry entries path included = entries ++ [(path, included)] := by
  induction entries with
  | nil => rfl
  | cons entry rest ih =>
    obtain ⟨p, flag⟩ := entry
    rw [List.map_cons, List.mem_cons, not_or] at h
    rw [setEntry, if_neg (Ne.symm h.1), ih h.2, List.cons_append]

theorem map_fst_setEntry_of_mem {entries : List (String × Bool)} {path : String}
    (h : path ∈ entries.map Prod.fst) (included : Bool) :
    (setEntry entries path included).map Prod.fst = entries.map Prod.fst := by
  induction entries with
  | nil => cases h
  | cons entry rest ih =>
    obtain ⟨p, flag⟩ := entry
    rw [setEntry]
    split_ifs with hp
    · rfl
    · have hrest : path ∈ rest.map Prod.fst := (List.mem_cons.1 h).resolve_left (Ne.symm hp)
      rw [List.map_cons, ih hrest, List.map_cons]

/-- Setting a flag lists no path a second time. -/
theorem HasDistinctPaths.set {mask : Mask} (h : mask.HasDistinctPaths) (path : String)
    (included : Bool) : (mask.set path included).HasDistinctPaths := by
  show ((setEntry mask.entries path included).map Prod.fst).Nodup
  by_cases hm : path ∈ mask.entries.map Prod.fst
  · rw [map_fst_setEntry_of_mem hm]
    exact h
  · rw [setEntry_of_not_mem hm, List.map_append]
    refine List.Nodup.append h (List.nodup_singleton path) ?_
    exact List.disjoint_singleton.2 hm

theorem HasDistinctPaths.foldl_set {mask : Mask} (h : mask.HasDistinctPaths)
    (flags : List (String × Bool)) :
    (flags.foldl (fun mask flag => mask.set flag.1 flag.2) mask).HasDistinctPaths := by
  induction flags generalizing mask with
  | nil => exact h
  | cons flag flags ih => exact ih (h.set flag.1 flag.2)

theorem hasDistinctPaths_empty : empty.HasDistinctPaths := List.nodup_nil

theorem hasDistinctPaths_ofList (flags : List (String × Bool)) :
    (ofList flags).HasDistinctPaths := hasDistinctPaths_empty.foldl_set flags

theorem HasDistinctPaths.merge {mask : Mask} (h : mask.HasDistinctPaths) (other : Mask) :
    (mask.merge other).HasDistinctPaths := h.foldl_set other.entries

/-- Flags of different paths are listed in the order in which they are set. -/
theorem ofList_of_nodup {flags : List (String × Bool)} (h : (flags.map Prod.fst).Nodup) :
    ofList flags = ⟨flags⟩ := by
  suffices ∀ before : List (String × Bool), ((before ++ flags).map Prod.fst).Nodup →
      flags.foldl (fun (mask : Mask) flag => mask.set flag.1 flag.2) ⟨before⟩ =
        ⟨before ++ flags⟩ from
    this [] h
  clear h
  induction flags with
  | nil => exact fun before _ => by rw [List.append_nil]; rfl
  | cons flag flags ih =>
    intro before h
    have hnew : flag.1 ∉ before.map Prod.fst := by
      rw [List.map_append, List.map_cons] at h
      exact fun hm => (List.nodup_append.1 h).2.2 _ hm _ List.mem_cons_self rfl
    have hset : (Mask.mk before).set flag.1 flag.2 = ⟨before ++ [flag]⟩ := by
      rw [set, setEntry_of_not_mem hnew]
    have happend : before ++ flag :: flags = before ++ [flag] ++ flags := by simp
    rw [List.foldl_cons, hset, happend]
    rw [happend] at h
    exact ih _ h

theorem ofList_entries {mask : Mask} (h : mask.HasDistinctPaths) : ofList mask.entries = mask :=
  ofList_of_nodup h

/-! ### Masks that exclude a list of paths -/

/-- The mask that excludes the given paths. -/
def excluding (paths : List String) : Mask := ofList (paths.map (·, false))

theorem get?_excluding (paths : List String) (path : String) :
    (excluding paths).get? path = if path ∈ paths then some false else none := by
  suffices ∀ mask : Mask,
      ((paths.map (·, false)).foldl (fun mask flag => mask.set flag.1 flag.2) mask).get? path =
        if path ∈ paths then some false else mask.get? path from this empty
  induction paths with
  | nil => exact fun mask => rfl
  | cons p paths ih =>
    intro mask
    rw [List.map_cons, List.foldl_cons, ih, get?_set]
    by_cases hp : path = p
    · simp [hp]
    · simp [hp, Ne.symm hp]

/-- Excluding one more path leaves an exclusive mask exclusive, and makes an empty one so. -/
theorem isExclusive_set_false {mask : Mask} (h : mask.isEmpty ∨ mask.isExclusive) (path : String) :
    (mask.set path false).isExclusive := by
  obtain ⟨entries⟩ := mask
  cases entries with
  | nil => rfl
  | cons entry rest =>
    obtain ⟨p, flag⟩ := entry
    have hflag : flag = false := by simpa [isEmpty, isExclusive] using h
    subst hflag
    by_cases hp : p = path <;> simp [isExclusive, set, setEntry, hp]

theorem isExclusive_excluding {paths : List String} (h : paths ≠ []) :
    (excluding paths).isExclusive := by
  have hfold : ∀ (rest : List String) (mask : Mask), mask.isExclusive →
      ((rest.map (·, false)).foldl (fun mask flag => mask.set flag.1 flag.2) mask).isExclusive := by
    intro rest
    induction rest with
    | nil => exact fun mask hm => hm
    | cons p rest ih => exact fun mask hm => ih _ (isExclusive_set_false (Or.inr hm) p)
  obtain ⟨p, rest, rfl⟩ := List.exists_cons_of_ne_nil h
  exact hfold rest _ (isExclusive_set_false (Or.inl rfl) p)

theorem isEmpty_eq_false {mask : Mask} (h : mask.isExclusive) : mask.isEmpty = false := by
  obtain ⟨entries⟩ := mask
  cases entries with
  | nil => cases h
  | cons entry rest => rfl

theorem removes_eq {mask : Mask} (h : mask.isExclusive) (path : String) :
    mask.removes path = (mask.get? path == some false) := if_pos h

theorem removes_excluding {paths : List String} (h : paths ≠ []) (path : String) :
    (excluding paths).removes path = paths.contains path := by
  rw [removes_eq (isExclusive_excluding h), get?_excluding]
  by_cases hp : path ∈ paths <;> simp [hp]

/-! ### Access to paths -/

theorem leadsBelow_eq_true_iff {mask : Mask} {path : String} : mask.leadsBelow path = true ↔
    ∃ p ∈ mask.pathsWith (!mask.isExclusive), Path.isBelow p path = true := by
  rw [leadsBelow, List.any_eq_true]
  constructor
  · rintro ⟨⟨p, flag⟩, hentry, h⟩
    obtain ⟨hflag, hbelow⟩ := Bool.and_eq_true_iff.1 h
    have hnot : flag = !mask.isExclusive := Bool.eq_not.2 (bne_iff_ne.1 hflag)
    exact ⟨p, mem_pathsWith_iff_mem_entries.2 (hnot ▸ hentry), hbelow⟩
  · rintro ⟨p, hp, hbelow⟩
    refine ⟨_, mem_pathsWith_iff_mem_entries.1 hp, ?_⟩
    rw [hbelow, Bool.and_true, bne_iff_ne]
    exact Bool.eq_not.1 rfl

theorem access_of_excluded {mask : Mask} (h : mask.isExclusive) {path : String}
    (hp : mask.get? path = some false) : mask.access path = .restricted := by
  rw [access, if_pos h, if_pos hp]

/-- A path that leads to an excluded one may not be written as it comes. -/
theorem access_ne_allowed {mask : Mask} (h : mask.isExclusive) {path : String} (hne : path ≠ "")
    {keys : List String} (hp : mask.get? (Path.walk path keys) = some false) :
    mask.access path ≠ .allowed := by
  cases keys with
  | nil =>
    rw [Path.walk_nil] at hp
    rw [access_of_excluded h hp]
    exact Access.noConfusion
  | cons key keys =>
    have hbelow := Path.isBelow_walk hne (List.cons_ne_nil key keys)
    have hexcluded := mem_pathsWith_iff_mem_entries.2 (mem_entries_of_get? hp)
    have hleads : mask.leadsBelow path = true := leadsBelow_eq_true_iff.2 ⟨_, h ▸ hexcluded, hbelow⟩
    rw [access, if_pos h, if_pos hleads]
    split_ifs <;> exact Access.noConfusion

theorem access_of_not_excluded {mask : Mask} (h : mask.isExclusive) {path : String}
    (hp : path ∉ mask.excluded) :
    mask.access path = if mask.leadsBelow path then .descend else .allowed := by
  rw [access, if_pos h, if_neg fun hget =>
    hp (mem_pathsWith_iff_mem_entries.2 (mem_entries_of_get? hget))]

theorem access_of_included {mask : Mask} (h : mask.isExclusive = false) {path : String}
    (hp : mask.get? path = some true) : mask.access path = .allowed := by
  rw [access, if_neg (Bool.eq_false_iff.1 h), if_pos hp]

theorem access_of_not_included {mask : Mask} (h : mask.isExclusive = false) {path : String}
    (hp : mask.get? path ≠ some true) :
    mask.access path = if mask.leadsBelow path then .descend else .restricted := by
  rw [access, if_neg (Bool.eq_false_iff.1 h), if_neg hp]

end RecordGuard.Mask
