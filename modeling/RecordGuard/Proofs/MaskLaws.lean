import RecordGuard.Proofs.RuleForms

/-!
# Laws of masks

However a mask comes about it lists no path twice (`Mask.isReached_iff`), so that it is a map that
keeps the order in which its paths were first set: the paths and the look-ups say all about it
(`Mask.eq_of_paths_of_get?`). Setting flags one after the other lists the new paths behind the old
ones (`Mask.paths_foldl_set`), and the last flag of a path is the one that is found
(`Mask.get?_foldl_set`). From these two laws merging is seen to be associative and idempotent, with
the empty mask as its unit.
-/

namespace RecordGuard.Mask

open Json (Tree)

/-- The paths that the mask lists, in its order. -/
def paths (mask : Mask) : List String := mask.entries.map Prod.fst

/-- The masks that can be made: from nothing, from a text or from pairs, from JSON, and from such
masks by setting flags and by merging. -/
inductive IsReached : Mask → Prop
  | empty : IsReached empty
  | decode (text : String) : IsReached (decode text)
  | ofList (flags : List (String × Bool)) : IsReached (ofList flags)
  | ofTree {t : Tree} {mask : Mask} : ofTree? t = some mask → IsReached mask
  | read {text : String} {mask : Mask} : read text = .ok mask → IsReached mask
  | withIncluded {mask : Mask} (path : String) : IsReached mask → IsReached (mask.withIncluded path)
  | withExcluded {mask : Mask} (path : String) : IsReached mask → IsReached (mask.withExcluded path)
  | set {mask : Mask} (path : String) (included : Bool) :
    IsReached mask → IsReached (mask.set path included)
  | merge {mask other : Mask} : IsReached mask → IsReached other → IsReached (mask.merge other)

/-! ### Flags set one after the other -/

theorem get?_cons (path : String) (included : Bool) (rest : List (String × Bool)) (other : String) :
    (Mask.mk ((path, included) :: rest)).get? other =
      if path = other then some included else (Mask.mk rest).get? other := by
  by_cases h : path = other <;> simp [get?, h]

theorem mem_paths_iff {mask : Mask} {path : String} :
    path ∈ mask.paths ↔ (mask.get? path).isSome = true := by
  rw [get?, Option.isSome_map, List.find?_isSome, paths, List.mem_map]
  simp only [beq_iff_eq]

theorem get?_eq_none_iff {mask : Mask} {path : String} :
    mask.get? path = none ↔ path ∉ mask.paths := by
  rw [mem_paths_iff, Option.not_isSome_iff_eq_none]

/-- A path that is set anew keeps its place, and any other path comes last. -/
theorem paths_set (mask : Mask) (path : String) (included : Bool) :
    (mask.set path included).paths =
      if path ∈ mask.paths then mask.paths else mask.paths ++ [path] := by
  split_ifs with h
  · exact map_fst_setEntry_of_mem h included
  · rw [paths, Mask.set, setEntry_of_not_mem h, List.map_append]
    rfl

section Flags

variable {flags : List (String × Bool)} (h : (flags.map Prod.fst).Nodup)
include h

theorem get?_foldl_set (mask : Mask) (path : String) :
    (flags.foldl (fun mask flag => mask.set flag.1 flag.2) mask).get? path =
      ((Mask.mk flags).get? path).or (mask.get? path) := by
  induction flags generalizing mask with
  | nil => rfl
  | cons flag flags ih =>
    obtain ⟨p, included⟩ := flag
    obtain ⟨hnew, hflags⟩ := List.nodup_cons.1 h
    rw [List.foldl_cons, ih hflags, get?_set, get?_cons]
    split_ifs with hpath
    · subst hpath
      rw [get?_eq_none_iff.2 hnew]
      rfl
    · rfl

theorem paths_foldl_set (mask : Mask) :
    (flags.foldl (fun mask flag => mask.set flag.1 flag.2) mask).paths =
      mask.paths ++ (flags.map Prod.fst).filter (· ∉ mask.paths) := by
  induction flags generalizing mask with
  | nil => exact (List.append_nil _).symm
  | cons flag flags ih =>
    obtain ⟨p, included⟩ := flag
    obtain ⟨hnew, hflags⟩ := List.nodup_cons.1 h
    rw [List.foldl_cons, ih hflags, paths_set, List.map_cons]
    split_ifs with hp
    · rw [List.filter_cons_of_neg (by simpa using hp)]
    · have hrest : (flags.map Prod.fst).filter (· ∉ mask.paths ++ [p]) =
          (flags.map Prod.fst).filter (· ∉ mask.paths) := by
        refine List.filter_congr fun q hq => ?_
        simp [ne_of_mem_of_not_mem hq hnew]
      rw [hrest, List.filter_cons_of_pos (by simpa using hp), List.append_assoc]
      rfl

end Flags

/-! ### Masks that can be made -/

theorem hasDistinctPaths_of_read {text : String} {mask : Mask} (h : read text = .ok mask) :
    mask.HasDistinctPaths := by
  unfold read at h
  split at h
  · obtain ⟨flags, -, h⟩ := bind_eq_ok_iff.1 h
    split at h
    · split_ifs at h
      cases h
      exact hasDistinctPaths_ofList flags
    · cases h
  · cases h

namespace IsReached

theorem hasDistinctPaths {mask : Mask} (h : mask.IsReached) : mask.HasDistinctPaths := by
  induction h with
  | empty => exact hasDistinctPaths_empty
  | decode text => exact hasDistinctPaths_ofList _
  | ofList flags => exact hasDistinctPaths_ofList flags
  | ofTree h => exact hasDistinctPaths_of_ofTree? h
  | read h => exact hasDistinctPaths_of_read h
  | withIncluded path _ ih => exact ih.set path true
  | withExcluded path _ ih => exact ih.set path false
  | set path included _ ih => exact ih.set path included
  | merge _ _ ih _ => exact ih.merge _

end IsReached

/-- The masks that can be made are those that list no path twice. -/
theorem isReached_iff {mask : Mask} : mask.IsReached ↔ mask.HasDistinctPaths :=
  ⟨IsReached.hasDistinctPaths, fun h => ofList_entries h ▸ .ofList mask.entries⟩

/-! ### Merging -/

section Laws

variable {a b c : Mask}

theorem entries_eq_map (h : a.HasDistinctPaths) :
    a.entries = a.paths.map fun path => (path, (a.get? path).getD false) := by
  have hentry : ∀ entry ∈ a.entries, (entry.1, (a.get? entry.1).getD false) = entry := by
    intro entry hm
    rw [(get?_eq_some_iff h).2 hm]
    rfl
  rw [paths, List.map_map]
  exact ((List.map_congr_left hentry).trans (List.map_id _)).symm

/-- Masks that list the same paths in the same order with the same flags are the same. -/
theorem eq_of_paths_of_get? (ha : a.HasDistinctPaths) (hb : b.HasDistinctPaths)
    (hpaths : a.paths = b.paths) (hget : ∀ path, a.get? path = b.get? path) : a = b := by
  have hentries : a.entries = b.entries := by
    rw [entries_eq_map ha, entries_eq_map hb, hpaths, funext hget]
  cases a
  cases b
  exact congrArg Mask.mk hentries

theorem get?_merge (hb : b.HasDistinctPaths) (path : String) :
    (a.merge b).get? path = (b.get? path).or (a.get? path) := get?_foldl_set hb a path

theorem paths_merge (hb : b.HasDistinctPaths) :
    (a.merge b).paths = a.paths ++ b.paths.filter (· ∉ a.paths) := paths_foldl_set hb a

theorem empty_merge (ha : a.HasDistinctPaths) : empty.merge a = a := ofList_entries ha

theorem merge_self (ha : a.HasDistinctPaths) : a.merge a = a := by
  refine eq_of_paths_of_get? (ha.merge a) ha ?_ fun path => ?_
  · rw [paths_merge ha, List.filter_eq_nil_iff.2 (by simp), List.append_nil]
  · rw [get?_merge ha, Option.or_self]

theorem merge_assoc (ha : a.HasDistinctPaths) (hb : b.HasDistinctPaths) (hc : c.HasDistinctPaths) :
    (a.merge b).merge c = a.merge (b.merge c) := by
  have hbc := hb.merge c
  refine eq_of_paths_of_get? ((ha.merge b).merge c) (ha.merge _) ?_ fun path => ?_
  · -- of the third mask both sides list the paths that neither of the others lists
    have hthird : c.paths.filter (· ∉ a.paths ++ b.paths.filter (· ∉ a.paths)) =
        (c.paths.filter (· ∉ b.paths)).filter (· ∉ a.paths) := by
      rw [List.filter_filter]
      refine List.filter_congr fun path _ => ?_
      by_cases h : path ∈ a.paths <;> simp [h]
    rw [paths_merge hc, paths_merge hb, paths_merge hbc, paths_merge hc, List.filter_append,
      List.append_assoc, hthird]
  · rw [get?_merge hc, get?_merge hb, get?_merge hbc, get?_merge hc, Option.or_assoc]

/-- Merging masks one after the other sets all their entries one after the other. -/
theorem foldl_merge (masks : List Mask) (a : Mask) :
    masks.foldl merge a =
      (masks.flatMap entries).foldl (fun mask entry => mask.set entry.1 entry.2) a :=
  List.foldl_flatMap.symm

end Laws

/-- No mask that can be made lists a path twice. Such masks are merged entry by entry: the flag of a
path is that of the second mask if it lists the path, the paths of the first come first and those
that only the second lists behind them, each in their order. Merging is associative and idempotent
with the empty mask as its unit, and merging one mask after the other sets all their entries one
after the other. -/
theorem merge_laws :
    (∀ mask : Mask, mask.IsReached → mask.paths.Nodup) ∧
    ∀ a b c : Mask, a.IsReached → b.IsReached → c.IsReached →
      (∀ path, (a.merge b).get? path = if path ∈ b.paths then b.get? path else a.get? path) ∧
      (a.merge b).paths = a.paths ++ b.paths.filter (· ∉ a.paths) ∧
      (a.merge b).merge c = a.merge (b.merge c) ∧
      empty.merge a = a ∧ a.merge empty = a ∧ a.merge a = a ∧
      ∀ masks : List Mask, (masks.foldl merge a).entries =
        ((masks.flatMap entries).foldl (fun mask entry => mask.set entry.1 entry.2) a).entries := by
  refine ⟨fun mask h => h.hasDistinctPaths, fun a b c ha hb hc => ?_⟩
  rw [isReached_iff] at ha hb hc
  refine ⟨fun path => ?_, paths_merge hb, merge_assoc ha hb hc, empty_merge ha, rfl, merge_self ha,
    fun masks => congrArg entries (foldl_merge masks a)⟩
  rw [get?_merge hb]
  split_ifs with h
  · obtain ⟨included, hget⟩ := Option.isSome_iff_exists.1 (mem_paths_iff.1 h)
    rw [hget]
    rfl
  · rw [get?_eq_none_iff.2 h]
    rfl

/-- A mask that hides the salary, one that shows it and the city, and one that hides the city: in
the first two together the salary keeps its place and is shown. -/
theorem merge_laws_of_salary :
    let a := decode "-salary name"
    let b := (decode "city").withIncluded "salary"
    let c := ofList [("city", false)]
    (a.merge b).get? "salary" = some true ∧ (a.merge b).paths = ["salary", "name", "city"] ∧
      (a.merge b).merge c = a.merge (b.merge c) ∧ a.merge a = a := by
  intro a b c
  have hb : b.IsReached := .withIncluded "salary" (.decode "city")
  obtain ⟨hget, hpaths, hassoc, -, -, hself, -⟩ :=
    merge_laws.2 a b c (.decode _) hb (.ofList _)
  exact ⟨(hget "salary").trans (by decide +kernel), hpaths.trans (by decide +kernel), hassoc, hself⟩

end RecordGuard.Mask
