import RecordGuard.Proofs.RedactedReads
import RecordGuard.Proofs.StrippedPositions

/-!
# The fields that a selection gives out

Where no key is empty, the walk through a document meets the dotted paths of the first keys of each
leaf, and a path below which a selected one lies is never missed on the way (`shows_eq_any_trail`).
What a selection gives out can therefore be read off the dotted paths of a leaf alone, in both
modes. What is given out is given out again as it is (`apply_apply`).
-/

namespace RecordGuard

open Json (Value)
open Json.Value (leaves leavesOfItems leavesOfMembers parts partsOfItems partsOfMembers)

/-! ### Documents without empty keys -/

namespace Json.Value

/-- No key in the value is empty. -/
def HasNonemptyKeys (v : Value) : Prop := ∀ part ∈ v.parts, ∀ key ∈ part.1, key ≠ ""

instance (v : Value) : Decidable v.HasNonemptyKeys :=
  inferInstanceAs (Decidable (∀ part ∈ v.parts, ∀ key ∈ part.1, key ≠ ""))

mutual

theorem leaves_subset_parts : (v : Value) → leaves v ⊆ parts v
  | .null => List.Subset.refl _
  | .bool _ => List.Subset.refl _
  | .number _ => List.Subset.refl _
  | .string _ => List.Subset.refl _
  | .array items => List.subset_cons_of_subset _ (leavesOfItems_subset_partsOfItems items)
  | .object members => List.subset_cons_of_subset _ (leavesOfMembers_subset_partsOfMembers members)

theorem leavesOfItems_subset_partsOfItems : (vs : List Value) → leavesOfItems vs ⊆ partsOfItems vs
  | [] => List.Subset.refl _
  | v :: vs =>
    List.append_subset.2 ⟨List.subset_append_of_subset_left _ (leaves_subset_parts v),
      List.subset_append_of_subset_right _ (leavesOfItems_subset_partsOfItems vs)⟩

theorem leavesOfMembers_subset_partsOfMembers :
    (ms : List (String × Value)) → leavesOfMembers ms ⊆ partsOfMembers ms
  | [] => List.Subset.refl _
  | (_, v) :: ms =>
    List.append_subset.2
      ⟨List.subset_append_of_subset_left _ (List.map_subset _ (leaves_subset_parts v)),
        List.subset_append_of_subset_right _ (leavesOfMembers_subset_partsOfMembers ms)⟩

end

theorem HasNonemptyKeys.of_mem_leaves {v : Value} (h : v.HasNonemptyKeys) {leaf : Leaf}
    (hl : leaf ∈ v.leaves) : ∀ key ∈ leaf.1, key ≠ "" :=
  h leaf (leaves_subset_parts v hl)

end Json.Value

namespace Selection

variable (paths : List String)

/-! ### What is shown, by dotted paths -/

theorem shows_eq_any_trail {keys : List String} (hkeys : ∀ key ∈ keys, key ≠ "") (path : String) :
    shows paths path keys = (Path.trail path keys).any paths.contains := by
  induction keys generalizing path with
  | nil => rfl
  | cons key keys ih =>
    obtain ⟨hkey, hkeys⟩ := List.forall_mem_cons.1 hkeys
    rw [shows, Path.trail, List.any_cons, ih hkeys]
    cases hany : (Path.trail (Path.join path key) keys).any paths.contains with
    | false => rw [Bool.and_false]
    | true =>
      -- a path that is met further on lies below this one
      obtain ⟨met, hmet, hlisted⟩ := List.any_eq_true.1 hany
      have hbelow : someBelow paths (Path.join path key) = true := List.any_eq_true.2
        ⟨met, List.contains_iff_mem.1 hlisted,
          Path.isBelow_of_mem_trail (Path.join_ne_empty_of_key hkey path) hmet⟩
      rw [hbelow, Bool.and_true]

/-! ### Selecting twice -/

theorem isContainer_showValue (path : String) (v : Value) :
    (showValue paths path v).isContainer = v.isContainer := by
  cases v <;> rfl

mutual

/-- What is shown is shown again as it is. -/
theorem showValue_showValue (path : String) : (v : Value) →
    showValue paths path (showValue paths path v) = showValue paths path v
  | .null => rfl
  | .bool _ => rfl
  | .number _ => rfl
  | .string _ => rfl
  | .array items => congrArg Value.array (showItems_showItems path items)
  | .object members => congrArg Value.object (showMembers_showMembers path members)

theorem showItems_showItems (path : String) : (vs : List Value) →
    showItems paths path (showItems paths path vs) = showItems paths path vs
  | [] => rfl
  | v :: vs => by
    have hvs := showItems_showItems path vs
    rw [showItems]
    split_ifs with hv
    · rw [showItems, isContainer_showValue, if_pos hv, showValue_showValue path v, hvs]
    · exact hvs

theorem showMembers_showMembers (path : String) : (ms : List (String × Value)) →
    showMembers paths path (showMembers paths path ms) = showMembers paths path ms
  | [] => rfl
  | (key, v) :: ms => by
    have hms := showMembers_showMembers path ms
    rw [showMembers]
    split_ifs with hlisted hwalked
    · rw [showMembers, if_pos hlisted, hms]
    · rw [showMembers, if_neg hlisted, isContainer_showValue, if_pos hwalked,
        showValue_showValue (Path.join path key) v, hms]
    · exact hms

end

/-- There is no member to put back at the empty path. -/
theorem apply_showing_empty (document : Value) :
    (Selection.showing paths).apply "" document = showValue paths "" document := by
  rw [apply]
  cases Path.get? document "" with
  | none => rfl
  | some id =>
    dsimp only
    rw [Path.set?, if_pos rfl, Option.getD_none]

/-- A selection changes nothing in what it gives out. -/
theorem apply_apply {idField : String} (hid : '.' ∉ idField.toList)
    {members : List (String × Value)} (ho : Entries.Ordered members) (selection : Selection) :
    selection.apply idField (selection.apply idField (.object members)) =
      selection.apply idField (.object members) := by
  rcases selection with paths | paths
  · by_cases hempty : idField = ""
    · rw [hempty, apply_showing_empty, apply_showing_empty, showValue_showValue]
    · have hsegments := Path.segments_of_not_mem hid
      obtain ⟨shown, hshown, hordered, hget⟩ := exists_apply_showing hsegments hempty paths ho
      obtain ⟨again, hagain, hordered', hget'⟩ :=
        exists_apply_showing hsegments hempty paths hordered
      rw [hshown, hagain]
      refine congrArg Value.object (hordered'.ext hordered fun key => ?_)
      rw [hget']
      by_cases hkey : key = idField
      · rw [if_pos hkey, hkey]
      · -- but for the identifier, what is shown of a member is shown again by itself
        have hmember := hget key
        rw [if_neg hkey] at hmember
        rw [if_neg hkey, get?_showMembers paths "" hordered, hmember,
          ← get?_showMembers paths "" (ordered_showMembers ho paths ""), showMembers_showMembers]
  · by_cases hne : paths = []
    · rw [hne]
      rfl
    · rw [apply_hiding hne, apply_hiding hne, Mask.stripValue_stripValue]

/-! ### What is given out, by dotted paths -/

/-- The identifier is put back where a leaf has it as its first key. -/
theorem gives_id_eq_head? {idField : String} (hid : '.' ∉ idField.toList)
    {members : List (String × Value)} (ho : Entries.Ordered members)
    (hkeys : (Value.object members).HasNonemptyKeys) {leaf : Leaf}
    (hl : leaf ∈ leavesOfMembers members) :
    (idField != "" && (Path.get? (.object members) idField).isSome &&
      (Path.segments idField).isPrefixOf leaf.1) = (leaf.1.head? == some idField) := by
  have hsegments := Path.segments_of_not_mem hid
  obtain ⟨⟨key, v⟩, hm, inner, -, rfl⟩ := Json.Value.exists_of_mem_leavesOfMembers hl
  rw [Path.get?_of_segments hsegments, hsegments]
  by_cases hkey : key = idField
  · subst hkey
    have hne : key ≠ "" := hkeys.of_mem_leaves hl key List.mem_cons_self
    rw [ho.get?_of_mem hm]
    simp [Leaf.under, hne]
  · have hprefix : [idField].isPrefixOf (key :: inner.1) = false := by
      rw [List.isPrefixOf, beq_eq_false_iff_ne.2 (Ne.symm hkey), Bool.false_and]
    have hhead : (key == idField) = false := beq_eq_false_iff_ne.2 hkey
    simp [Leaf.under, hprefix, hhead]

/-- What a selection gives out of a document without empty keys. Of the leaves it shows those with a
listed path on the way and those in the identifier, or it hides those with a listed path on the way;
the others are given out in their order. To select again changes nothing. -/
theorem apply_gives_fields {idField : String} (hid : '.' ∉ idField.toList)
    {members : List (String × Value)} (hc : (Value.object members).IsCanonical)
    (hkeys : (Value.object members).HasNonemptyKeys) :
    (∀ paths, leaves ((Selection.showing paths).apply idField (.object members)) =
      (leaves (.object members)).filter fun leaf =>
        (Path.fronts leaf.1).any paths.contains || leaf.1.head? == some idField) ∧
    (∀ paths, leaves ((Selection.hiding paths).apply idField (.object members)) =
      (leaves (.object members)).filter fun leaf =>
        !(Path.fronts leaf.1).any paths.contains) ∧
    ∀ selection : Selection, selection.apply idField (selection.apply idField (.object members)) =
      selection.apply idField (.object members) := by
  have htrail : ∀ leaf ∈ leavesOfMembers members, Path.trail "" leaf.1 = Path.fronts leaf.1 :=
    fun leaf hl => Path.trail_eq_fronts (hkeys.of_mem_leaves hl)
  refine ⟨fun paths => ?_, fun paths => ?_, apply_apply hid hc.ordered⟩
  · rw [leaves_apply _ _ hc]
    refine List.filter_congr fun leaf hl => ?_
    rw [gives, gives_id_eq_head? hid hc.ordered hkeys hl,
      shows_eq_any_trail paths (hkeys.of_mem_leaves hl), htrail leaf hl]
  · rw [leaves_apply _ _ hc]
    refine List.filter_congr fun leaf hl => ?_
    rw [gives, htrail leaf hl]

theorem apply_gives_fields_of_phones :
    let members := [("_id", Value.string "1"),
      ("address", .object [("city", .string "Oslo"), ("zip", .string "0150")]),
      ("phones", .array [.object [("number", .string "2"), ("pin", .string "0000")],
        .string "loose", .array [.object [("number", .string "3")]]])]
    '.' ∉ "_id".toList ∧ (Value.object members).IsCanonical ∧
      (Value.object members).HasNonemptyKeys ∧
      leaves ((Selection.showing ["address", "phones.number"]).apply "_id" (.object members)) =
        [(["_id"], .string "1"), (["address", "city"], .string "Oslo"),
          (["address", "zip"], .string "0150"), (["phones", "number"], .string "2"),
          (["phones", "number"], .string "3")] ∧
      leaves ((Selection.hiding ["address.zip", "phones.number"]).apply "_id" (.object members)) =
        [(["_id"], .string "1"), (["address", "city"], .string "Oslo"),
          (["phones", "pin"], .string "0000"), (["phones"], .string "loose")] := by
  intro members
  have hid : '.' ∉ "_id".toList := by decide
  have hc : (Value.object members).IsCanonical := by decide
  have hkeys : (Value.object members).HasNonemptyKeys := by decide +kernel
  obtain ⟨hshown, hhidden, -⟩ := apply_gives_fields hid hc hkeys
  exact ⟨hid, hc, hkeys, (hshown _).trans rfl, (hhidden _).trans rfl⟩

end Selection

end RecordGuard
