import RecordGuard.Proofs.UntouchedParts

/-!
# Two ways to read under a mask

A mask narrows what is read in two ways: a loaded document is redacted, and a search gives out the
selection of the mask. An exclusive mask does the same either way. An inclusive mask does not: the
redaction deletes every member whose own path is not included, whereas the selection shows
everything behind an included path and the way to it.

`Mask.redact_eq_apply_iff` says for which documents the two agree, and that the redaction never
leaves a leaf that the selection does not give out.
-/

namespace RecordGuard

open Json (Value)
open Json.Value (leaves leavesOfMembers parts partsOfItems partsOfMembers self_mem_parts
  forall_mem_partsOfMembers)

/-! ### The identifier -/

theorem Path.segments_id : Path.segments "_id" = ["_id"] := by decide +kernel

theorem Path.get?_of_segments {key : String} (h : Path.segments key = [key])
    (members : List (String × Value)) :
    Path.get? (.object members) key = Entries.get? members key := by
  rw [Path.get?, h]
  exact Option.bind_fun_some _

theorem Path.get?_id (members : List (String × Value)) :
    Path.get? (.object members) "_id" = Entries.get? members "_id" :=
  get?_of_segments segments_id members

namespace Json.Value

/-- Below the value no key is reserved by an underscore, but for a scalar `_id` at the top. -/
def HasPlainKeys (v : Value) : Prop :=
  ∀ part ∈ v.parts, (part.1 = ["_id"] ∧ part.2.isContainer = false) ∨
    ∀ key ∈ part.1, isReserved "_" key = false

instance (v : Value) : Decidable v.HasPlainKeys :=
  inferInstanceAs (Decidable (∀ part ∈ v.parts, _ ∨ _))

theorem HasPlainKeys.of_mem {members : List (String × Value)}
    (h : (Value.object members).HasPlainKeys) {key : String} {v : Value}
    (hm : (key, v) ∈ members) :
    (key = "_id" ∧ v.isContainer = false) ∨
      isReserved "_" key = false ∧ ∀ part ∈ v.parts, ∀ k ∈ part.1, isReserved "_" k = false := by
  have hmembers := forall_mem_partsOfMembers.1 (List.forall_mem_cons.1 h).2 (key, v) hm
  rcases hmembers _ (self_mem_parts v) with ⟨hkey, hv⟩ | hkey
  · exact Or.inl ⟨(List.cons.inj hkey).1, hv⟩
  · have hkey : isReserved "_" key = false := hkey key List.mem_cons_self
    refine Or.inr ⟨hkey, fun part hp k hk => ?_⟩
    rcases hmembers part hp with ⟨hid, -⟩ | hall
    · obtain rfl : key = "_id" := (List.cons.inj hid).1
      exact absurd hkey (by decide)
    · exact hall k (List.mem_cons_of_mem key hk)

end Json.Value

namespace Mask

variable {mask other : Mask} {reserved : String}

theorem isReserved_empty (key : String) : isReserved "" key = false := rfl

/-! ### Stripping without reserved keys -/

mutual

/-- Where no key is reserved, stripping depends only on what the mask removes. -/
theorem stripValue_congr (hremoves : ∀ path, mask.removes path = other.removes path)
    (path : String) : (v : Value) →
    (∀ part ∈ parts v, ∀ key ∈ part.1, isReserved reserved key = false) →
    mask.stripValue reserved path v = other.stripValue "" path v
  | .null, _ => rfl
  | .bool _, _ => rfl
  | .number _, _ => rfl
  | .string _, _ => rfl
  | .array items, h =>
    congrArg Value.array (stripItems_congr hremoves path items (List.forall_mem_cons.1 h).2)
  | .object members, h =>
    congrArg Value.object (stripMembers_congr hremoves path members (List.forall_mem_cons.1 h).2)

theorem stripItems_congr (hremoves : ∀ path, mask.removes path = other.removes path)
    (path : String) : (vs : List Value) →
    (∀ part ∈ partsOfItems vs, ∀ key ∈ part.1, isReserved reserved key = false) →
    mask.stripItems reserved path vs = other.stripItems "" path vs
  | [], _ => rfl
  | v :: vs, h => by
    obtain ⟨hv, hvs⟩ := List.forall_mem_append.1 h
    rw [stripItems, stripItems, stripValue_congr hremoves path v hv,
      stripItems_congr hremoves path vs hvs]

theorem stripMembers_congr (hremoves : ∀ path, mask.removes path = other.removes path)
    (path : String) : (ms : List (String × Value)) →
    (∀ part ∈ partsOfMembers ms, ∀ key ∈ part.1, isReserved reserved key = false) →
    mask.stripMembers reserved path ms = other.stripMembers "" path ms
  | [], _ => rfl
  | (key, v) :: ms, h => by
    obtain ⟨hv, hms⟩ := List.forall_mem_append.1 h
    have hv := List.forall_mem_map.1 hv
    have hkey : isReserved reserved key = false := hv _ (self_mem_parts v) key List.mem_cons_self
    have hvalue := stripValue_congr hremoves (Path.join path key) v fun part hp k hk =>
      hv part hp k (List.mem_cons_of_mem key hk)
    rw [stripMembers, stripMembers, hkey, isReserved_empty, hremoves, hvalue,
      stripMembers_congr hremoves path ms hms]

end

/-- Stripping leaves scalars alone. -/
theorem stripValue_of_not_isContainer {v : Value} (h : v.isContainer = false) (path : String) :
    mask.stripValue reserved path v = v := by
  cases v <;> first | rfl | cases h

/-- An inclusive mask removes the paths that its selection does not list. -/
theorem removes_of_inclusive (hx : mask.isExclusive = false) (hd : mask.HasDistinctPaths)
    (path : String) : mask.removes path = !mask.included.contains path := by
  rw [removes, hx, if_neg Bool.false_ne_true, Bool.eq_iff_iff, bne_iff_ne, Ne, Bool.not_eq_true',
    ← Bool.not_eq_true, List.contains_iff_mem, included, mem_pathsWith_iff hd]

/-- Without reserved keys, what stripping hides is what a path on the way is not included for. -/
theorem hides_of_inclusive (hx : mask.isExclusive = false) (hd : mask.HasDistinctPaths)
    {keys : List String} (hk : ∀ key ∈ keys, isReserved reserved key = false) (path : String) :
    mask.hides reserved path keys = false ↔
      ∀ met ∈ Path.trail path keys, met ∈ mask.included := by
  induction keys generalizing path with
  | nil => simp [hides, Path.trail]
  | cons key keys ih =>
    rw [hides, Path.trail, List.forall_mem_cons, removes_of_inclusive hx hd,
      ← ih (fun k h => hk k (List.mem_cons_of_mem key h)), hk key List.mem_cons_self]
    simp

/-! ### What the two give out -/

/-- The mask takes a member as a whole: it includes the member with everything inside it, or
neither the member nor, if it is an object or an array, anything below its path. -/
def TakesWhole (mask : Mask) (key : String) (v : Value) : Prop :=
  if key ∈ mask.included then ∀ part ∈ v.parts, ∀ met ∈ Path.trail key part.1, met ∈ mask.included
  else v.isContainer = true → ∀ path ∈ mask.included, Path.isBelow path key = false

instance (mask : Mask) (key : String) (v : Value) : Decidable (mask.TakesWhole key v) :=
  inferInstanceAs (Decidable (if key ∈ mask.included then ∀ part ∈ v.parts, _
    else _ → ∀ path ∈ mask.included, _))

/-- No path of the mask has a segment that is reserved by an underscore. -/
def NamesPlainPaths (mask : Mask) : Prop :=
  ∀ entry ∈ mask.entries, ∀ key ∈ Path.segments entry.1, isReserved "_" key = false

instance (mask : Mask) : Decidable mask.NamesPlainPaths :=
  inferInstanceAs (Decidable (∀ entry ∈ mask.entries, ∀ key ∈ Path.segments entry.1, _))

theorem get?_id_of_namesPlainPaths (h : mask.NamesPlainPaths) : mask.get? "_id" = none := by
  cases hget : mask.get? "_id" with
  | none => rfl
  | some included =>
    have hplain := h _ (mem_entries_of_get? hget) "_id"
      (by rw [Path.segments_id]; exact List.mem_cons_self)
    exact absurd hplain (by decide)

theorem redact_object (hne : mask.isEmpty = false) (members : List (String × Value)) :
    mask.redact reserved (.object members) = .object (mask.stripMembers reserved "" members) := by
  rw [redact, strip, hne, if_neg Bool.false_ne_true]
  rfl

theorem ordered_stripMembers {members : List (String × Value)} (ho : Entries.Ordered members)
    (path : String) : Entries.Ordered (mask.stripMembers reserved path members) :=
  Entries.ordered_iff_keys.2
    ((Entries.ordered_iff_keys.1 ho).sublist (keys_stripMembers_sublist mask reserved path members))

theorem excluded_ne_nil (hx : mask.isExclusive = true) : mask.excluded ≠ [] := by
  obtain ⟨_ | ⟨entry, rest⟩⟩ := mask
  · cases hx
  · have hentry : entry.2 = false := by simpa [isExclusive] using hx
    simp [excluded, pathsWith, hentry]

/-- An exclusive mask removes the paths that its selection hides. -/
theorem removes_eq_removes_excluding (hx : mask.isExclusive = true) (hd : mask.HasDistinctPaths)
    (path : String) : mask.removes path = (excluding mask.excluded).removes path := by
  rw [removes_eq hx, removes_excluding (excluded_ne_nil hx), Bool.eq_iff_iff, beq_iff_eq,
    List.contains_iff_mem, excluded, mem_pathsWith_iff hd]

end Mask

namespace Selection

theorem ordered_showMembers {members : List (String × Value)} (ho : Entries.Ordered members)
    (paths : List String) (path : String) :
    Entries.Ordered (showMembers paths path members) :=
  Entries.ordered_iff_keys.2
    ((Entries.ordered_iff_keys.1 ho).sublist (keys_showMembers_sublist paths path members))

theorem ofMask_of_inclusive {mask : Mask} (hx : mask.isExclusive = false) :
    ofMask mask = .showing mask.included := by
  rw [ofMask, hx, if_neg Bool.false_ne_true]

/-- What is shown of an object comes with its identifier. -/
theorem exists_apply_showing {idField : String} (hid : Path.segments idField = [idField])
    (hne : idField ≠ "") (paths : List String) {members : List (String × Value)}
    (ho : Entries.Ordered members) :
    ∃ shown, (Selection.showing paths).apply idField (.object members) = .object shown ∧
      Entries.Ordered shown ∧ ∀ key, Entries.get? shown key =
        if key = idField then Entries.get? members idField
        else Entries.get? (showMembers paths "" members) key := by
  have hshown := ordered_showMembers ho paths ""
  rw [apply, Path.get?_of_segments hid]
  cases hget : Entries.get? members idField with
  | none =>
    refine ⟨showMembers paths "" members, rfl, hshown, fun key => ?_⟩
    split_ifs with hkey
    · rw [hkey, get?_showMembers paths "" ho, hget]
      rfl
    · rfl
  | some id =>
    refine ⟨Entries.insert (showMembers paths "" members) idField id, ?_,
      Entries.ordered_insert hshown idField id, fun key => ?_⟩
    · have hset : Path.set? (showValue paths "" (.object members)) idField id =
          some (.object (Entries.insert (showMembers paths "" members) idField id)) := by
        rw [Path.set?, if_neg hne, hid]
        rfl
      dsimp only
      rw [hset, Option.getD_some]
    · rw [Entries.get?_insert]
      by_cases hkey : key = idField
      · rw [if_pos hkey, if_pos hkey.symm]
      · rw [if_neg hkey, if_neg (Ne.symm hkey)]

end Selection

namespace Mask

variable {mask : Mask} {members : List (String × Value)}

/-! ### Where the two agree -/

/-- An exclusive mask redacts a document to what its selection gives out. -/
theorem redact_eq_apply_of_exclusive (hx : mask.isExclusive = true) (hd : mask.HasDistinctPaths)
    (hplain : mask.NamesPlainPaths) (ho : Entries.Ordered members)
    (hp : (Value.object members).HasPlainKeys) :
    mask.redact "_" (.object members) =
      (Selection.ofMask mask).apply "_id" (.object members) := by
  have hne : mask.excluded ≠ [] := excluded_ne_nil hx
  have hremoves := removes_eq_removes_excluding hx hd
  rw [redact_object (isEmpty_eq_false hx), Selection.ofMask, if_pos hx, Selection.apply_hiding hne,
    stripValue]
  refine congrArg Value.object
    (Entries.Ordered.ext (ordered_stripMembers ho "") (ordered_stripMembers ho "") fun key => ?_)
  rw [get?_stripMembers, get?_stripMembers, isReserved_empty, if_neg Bool.false_ne_true]
  cases hget : Entries.get? members key with
  | none => simp
  | some v =>
    rcases hp.of_mem (Entries.mem_of_get? hget) with ⟨rfl, hv⟩ | ⟨hkey, hv⟩
    · -- the identifier is a scalar that the mask does not name
      have hkept : (excluding mask.excluded).removes (Path.join "" "_id") = false := by
        rw [← hremoves, Path.join_empty, removes_eq hx, get?_id_of_namesPlainPaths hplain]
        rfl
      rw [if_pos (by decide), hkept, if_neg Bool.false_ne_true, Option.map_some,
        stripValue_of_not_isContainer hv]
    · rw [hkey, if_neg Bool.false_ne_true, hremoves, Option.map_some, Option.map_some,
        stripValue_congr hremoves _ v hv]

/-- What an inclusive mask leaves under a key is what its selection shows there exactly if the mask
takes the member as a whole. -/
theorem stripped_eq_shown_iff (hx : mask.isExclusive = false) (hd : mask.HasDistinctPaths)
    {key : String} {v : Value}
    (hv : ∀ part ∈ parts v, ∀ k ∈ part.1, isReserved "_" k = false) :
    (if mask.removes key then none else some (mask.stripValue "_" key v)) =
        (if mask.included.contains key then some v
          else if v.isContainer && Selection.someBelow mask.included key then
            some (Selection.showValue mask.included key v)
          else none) ↔
      mask.TakesWhole key v := by
  rw [removes_of_inclusive hx hd, TakesWhole]
  by_cases hkey : key ∈ mask.included
  · have hwhole : mask.stripValue "_" key v = v ↔
        ∀ part ∈ v.parts, ∀ met ∈ Path.trail key part.1, met ∈ mask.included := by
      rw [stripValue_eq_self_iff]
      exact forall₂_congr fun part hpart => hides_of_inclusive hx hd (hv part hpart) key
    rw [← hwhole]
    simp [hkey]
  · have hbelow : Selection.someBelow mask.included key = false ↔
        ∀ path ∈ mask.included, Path.isBelow path key = false := by
      simp [Selection.someBelow]
    rw [← hbelow]
    cases v.isContainer <;> cases Selection.someBelow mask.included key <;> simp [hkey]

/-- An inclusive mask redacts a document to what its selection gives out exactly if it takes every
member but the identifier as a whole. -/
theorem redact_eq_apply_of_inclusive_iff (hne : mask.isEmpty = false)
    (hx : mask.isExclusive = false) (hd : mask.HasDistinctPaths) (ho : Entries.Ordered members)
    (hp : (Value.object members).HasPlainKeys) :
    mask.redact "_" (.object members) =
        (Selection.ofMask mask).apply "_id" (.object members) ↔
      ∀ member ∈ members, member.1 ≠ "_id" → mask.TakesWhole member.1 member.2 := by
  obtain ⟨shown, hshown, hordered, hget⟩ :=
    Selection.exists_apply_showing Path.segments_id (by decide) mask.included ho
  rw [redact_object hne, Selection.ofMask_of_inclusive hx, hshown, Value.object.injEq]
  have hmember : ∀ member ∈ members, member.1 ≠ "_id" →
      (Entries.get? (mask.stripMembers "_" "" members) member.1 = Entries.get? shown member.1 ↔
        mask.TakesWhole member.1 member.2) := by
    rintro ⟨key, v⟩ hm hid
    obtain ⟨hkey, hv⟩ := (hp.of_mem hm).resolve_left fun h => hid h.1
    rw [hget, if_neg hid, get?_stripMembers, Selection.get?_showMembers mask.included "" ho,
      ho.get?_of_mem hm, hkey, if_neg Bool.false_ne_true, Path.join_empty]
    exact stripped_eq_shown_iff hx hd hv
  constructor
  · intro h member hm hid
    rw [← hmember member hm hid, h]
  · intro h
    refine Entries.Ordered.ext (ordered_stripMembers ho "") hordered fun key => ?_
    by_cases hid : key = "_id"
    · rw [hid, hget, if_pos rfl, get?_stripMembers, if_pos (by decide)]
    · cases hfound : Entries.get? members key with
      | none =>
        rw [hget, if_neg hid, get?_stripMembers, Selection.get?_showMembers mask.included "" ho,
          hfound]
        simp
      | some v =>
        have hm := Entries.mem_of_get? hfound
        exact (hmember _ hm hid).2 (h _ hm hid)

/-- What an inclusive mask leaves of a document is among what its selection gives out. -/
theorem leaves_redact_sublist_of_inclusive (hne : mask.isEmpty = false)
    (hx : mask.isExclusive = false) (hd : mask.HasDistinctPaths)
    (hc : (Value.object members).IsCanonical) (hp : (Value.object members).HasPlainKeys) :
    (leaves (mask.redact "_" (.object members))).Sublist
      (leaves ((Selection.ofMask mask).apply "_id" (.object members))) := by
  rw [redact_object hne, Json.Value.leaves_object, leaves_stripMembers,
    Selection.leaves_apply _ _ hc, Selection.ofMask_of_inclusive hx]
  refine Json.Value.filter_sublist_filter fun leaf hl hkept => ?_
  -- the member that the leaf is in decides
  obtain ⟨⟨key, v⟩, hm, inner, -, rfl⟩ := Json.Value.exists_of_mem_leavesOfMembers hl
  rw [Selection.gives, Path.segments_id]
  rcases hp.of_mem hm with ⟨hid, -⟩ | ⟨hkey, -⟩
  · obtain rfl : key = "_id" := hid
    rw [Path.get?_id, hc.ordered.get?_of_mem hm]
    simp [Leaf.under]
  · have hincluded : key ∈ mask.included := by
      simp [Leaf.under, hides, hkey, removes_of_inclusive hx hd] at hkept
      exact hkept.1
    simp [Leaf.under, Selection.shows, hincluded]

/-- For a mask and a document without reserved names, but for the identifier: the redaction never
leaves a leaf that the selection of the mask does not give out. The two are the same exactly if the
mask is exclusive or takes every member as a whole. -/
theorem redact_eq_apply_iff (hne : mask.isEmpty = false) (hd : mask.HasDistinctPaths)
    (hplain : mask.NamesPlainPaths) (hc : (Value.object members).IsCanonical)
    (hp : (Value.object members).HasPlainKeys) :
    (leaves (mask.redact "_" (.object members))).Sublist
        (leaves ((Selection.ofMask mask).apply "_id" (.object members))) ∧
      (mask.redact "_" (.object members) =
          (Selection.ofMask mask).apply "_id" (.object members) ↔
        mask.isExclusive = true ∨
          ∀ member ∈ members, member.1 ≠ "_id" → mask.TakesWhole member.1 member.2) := by
  cases hx : mask.isExclusive with
  | true =>
    have heq := redact_eq_apply_of_exclusive hx hd hplain hc.ordered hp
    exact ⟨heq ▸ List.Sublist.refl _, iff_of_true heq (Or.inl rfl)⟩
  | false =>
    refine ⟨leaves_redact_sublist_of_inclusive hne hx hd hc hp, ?_⟩
    rw [redact_eq_apply_of_inclusive_iff hne hx hd hc.ordered hp]
    simp

theorem redact_eq_apply_of_phones :
    let mask : Mask := ⟨[("name", true), ("phones", true), ("phones.number", true)]⟩
    let members := [("_id", Value.string "1"), ("name", .string "Ann"),
      ("phones", .array [.object [("number", .string "2")]]), ("secret", .string "s")]
    mask.isEmpty = false ∧ mask.HasDistinctPaths ∧ mask.NamesPlainPaths ∧
      (Value.object members).IsCanonical ∧ (Value.object members).HasPlainKeys ∧
      mask.redact "_" (.object members) =
        (Selection.ofMask mask).apply "_id" (.object members) := by
  intro mask members
  have hd : mask.HasDistinctPaths := by decide
  have hplain : mask.NamesPlainPaths := by decide +kernel
  have hc : (Value.object members).IsCanonical := by decide
  have hp : (Value.object members).HasPlainKeys := by decide +kernel
  refine ⟨rfl, hd, hplain, hc, hp, (redact_eq_apply_iff rfl hd hplain hc hp).2.2 (Or.inr ?_)⟩
  decide +kernel

/-- The city that a mask includes is lost with the address, which it does not list. -/
theorem city_lost_of_redaction :
    let mask : Mask := ⟨[("address.city", true)]⟩
    let document := Value.object [("_id", .string "1"),
      ("address", .object [("city", .string "Oslo"), ("zip", .string "0150")])]
    mask.isEmpty = false ∧ mask.HasDistinctPaths ∧ mask.NamesPlainPaths ∧
      document.IsCanonical ∧ document.HasPlainKeys ∧
      mask.redact "_" document = .object [("_id", .string "1")] ∧
      (Selection.ofMask mask).apply "_id" document =
        .object [("_id", .string "1"), ("address", .object [("city", .string "Oslo")])] ∧
      mask.redact "_" document ≠ (Selection.ofMask mask).apply "_id" document := by
  intro mask document
  have hplain : mask.NamesPlainPaths := by decide +kernel
  have hp : document.HasPlainKeys := by decide +kernel
  have hredacted : mask.redact "_" document = .object [("_id", .string "1")] := rfl
  have hshown : (Selection.ofMask mask).apply "_id" document =
      .object [("_id", .string "1"), ("address", .object [("city", .string "Oslo")])] := rfl
  refine ⟨rfl, by decide, hplain, by decide, hp, hredacted, hshown, ?_⟩
  rw [hredacted, hshown]
  simp

end Mask

end RecordGuard
