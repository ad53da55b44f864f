import RecordGuard.Proofs.Leaves

/-!
# The leaves that a selection gives out

A selection that lists what it shows puts the identifier back into the document, which adds the
leaves behind the keys of the identifier to those that are shown (`leaves_setSegments?`).
`Selection.leaves_apply` says of both kinds of selections which leaves they give out.
-/

namespace RecordGuard.Selection

open Json (Value)
open Json.Value (leaves leavesOfMembers)

variable (paths : List String)

/-! ### The identifier -/

theorem showMembers_cons (path key : String) (v : Value) (ms : List (String × Value)) :
    showMembers paths path ((key, v) :: ms) =
      showMembers paths path [(key, v)] ++ showMembers paths path ms := by
  rw [showMembers, showMembers]
  split_ifs <;> rfl

theorem keys_showMembers_sublist (path : String) (ms : List (String × Value)) :
    (Entries.keys (showMembers paths path ms)).Sublist (Entries.keys ms) := by
  induction ms with
  | nil => exact List.Sublist.refl _
  | cons m ms ih =>
    obtain ⟨key, v⟩ := m
    rw [showMembers]
    split_ifs
    · exact ih.cons_cons key
    · exact ih.cons_cons key
    · exact ih.cons key

theorem exists_of_mem_showMembers {path : String} {ms : List (String × Value)}
    {entry : String × Value} (h : entry ∈ showMembers paths path ms) :
    ∃ member ∈ ms, member.1 = entry.1 :=
  List.mem_map.1 ((keys_showMembers_sublist paths path ms).subset (List.mem_map_of_mem h))

theorem get?_showMembers (path : String) {ms : List (String × Value)} (ho : Entries.Ordered ms)
    (key : String) :
    Entries.get? (showMembers paths path ms) key =
      (Entries.get? ms key).bind fun v =>
        if paths.contains (Path.join path key) then some v
        else if v.isContainer && someBelow paths (Path.join path key) then
          some (showValue paths (Path.join path key) v)
        else none := by
  induction ms with
  | nil => rfl
  | cons m ms ih =>
    obtain ⟨k, v⟩ := m
    have htail := ih ho.tail
    by_cases hk : k = key
    · subst hk
      rw [ho.get?_head] at htail
      rw [Entries.get?_cons, if_pos rfl, Option.bind_some, showMembers]
      split_ifs
      · exact if_pos rfl
      · exact if_pos rfl
      · exact htail
    · rw [Entries.get?_cons, if_neg hk, ← htail, showMembers]
      split_ifs
      · exact if_neg hk
      · exact if_neg hk
      · rfl

/-- No leaf of members under greater keys starts with a key. -/
theorem isPrefixOf_eq_false {key : String} {keys : List String} {ms : List (String × Value)}
    (h : ∀ member ∈ ms, member.1 ≠ key) {leaf : Leaf} (hl : leaf ∈ leavesOfMembers ms) :
    (key :: keys).isPrefixOf leaf.1 = false := by
  obtain ⟨member, hm, inner, -, rfl⟩ := Json.Value.exists_of_mem_leavesOfMembers hl
  have hne : (key == member.1) = false := beq_eq_false_iff_ne.2 (h member hm).symm
  rw [Leaf.under, List.isPrefixOf, hne]
  rfl

theorem leavesOfMembers_showMembers_of_ne (path : String) {key : String} (keys : List String)
    {ms : List (String × Value)} (h : ∀ member ∈ ms, member.1 ≠ key) :
    leavesOfMembers (showMembers paths path ms) = (leavesOfMembers ms).filter fun leaf =>
      shows paths path leaf.1 || (key :: keys).isPrefixOf leaf.1 := by
  rw [leaves_showMembers]
  refine List.filter_congr fun leaf hl => ?_
  rw [isPrefixOf_eq_false h hl, Bool.or_false]

/-- Members in which one is put in its place keep the leaves that are shown and those of this
member. -/
theorem leavesOfMembers_insert (path : String) {key : String} {keys : List String} {v child : Value}
    (hchild : leaves child = (leaves v).filter fun leaf =>
      shows paths path (key :: leaf.1) || keys.isPrefixOf leaf.1)
    {ms : List (String × Value)} (ho : Entries.Ordered ms) (hv : Entries.get? ms key = some v) :
    leavesOfMembers (Entries.insert (showMembers paths path ms) key child) =
      (leavesOfMembers ms).filter fun leaf =>
        shows paths path leaf.1 || (key :: keys).isPrefixOf leaf.1 := by
  induction ms with
  | nil => cases hv
  | cons m ms ih =>
    obtain ⟨k, w⟩ := m
    have hgreater : ∀ entry ∈ showMembers paths path ms, k < entry.1 := by
      intro entry he
      obtain ⟨member, hm, heq⟩ := exists_of_mem_showMembers paths he
      exact heq ▸ ho.head_lt member hm
    by_cases hk : k = key
    · subst hk
      rw [Entries.get?_cons, if_pos rfl, Option.some.injEq] at hv
      subst hv
      -- whatever was shown of the member, it is replaced
      have hinsert : Entries.insert (showMembers paths path ((k, w) :: ms)) k child =
          (k, child) :: showMembers paths path ms := by
        rw [showMembers]
        split_ifs
        · rw [Entries.insert, if_pos rfl]
        · rw [Entries.insert, if_pos rfl]
        · exact Entries.insert_of_lt hgreater child
      have hne : ∀ member ∈ ms, member.1 ≠ k := fun member hm =>
        (String.ne_of_lt (ho.head_lt member hm)).symm
      rw [hinsert, Json.Value.leavesOfMembers, Json.Value.leavesOfMembers, List.filter_append,
        leavesOfMembers_showMembers_of_ne paths path keys hne,
        Json.Value.filter_map_under fun ks => shows paths path ks || (k :: keys).isPrefixOf ks,
        hchild]
      simp only [List.isPrefixOf_cons_cons_self]
    · rw [Entries.get?_cons, if_neg hk] at hv
      have hlt : k < key := ho.head_lt _ (Entries.mem_of_get? hv)
      have hfront : ∀ entry ∈ showMembers paths path [(k, w)], entry.1 < key := by
        intro entry he
        obtain ⟨member, hm, heq⟩ := exists_of_mem_showMembers paths he
        rw [← heq, List.mem_singleton.1 hm]
        exact hlt
      have hne : ∀ member ∈ [(k, w)], member.1 ≠ key := fun member hm => by
        rw [List.mem_singleton.1 hm]
        exact hk
      have hsplit : leavesOfMembers ((k, w) :: ms) =
          leavesOfMembers [(k, w)] ++ leavesOfMembers ms :=
        Json.Value.leavesOfMembers_append [(k, w)] ms
      rw [showMembers_cons, Entries.insert_append_of_lt hfront, Json.Value.leavesOfMembers_append,
        ih ho.tail hv, leavesOfMembers_showMembers_of_ne paths path keys hne, hsplit,
        List.filter_append]

theorem showMembers_nil (path : String) (ms : List (String × Value)) :
    showMembers [] path ms = [] := by
  induction ms with
  | nil => rfl
  | cons m ms ih =>
    rw [showMembers, ih]
    simp [someBelow]

theorem shows_nil (path : String) (keys : List String) : shows [] path keys = false := by
  induction keys generalizing path with
  | nil => rfl
  | cons key keys ih =>
    rw [shows, ih]
    simp [someBelow]

/-- Setting the value that is there changes nothing. -/
theorem setSegments?_of_getSegments? {v : Value} (h : v.IsCanonical) {keys : List String}
    {w : Value} (hw : Path.getSegments? v keys = some w) : Path.setSegments? w keys v = some v := by
  induction keys generalizing v with
  | nil =>
    cases hw
    rfl
  | cons key keys ih =>
    cases v with
    | object members =>
      obtain ⟨child, hchild, hw⟩ := Option.bind_eq_some_iff.1 hw
      have hget : Entries.get? members key = some child := hchild
      have hset := ih (h.get? hget) hw
      simp only [Path.setSegments?, Path.membersOrNull?, hget, Option.getD_some, hset,
        Option.bind_eq_bind, Option.bind_some, Option.pure_def]
      rw [Entries.insert_of_get? hget h.ordered]
    | _ => cases hw

/-- A shown object in which what the document has behind some keys is set keeps the leaves that are
shown and those behind the keys. -/
theorem leaves_setSegments? {members : List (String × Value)}
    (h : (Value.object members).IsCanonical) (path : String) {keys : List String} (hk : keys ≠ [])
    {w : Value} (hw : Path.getSegments? (.object members) keys = some w) :
    ∃ result, Path.setSegments? w keys (.object (showMembers paths path members)) = some result ∧
      leaves result = (leavesOfMembers members).filter fun leaf =>
        shows paths path leaf.1 || keys.isPrefixOf leaf.1 := by
  induction keys generalizing paths path members with
  | nil => exact absurd rfl hk
  | cons key keys ih =>
    obtain ⟨v, hv, hw⟩ := Option.bind_eq_some_iff.1 hw
    have hget : Entries.get? members key = some v := hv
    suffices ∃ child, Path.setSegments? w keys
        ((Entries.get? (showMembers paths path members) key).getD .null) = some child ∧
        leaves child = (leaves v).filter fun leaf =>
          shows paths path (key :: leaf.1) || keys.isPrefixOf leaf.1 by
      obtain ⟨child, hset, hchild⟩ := this
      refine ⟨.object (Entries.insert (showMembers paths path members) key child), ?_,
        leavesOfMembers_insert paths path hchild h.ordered hget⟩
      simp only [Path.setSegments?, Path.membersOrNull?, hset, Option.bind_eq_bind,
        Option.bind_some, Option.pure_def]
    cases keys with
    | nil =>
      -- the whole member is set, with all of its leaves
      cases hw
      exact ⟨w, rfl, by simp [List.filter_eq_self.2]⟩
    | cons k keys =>
      -- what is already shown of the member decides what the rest of the keys is set in
      cases v with
      | object inner =>
        rw [get?_showMembers paths path h.ordered, hget, Option.bind_some]
        simp only [shows]
        cases hc : paths.contains (Path.join path key) with
        | true =>
          exact ⟨_, setSegments?_of_getSegments? (h.get? hget) hw,
            by simp [List.filter_eq_self.2]⟩
        | false =>
          cases hb : someBelow paths (Path.join path key) with
          | true =>
            obtain ⟨child, hset, hchild⟩ :=
              ih paths (h.get? hget) (Path.join path key) (List.cons_ne_nil k keys) hw
            exact ⟨child, hset, by simpa using hchild⟩
          | false =>
            -- nothing is shown of the member, so that the objects on the way are made anew
            obtain ⟨child, hset, hchild⟩ :=
              ih [] (h.get? hget) (Path.join path key) (List.cons_ne_nil k keys) hw
            rw [showMembers_nil] at hset
            simp only [shows_nil] at hchild
            exact ⟨child, hset, by simpa using hchild⟩
      | _ => cases hw

/-! ### Selections -/

/-- Without reserved keys, what is hidden by excluded paths is what lies on or behind one of
them. -/
theorem hides_excluding {paths : List String} (hne : paths ≠ []) (path : String)
    (keys : List String) :
    (Mask.excluding paths).hides "" path keys = (Path.trail path keys).any paths.contains := by
  induction keys generalizing path with
  | nil => rfl
  | cons key keys ih =>
    rw [Mask.hides, Path.trail, List.any_cons, Mask.removes_excluding hne, ih]
    rfl

/-- What a selection that hides paths gives out is what stripping leaves. -/
theorem apply_hiding {paths : List String} (hne : paths ≠ []) (idField : String)
    (document : Value) :
    (Selection.hiding paths).apply idField document =
      (Mask.excluding paths).stripValue "" "" document := by
  have hempty : (Mask.excluding paths).isEmpty = false :=
    Mask.isEmpty_eq_false (Mask.isExclusive_excluding hne)
  show ((Mask.excluding paths).strip "" document).1 = _
  rw [Mask.strip, hempty, if_neg Bool.false_ne_true]

/-- Whether a selection gives out what the keys lead to in a document. -/
def gives (idField : String) (document : Value) (keys : List String) : Selection → Bool
  | .showing paths =>
    shows paths "" keys ||
      (idField != "" && (Path.get? document idField).isSome &&
        (Path.segments idField).isPrefixOf keys)
  | .hiding paths => !(Path.trail "" keys).any paths.contains

/-- What is given out of an object are the leaves that the selection gives out, in their order. -/
theorem leaves_apply (selection : Selection) (idField : String) {members : List (String × Value)}
    (h : (Value.object members).IsCanonical) :
    leaves (selection.apply idField (.object members)) =
      (leavesOfMembers members).filter fun leaf =>
        selection.gives idField (.object members) leaf.1 := by
  rcases selection with paths | paths
  · have hshown : leaves (showValue paths "" (.object members)) =
        (leavesOfMembers members).filter fun leaf => shows paths "" leaf.1 :=
      leaves_showMembers paths "" members
    simp only [apply, gives]
    cases hid : Path.get? (.object members) idField with
    | none => simpa using hshown
    | some id =>
      by_cases hempty : idField = ""
      · simpa [Path.set?, hempty] using hshown
      · obtain ⟨result, hset, hleaves⟩ :=
          leaves_setSegments? paths h "" (Path.segments_ne_nil idField) hid
        have hresult : Path.set? (showValue paths "" (.object members)) idField id =
            some result := by
          rw [Path.set?, if_neg hempty]
          exact hset
        have hnonempty : (idField != "") = true := bne_iff_ne.2 hempty
        dsimp only
        rw [hresult, Option.getD_some, hleaves]
        simp [hnonempty]
  · by_cases hne : paths = []
    · subst hne
      simp [apply, gives, Mask.ofList, Mask.strip, Mask.isEmpty, Mask.empty, List.filter_eq_self.2]
    · rw [apply_hiding hne, Mask.leaves_stripValue]
      simp only [hides_excluding hne, gives, Json.Value.leaves_object]

end RecordGuard.Selection
