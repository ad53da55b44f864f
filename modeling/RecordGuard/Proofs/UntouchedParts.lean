import RecordGuard.Proofs.SelectedLeaves

/-!
# Documents that a selection leaves alone

The parts of a value are the value itself and, at any depth, its items and the values of its
members, each with the keys that lead to it. `Selection.retains` says whether a part comes through a
selection, and `Selection.apply_eq_self_iff` that a document is given out as it is exactly if all of
its parts come through. Empty objects and arrays are parts too, so that this says more than that no
leaf is missing.
-/

namespace RecordGuard

open Json (Value)

namespace Json.Value

mutual

/-- The value and what is inside it, with the keys that lead there. -/
def parts : Value → List (List String × Value)
  | .array items => ([], .array items) :: partsOfItems items
  | .object members => ([], .object members) :: partsOfMembers members
  | .null => [([], .null)]
  | .bool b => [([], .bool b)]
  | .number n => [([], .number n)]
  | .string s => [([], .string s)]
termination_by structural v => v

/-- The parts of items. -/
def partsOfItems : List Value → List (List String × Value)
  | [] => []
  | v :: vs => parts v ++ partsOfItems vs
termination_by structural vs => vs

/-- The parts of members. -/
def partsOfMembers : List (String × Value) → List (List String × Value)
  | [] => []
  | (key, v) :: ms => (parts v).map (fun part => (key :: part.1, part.2)) ++ partsOfMembers ms
termination_by structural ms => ms

end

theorem self_mem_parts (v : Value) : ([], v) ∈ v.parts := by
  cases v <;> exact List.mem_cons_self

/-- The parts of members are those of each one, behind its key. -/
theorem forall_mem_partsOfMembers {ms : List (String × Value)} {P : List String × Value → Prop} :
    (∀ part ∈ partsOfMembers ms, P part) ↔
      ∀ member ∈ ms, ∀ part ∈ parts member.2, P (member.1 :: part.1, part.2) := by
  induction ms with
  | nil => simp [partsOfMembers]
  | cons m ms ih =>
    obtain ⟨key, v⟩ := m
    rw [partsOfMembers, List.forall_mem_append, List.forall_mem_map, ih, List.forall_mem_cons]

end Json.Value

open Json.Value (parts partsOfItems partsOfMembers self_mem_parts forall_mem_partsOfMembers)

/-! ### Stripping -/

namespace Mask

variable (mask : Mask) (reserved : String)

theorem length_stripMembers_le (path : String) (ms : List (String × Value)) :
    (mask.stripMembers reserved path ms).length ≤ ms.length := by
  have h := (mask.keys_stripMembers_sublist reserved path ms).length_le
  rwa [Entries.keys, Entries.keys, List.length_map, List.length_map] at h

mutual

/-- Stripping leaves a value as it is exactly if none of its parts is hidden. -/
theorem stripValue_eq_self_iff (path : String) : (v : Value) →
    (mask.stripValue reserved path v = v ↔
      ∀ part ∈ parts v, mask.hides reserved path part.1 = false)
  | .null => by simp [stripValue, parts, hides]
  | .bool _ => by simp [stripValue, parts, hides]
  | .number _ => by simp [stripValue, parts, hides]
  | .string _ => by simp [stripValue, parts, hides]
  | .array items => by
    have hitems := stripItems_eq_self_iff path items
    rw [stripValue, parts, List.forall_mem_cons, ← hitems, Value.array.injEq]
    simp [hides]
  | .object members => by
    have hmembers := stripMembers_eq_self_iff path members
    rw [stripValue, parts, List.forall_mem_cons, ← hmembers, Value.object.injEq]
    simp [hides]

theorem stripItems_eq_self_iff (path : String) : (vs : List Value) →
    (mask.stripItems reserved path vs = vs ↔
      ∀ part ∈ partsOfItems vs, mask.hides reserved path part.1 = false)
  | [] => by simp [stripItems, partsOfItems]
  | v :: vs => by
    rw [stripItems, partsOfItems, List.forall_mem_append, ← stripValue_eq_self_iff path v,
      ← stripItems_eq_self_iff path vs, List.cons.injEq]

theorem stripMembers_eq_self_iff (path : String) : (ms : List (String × Value)) →
    (mask.stripMembers reserved path ms = ms ↔
      ∀ part ∈ partsOfMembers ms, mask.hides reserved path part.1 = false)
  | [] => by simp [stripMembers, partsOfMembers]
  | (key, v) :: ms => by
    have hv := stripValue_eq_self_iff (Path.join path key) v
    rw [stripMembers, partsOfMembers, List.forall_mem_append, List.forall_mem_map,
      ← stripMembers_eq_self_iff path ms]
    simp only [hides]
    by_cases hr : isReserved reserved key = true
    · simp [hr]
    · by_cases hrem : mask.removes (Path.join path key) = true
      · -- the member itself is a part that is hidden
        have hlost : ¬ mask.stripMembers reserved path ms = (key, v) :: ms := fun heq => by
          have hle := mask.length_stripMembers_le reserved path ms
          rw [heq, List.length_cons] at hle
          omega
        have hpart : ∃ part, part ∈ parts v := ⟨_, self_mem_parts v⟩
        simpa [hr, hrem, hlost] using fun hnone => absurd hpart (by simpa using hnone)
      · simp [hr, hrem, hv]

end

end Mask

/-! ### Showing -/

namespace Selection

variable (paths : List String)

/-- Whether the paths show a part of the value at a path: what they show whole, and the containers
on the way to it. -/
def keeps (path : String) : List String → Bool → Bool
  | [], isContainer => isContainer
  | key :: keys, isContainer =>
    paths.contains (Path.join path key) ||
      (someBelow paths (Path.join path key) && keeps (Path.join path key) keys isContainer)

theorem length_showItems_le (path : String) (vs : List Value) :
    (showItems paths path vs).length ≤ vs.length := by
  induction vs with
  | nil => exact Nat.le_refl _
  | cons v vs ih =>
    rw [showItems]
    split_ifs
    · exact Nat.succ_le_succ ih
    · exact Nat.le_succ_of_le ih

theorem length_showMembers_le (path : String) (ms : List (String × Value)) :
    (showMembers paths path ms).length ≤ ms.length := by
  have h := (keys_showMembers_sublist paths path ms).length_le
  rwa [Entries.keys, Entries.keys, List.length_map, List.length_map] at h

/-- Members are shown as they are if each of them is. -/
theorem showMembers_eq_self_iff_forall (path : String) (ms : List (String × Value)) :
    showMembers paths path ms = ms ↔
      ∀ member ∈ ms, showMembers paths path [member] = [member] := by
  induction ms with
  | nil => simp [showMembers]
  | cons m ms ih =>
    obtain ⟨key, v⟩ := m
    rw [showMembers_cons, List.forall_mem_cons, ← ih]
    constructor
    · intro h
      -- neither side is longer than what it comes from, so that both have all of their entries
      have hone := length_showMembers_le paths path [(key, v)]
      have hrest := length_showMembers_le paths path ms
      have hlength := congrArg List.length h
      rw [List.length_singleton] at hone
      rw [List.length_append, List.length_cons] at hlength
      have hsplit : showMembers paths path [(key, v)] ++ showMembers paths path ms =
          [(key, v)] ++ ms := h
      refine List.append_inj hsplit ?_
      rw [List.length_singleton]
      omega
    · rintro ⟨hone, hrest⟩
      rw [hone, hrest]
      rfl

mutual

/-- Of an object or an array the paths show everything exactly if they keep all of its parts. -/
theorem showValue_eq_self_iff (path : String) : (v : Value) → v.isContainer = true →
    (showValue paths path v = v ↔
      ∀ part ∈ parts v, keeps paths path part.1 part.2.isContainer = true)
  | .array items, hv => by
    have hitems := showItems_eq_self_iff path items
    rw [showValue, parts, List.forall_mem_cons, ← hitems, Value.array.injEq]
    simp [keeps, hv]
  | .object members, hv => by
    have hmembers := showMembers_eq_self_iff path members
    rw [showValue, parts, List.forall_mem_cons, ← hmembers, Value.object.injEq]
    simp [keeps, hv]

theorem showItems_eq_self_iff (path : String) : (vs : List Value) →
    (showItems paths path vs = vs ↔
      ∀ part ∈ partsOfItems vs, keeps paths path part.1 part.2.isContainer = true)
  | [] => by simp [showItems, partsOfItems]
  | v :: vs => by
    rw [showItems, partsOfItems, List.forall_mem_append, ← showItems_eq_self_iff path vs]
    cases hv : v.isContainer with
    | true => rw [if_pos rfl, ← showValue_eq_self_iff path v hv, List.cons.injEq]
    | false =>
      rw [if_neg Bool.false_ne_true]
      constructor
      · intro h
        have hle := length_showItems_le paths path vs
        rw [h, List.length_cons] at hle
        omega
      · rintro ⟨hparts, -⟩
        have hself := hparts _ (self_mem_parts v)
        rw [keeps, hv] at hself
        cases hself

theorem showMembers_eq_self_iff (path : String) : (ms : List (String × Value)) →
    (showMembers paths path ms = ms ↔
      ∀ part ∈ partsOfMembers ms, keeps paths path part.1 part.2.isContainer = true)
  | [] => by simp [showMembers, partsOfMembers]
  | (key, v) :: ms => by
    rw [showMembers, partsOfMembers, List.forall_mem_append, List.forall_mem_map,
      ← showMembers_eq_self_iff path ms]
    simp only [keeps]
    cases hc : paths.contains (Path.join path key) with
    | true => simp
    | false =>
      cases hshown : v.isContainer && someBelow paths (Path.join path key) with
      | true =>
        obtain ⟨hv, hb⟩ := (Bool.and_eq_true_iff ..).1 hshown
        have hvalue := showValue_eq_self_iff (Path.join path key) v hv
        simp [hb, hvalue]
      | false =>
        rw [if_neg Bool.false_ne_true, if_neg Bool.false_ne_true]
        constructor
        · intro h
          have hle := length_showMembers_le paths path ms
          rw [h, List.length_cons] at hle
          omega
        · rintro ⟨hparts, -⟩
          have hself := hparts _ (self_mem_parts v)
          simp only [keeps, Bool.false_or] at hself
          rw [Bool.and_comm, hself] at hshown
          cases hshown

end

/-! ### The identifier -/

theorem showMembers_append (path : String) (ms ns : List (String × Value)) :
    showMembers paths path (ms ++ ns) = showMembers paths path ms ++ showMembers paths path ns := by
  induction ms with
  | nil => rfl
  | cons m ms ih =>
    obtain ⟨key, v⟩ := m
    rw [List.cons_append, showMembers_cons, ih, ← List.append_assoc, ← showMembers_cons]

/-- Shown members into which one is put are the members as they were if this one is what stood
there and every other one is shown. -/
theorem insert_showMembers_eq_self_iff (path : String) {ms : List (String × Value)}
    (ho : Entries.Ordered ms) {key : String} {v : Value} (hv : Entries.get? ms key = some v)
    (child : Value) :
    Entries.insert (showMembers paths path ms) key child = ms ↔
      child = v ∧ ∀ member ∈ ms, member.1 ≠ key → showMembers paths path [member] = [member] := by
  obtain ⟨before, after, rfl⟩ := List.append_of_mem (Entries.mem_of_get? hv)
  obtain ⟨-, hback, hcross⟩ := List.pairwise_append.1 ho
  have hbefore : ∀ member ∈ before, member.1 < key := fun member hm =>
    hcross member hm (key, v) List.mem_cons_self
  have hafter : ∀ member ∈ after, key < member.1 := (List.pairwise_cons.1 hback).1
  have hshownBefore : ∀ entry ∈ showMembers paths path before, entry.1 < key := fun entry he => by
    obtain ⟨member, hm, heq⟩ := exists_of_mem_showMembers paths he
    exact heq ▸ hbefore member hm
  have hshownAfter : ∀ entry ∈ showMembers paths path after, key < entry.1 := fun entry he => by
    obtain ⟨member, hm, heq⟩ := exists_of_mem_showMembers paths he
    exact heq ▸ hafter member hm
  -- whatever was shown of the member, it is replaced
  have hinsert : Entries.insert (showMembers paths path (before ++ (key, v) :: after)) key child =
      showMembers paths path before ++ (key, child) :: showMembers paths path after := by
    rw [showMembers_append, Entries.insert_append_of_lt hshownBefore, showMembers]
    split_ifs
    · rw [Entries.insert, if_pos rfl]
    · rw [Entries.insert, if_pos rfl]
    · rw [Entries.insert_of_lt hshownAfter]
  have hothers : (∀ member ∈ before ++ (key, v) :: after, member.1 ≠ key →
        showMembers paths path [member] = [member]) ↔
      showMembers paths path before = before ∧ showMembers paths path after = after := by
    rw [List.forall_mem_append, List.forall_mem_cons,
      showMembers_eq_self_iff_forall paths path before,
      showMembers_eq_self_iff_forall paths path after]
    constructor
    · rintro ⟨hb, -, ha⟩
      exact ⟨fun member hm => hb member hm (String.ne_of_lt (hbefore member hm)),
        fun member hm => ha member hm (String.ne_of_lt (hafter member hm)).symm⟩
    · rintro ⟨hb, ha⟩
      exact ⟨fun member hm _ => hb member hm, fun hne => absurd rfl hne,
        fun member hm _ => ha member hm⟩
  rw [hinsert, hothers]
  constructor
  · intro h
    have hle := length_showMembers_le paths path before
    have hle' := length_showMembers_le paths path after
    have hlength := congrArg List.length h
    simp only [List.length_append, List.length_cons] at hlength
    obtain ⟨hb, hrest⟩ := List.append_inj h (by omega)
    obtain ⟨hentry, ha⟩ := List.cons.inj hrest
    exact ⟨congrArg Prod.snd hentry, hb, ha⟩
  · rintro ⟨rfl, hb, ha⟩
    rw [hb, ha]

/-- Whether one of two lists of keys starts with the other. -/
def onOneWay (keys others : List String) : Bool :=
  keys.isPrefixOf others || others.isPrefixOf keys

theorem onOneWay_cons_self (key : String) (keys others : List String) :
    onOneWay (key :: keys) (key :: others) = onOneWay keys others := by
  rw [onOneWay, List.isPrefixOf_cons_cons_self, List.isPrefixOf_cons_cons_self, onOneWay]

theorem onOneWay_cons_of_ne {key other : String} (h : other ≠ key) (keys others : List String) :
    onOneWay (key :: keys) (other :: others) = false := by
  simp [onOneWay, List.isPrefixOf, h, Ne.symm h]

theorem keeps_nil_cons (path key : String) (keys : List String) (isContainer : Bool) :
    keeps [] path (key :: keys) isContainer = false := by
  simp [keeps, someBelow]

/-- A shown object in which what it has behind some keys is set is the object as it was exactly if
all its parts are kept, but for those on the way there and behind. -/
theorem setSegments?_eq_self_iff {members : List (String × Value)}
    (h : (Value.object members).IsCanonical) (path : String) {keys : List String} (hk : keys ≠ [])
    {w : Value} (hw : Path.getSegments? (.object members) keys = some w) :
    ∃ result, Path.setSegments? w keys (.object (showMembers paths path members)) = some result ∧
      (result = .object members ↔ ∀ part ∈ partsOfMembers members,
        (keeps paths path part.1 part.2.isContainer || onOneWay keys part.1) = true) := by
  induction keys generalizing paths path members with
  | nil => exact absurd rfl hk
  | cons key keys ih =>
    obtain ⟨v, hv, hw⟩ := Option.bind_eq_some_iff.1 hw
    have hget : Entries.get? members key = some v := hv
    suffices ∃ child, Path.setSegments? w keys
        ((Entries.get? (showMembers paths path members) key).getD .null) = some child ∧
        (child = v ↔ ∀ part ∈ parts v,
          (keeps paths path (key :: part.1) part.2.isContainer || onOneWay keys part.1) = true) by
      obtain ⟨child, hset, hchild⟩ := this
      refine ⟨.object (Entries.insert (showMembers paths path members) key child), ?_, ?_⟩
      · simp only [Path.setSegments?, Path.membersOrNull?, hset, Option.bind_eq_bind,
          Option.bind_some, Option.pure_def]
      · rw [Value.object.injEq, insert_showMembers_eq_self_iff paths path h.ordered hget, hchild,
          forall_mem_partsOfMembers]
        constructor
        · rintro ⟨hway, hothers⟩ ⟨k, u⟩ hm part hpart
          by_cases hk : k = key
          · subst hk
            rw [h.ordered.get?_of_mem hm, Option.some.injEq] at hget
            rw [onOneWay_cons_self]
            exact hway part (hget ▸ hpart)
          · have hone := (showMembers_eq_self_iff paths path _).1 (hothers (k, u) hm hk)
            rw [onOneWay_cons_of_ne hk, Bool.or_false]
            exact forall_mem_partsOfMembers.1 hone _ (List.mem_singleton_self _) part hpart
        · intro hall
          constructor
          · intro part hpart
            rw [← onOneWay_cons_self key]
            exact hall _ (Entries.mem_of_get? hget) part hpart
          · intro member hm hk
            refine (showMembers_eq_self_iff paths path _).2 (forall_mem_partsOfMembers.2 ?_)
            intro other ho part hpart
            rw [List.mem_singleton.1 ho] at hpart ⊢
            have hpart := hall member hm part hpart
            rwa [onOneWay_cons_of_ne hk, Bool.or_false] at hpart
    cases keys with
    | nil =>
      -- the whole member is set, with all of its parts
      cases hw
      exact ⟨w, rfl, by simp [onOneWay]⟩
    | cons k keys =>
      -- what is already shown of the member decides what the rest of the keys is set in
      cases v with
      | object inner =>
        rw [get?_showMembers paths path h.ordered, hget, Option.bind_some]
        simp only [keeps]
        cases hc : paths.contains (Path.join path key) with
        | true =>
          exact ⟨_, setSegments?_of_getSegments? (h.get? hget) hw, by simp⟩
        | false =>
          cases hb : someBelow paths (Path.join path key) with
          | true =>
            obtain ⟨child, hset, hchild⟩ :=
              ih paths (h.get? hget) (Path.join path key) (List.cons_ne_nil k keys) hw
            refine ⟨child, hset, ?_⟩
            rw [hchild, parts, List.forall_mem_cons]
            simp [onOneWay]
          | false =>
            -- nothing is shown of the member, so that the objects on the way are made anew
            obtain ⟨child, hset, hchild⟩ :=
              ih [] (h.get? hget) (Path.join path key) (List.cons_ne_nil k keys) hw
            rw [showMembers_nil] at hset
            refine ⟨child, hset, ?_⟩
            rw [hchild, parts, List.forall_mem_cons]
            simp only [forall_mem_partsOfMembers, keeps_nil_cons]
            simp [onOneWay]
      | _ => cases hw

/-! ### Selections -/

/-- Whether a part of a document comes through a selection. -/
def retains (idField : String) (document : Value) (part : List String × Value) : Selection → Bool
  | .showing paths =>
    keeps paths "" part.1 part.2.isContainer ||
      (idField != "" && (Path.get? document idField).isSome &&
        onOneWay (Path.segments idField) part.1)
  | .hiding paths => !(Path.trail "" part.1).any paths.contains

/-- An object is given out as it is exactly if all its parts come through. -/
theorem apply_eq_self_iff (selection : Selection) (idField : String)
    {members : List (String × Value)} (h : (Value.object members).IsCanonical) :
    selection.apply idField (.object members) = .object members ↔
      ∀ part ∈ parts (.object members),
        selection.retains idField (.object members) part = true := by
  rcases selection with paths | paths
  · have hshown := showValue_eq_self_iff paths "" (.object members) rfl
    simp only [apply, retains]
    cases hid : Path.get? (.object members) idField with
    | none => simpa using hshown
    | some id =>
      by_cases hempty : idField = ""
      · simpa [Path.set?, hempty] using hshown
      · obtain ⟨result, hset, hresult⟩ :=
          setSegments?_eq_self_iff paths h "" (Path.segments_ne_nil idField) hid
        have hwhole : Path.set? (showValue paths "" (.object members)) idField id =
            some result := by
          rw [Path.set?, if_neg hempty]
          exact hset
        have hnonempty : (idField != "") = true := bne_iff_ne.2 hempty
        dsimp only
        rw [hwhole, Option.getD_some, hresult, parts, List.forall_mem_cons]
        simp [hnonempty, onOneWay]
  · by_cases hne : paths = []
    · subst hne
      simp [apply, retains, Mask.ofList, Mask.strip, Mask.isEmpty, Mask.empty]
    · rw [apply_hiding hne, Mask.stripValue_eq_self_iff]
      simp [hides_excluding hne, retains]

end Selection

end RecordGuard
