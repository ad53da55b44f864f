import RecordGuard.Proofs.Canonical

/-!
# Setting and taking out at paths

A value can be set at a path unless something other than an object or a null stands on the way
(`Path.exists_assign_eq_error_iff`). An update in place finds this out only on its way down, when it
could have put objects in the document already; but behind a member that it has made nothing can be
in the way, so that an update that fails has changed nothing (`Path.assignSegments_of_isBlocked`).

After setting, the value is what stands at the path; after taking out, nothing does. Both leave
alone what stands at paths that do not lie on each other's way (`Path.Apart`), and what was taken
out can be put back (`Path.assignSegments_takeSegments`).
-/

namespace RecordGuard.Path

open Json (Value)
open Json.Value (IsCanonical)

/-! ### On the way to a path -/

/-- A value that is neither an object nor a null. -/
def IsObstacle (v : Value) : Prop := v.isObject = false ∧ v.isNull = false

/-- Some keys that lead to less than the end lead to an obstacle. -/
def IsBlockedAlong (keys : List String) (v : Value) : Prop :=
  ∃ front, front <+: keys ∧ front ≠ keys ∧ ∃ w, getSegments? v front = some w ∧ IsObstacle w

/-- Two lists of keys of which neither begins with the other. -/
def Diverge (keys others : List String) : Prop := ¬keys <+: others ∧ ¬others <+: keys

theorem membersOrNull?_eq_none_iff {v : Value} : membersOrNull? v = none ↔ IsObstacle v := by
  cases v <;> simp [membersOrNull?, IsObstacle, Value.isObject, Value.isNull]

theorem member?_of_membersOrNull? {v : Value} {members : Entries Value}
    (h : membersOrNull? v = some members) (key : String) :
    v.member? key = Entries.get? members key := by
  cases v <;> cases h <;> rfl

theorem not_isBlockedAlong_nil (v : Value) : ¬IsBlockedAlong [] v := by
  rintro ⟨front, hfront, hne, -⟩
  exact hne (List.prefix_nil.1 hfront)

theorem isBlockedAlong_cons_iff {key : String} {keys : List String} {v : Value} :
    IsBlockedAlong (key :: keys) v ↔
      IsObstacle v ∨ ∃ child, v.member? key = some child ∧ IsBlockedAlong keys child := by
  constructor
  · rintro ⟨front, hfront, hne, w, hw, hobstacle⟩
    cases front with
    | nil =>
      cases hw
      exact .inl hobstacle
    | cons first front =>
      obtain ⟨rfl, hrest⟩ := List.cons_prefix_cons.1 hfront
      obtain ⟨child, hchild, hw⟩ := Option.bind_eq_some_iff.1 hw
      exact .inr ⟨child, hchild, front, hrest, fun heq => hne (heq ▸ rfl), w, hw, hobstacle⟩
  · rintro (hobstacle | ⟨child, hchild, front, hfront, hne, w, hw, hobstacle⟩)
    · exact ⟨[], List.nil_prefix, (List.cons_ne_nil _ _).symm, v, rfl, hobstacle⟩
    · refine ⟨key :: front, (List.prefix_cons_inj key).2 hfront, fun heq => hne ?_, w, ?_,
        hobstacle⟩
      · exact (List.cons.inj heq).2
      · rw [getSegments?_cons, hchild]
        exact hw

/-- Nothing is in the way behind a null. -/
theorem not_isBlockedAlong_null (keys : List String) : ¬IsBlockedAlong keys .null := by
  cases keys with
  | nil => exact not_isBlockedAlong_nil _
  | cons key keys =>
    rw [isBlockedAlong_cons_iff]
    rintro (⟨-, hnull⟩ | ⟨child, hchild, -⟩)
    · cases hnull
    · cases hchild

/-- What stands under a key, or a null, is in the way exactly if something stands there that is. -/
theorem isBlockedAlong_getD_iff {members : Entries Value} {key : String} {keys : List String} :
    IsBlockedAlong keys ((Entries.get? members key).getD .null) ↔
      ∃ child, Entries.get? members key = some child ∧ IsBlockedAlong keys child := by
  cases Entries.get? members key with
  | none => simp [not_isBlockedAlong_null]
  | some child => simp

/-- Lists that begin with the same key diverge behind it. -/
theorem diverge_cons_cons_iff {key other : String} {keys others : List String} :
    Diverge (key :: keys) (other :: others) ↔ (key = other → Diverge keys others) := by
  by_cases h : key = other
  · simp [Diverge, h]
  · simp [Diverge, h, Ne.symm h]

theorem not_diverge_nil_left (others : List String) : ¬Diverge [] others :=
  fun h => h.1 List.nil_prefix

theorem not_diverge_nil_right (keys : List String) : ¬Diverge keys [] :=
  fun h => h.2 List.nil_prefix

/-! ### Setting -/

variable {value v : Value} {keys : List String}

theorem assignSegments_cons {members : Entries Value} (h : membersOrNull? v = some members)
    (value : Value) (key : String) (keys : List String) :
    assignSegments value (key :: keys) v =
      let (done, child) := assignSegments value keys ((Entries.get? members key).getD .null)
      (done, .object (Entries.insert members key child)) := by
  rw [assignSegments, h]

theorem assignSegments_of_isObstacle (h : IsObstacle v) (value : Value) (key : String)
    (keys : List String) : assignSegments value (key :: keys) v = (false, v) := by
  rw [assignSegments, membersOrNull?_eq_none_iff.2 h]

theorem assignSegments_fst_eq_false_iff :
    (assignSegments value keys v).1 = false ↔ IsBlockedAlong keys v := by
  induction keys generalizing v with
  | nil => simp [assignSegments, not_isBlockedAlong_nil]
  | cons key keys ih =>
    cases h : membersOrNull? v with
    | none =>
      have hobstacle := membersOrNull?_eq_none_iff.1 h
      rw [assignSegments_of_isObstacle hobstacle, isBlockedAlong_cons_iff]
      simp [hobstacle]
    | some members =>
      have hfree : ¬IsObstacle v := by
        rw [← membersOrNull?_eq_none_iff, h]
        exact Option.some_ne_none members
      rw [assignSegments_cons h, isBlockedAlong_cons_iff, member?_of_membersOrNull? h,
        ← isBlockedAlong_getD_iff, ← ih]
      simp [hfree]

/-- An update that fails has changed nothing. -/
theorem assignSegments_of_isBlocked (hv : v.IsCanonical) (h : IsBlockedAlong keys v) :
    assignSegments value keys v = (false, v) := by
  induction keys generalizing v with
  | nil => exact absurd h (not_isBlockedAlong_nil v)
  | cons key keys ih =>
    rcases isBlockedAlong_cons_iff.1 h with hobstacle | ⟨child, hchild, hblocked⟩
    · exact assignSegments_of_isObstacle hobstacle value key keys
    · cases v with
      | object members =>
        -- the member is there, so that no object has been made for it
        have hget : Entries.get? members key = some child := hchild
        rw [assignSegments_cons rfl, hget, Option.getD_some, ih (hv.get? hget) hblocked]
        dsimp only
        rw [Entries.insert_of_get? hget hv.ordered]
      | _ => cases hchild

/-- What has been set stands at the end of the keys. -/
theorem getSegments?_assignSegments (h : ¬IsBlockedAlong keys v) :
    getSegments? (assignSegments value keys v).2 keys = some value := by
  induction keys generalizing v with
  | nil => rfl
  | cons key keys ih =>
    rw [isBlockedAlong_cons_iff, not_or, ← membersOrNull?_eq_none_iff] at h
    obtain ⟨hmembers, hchild⟩ := h
    obtain ⟨members, hmembers⟩ := Option.ne_none_iff_exists'.1 hmembers
    rw [member?_of_membersOrNull? hmembers, ← isBlockedAlong_getD_iff] at hchild
    rw [assignSegments_cons hmembers, getSegments?_cons]
    simp only [Value.member?, Value.members?, Option.bind_some, Entries.get?_insert, if_true]
    exact ih hchild

/-- Setting changes nothing at the end of keys that diverge. -/
theorem getSegments?_assignSegments_of_diverge {others : List String} (h : Diverge keys others) :
    getSegments? (assignSegments value keys v).2 others = getSegments? v others := by
  induction keys generalizing v others with
  | nil => exact absurd h (not_diverge_nil_left others)
  | cons key keys ih =>
    cases others with
    | nil => exact absurd h (not_diverge_nil_right (key :: keys))
    | cons other others =>
      rw [diverge_cons_cons_iff] at h
      cases hmembers : membersOrNull? v with
      | none => rw [assignSegments_of_isObstacle (membersOrNull?_eq_none_iff.1 hmembers)]
      | some members =>
        rw [assignSegments_cons hmembers, getSegments?_cons, getSegments?_cons,
          member?_of_membersOrNull? hmembers]
        simp only [Value.member?, Value.members?, Option.bind_some, Entries.get?_insert]
        by_cases hkey : key = other
        · subst hkey
          rw [if_pos rfl, Option.bind_some, ih (h rfl)]
          cases Entries.get? members key with
          | some child => rfl
          | none =>
            -- the diverging keys go on, and nothing is found in what is missing
            cases others with
            | nil => exact absurd (h rfl) (not_diverge_nil_right keys)
            | cons next others => rfl
        · rw [if_neg hkey]

/-- The new document is the one that setting in place leaves. -/
theorem setSegments?_eq (value : Value) (keys : List String) (v : Value) :
    setSegments? value keys v =
      if (assignSegments value keys v).1 then some (assignSegments value keys v).2 else none := by
  induction keys generalizing v with
  | nil => rfl
  | cons key keys ih =>
    rw [setSegments?]
    cases h : membersOrNull? v with
    | none =>
      rw [assignSegments_of_isObstacle (membersOrNull?_eq_none_iff.1 h)]
      rfl
    | some members =>
      rw [assignSegments_cons h, Option.bind_eq_bind, Option.bind_some, ih]
      cases (assignSegments value keys ((Entries.get? members key).getD .null)).1 <;> rfl

/-! ### Taking out -/

theorem takeSegments_of_member?_eq_none {key : String} (h : v.member? key = none)
    (keys : List String) : takeSegments (key :: keys) v = (none, v) := by
  cases v with
  | object members =>
    have hget : Entries.get? members key = none := h
    cases keys with
    | nil =>
      simp [takeSegments, Value.members?, hget,
        Entries.erase_of_forall_ne (Entries.ne_of_get?_eq_none hget)]
    | cons next keys => simp [takeSegments, Value.members?, hget]
  | _ => cases keys <;> rfl

theorem takeSegments_singleton (members : Entries Value) (key : String) :
    takeSegments [key] (.object members) =
      (Entries.get? members key, .object (Entries.erase members key)) := rfl

theorem takeSegments_cons {members : Entries Value} {key : String} {child : Value}
    (h : Entries.get? members key = some child) (hk : keys ≠ []) :
    takeSegments (key :: keys) (.object members) =
      ((takeSegments keys child).1,
        .object (Entries.insert members key (takeSegments keys child).2)) := by
  obtain ⟨next, keys, rfl⟩ := List.exists_cons_of_ne_nil hk
  rw [takeSegments]
  simp only [Value.members?, h]

/-- A member is the entry of an object under the key. -/
theorem exists_of_member? {key : String} {child : Value} (h : v.member? key = some child) :
    ∃ members, v = .object members ∧ Entries.get? members key = some child := by
  cases v with
  | object members => exact ⟨members, rfl, h⟩
  | _ => cases h

/-- What is taken out is what stands there. -/
theorem takeSegments_fst (hk : keys ≠ []) : (takeSegments keys v).1 = getSegments? v keys := by
  induction keys generalizing v with
  | nil => exact absurd rfl hk
  | cons key keys ih =>
    rw [getSegments?_cons]
    cases hmember : v.member? key with
    | none =>
      rw [takeSegments_of_member?_eq_none hmember]
      rfl
    | some child =>
      obtain ⟨members, rfl, hget⟩ := exists_of_member? hmember
      by_cases hlast : keys = []
      · subst hlast
        exact hget
      · rw [takeSegments_cons hget hlast, Option.bind_some]
        exact ih hlast

theorem getSegments?_takeSegments (hk : keys ≠ []) :
    getSegments? (takeSegments keys v).2 keys = none := by
  induction keys generalizing v with
  | nil => exact absurd rfl hk
  | cons key keys ih =>
    cases hmember : v.member? key with
    | none =>
      rw [takeSegments_of_member?_eq_none hmember, getSegments?_cons, hmember]
      rfl
    | some child =>
      obtain ⟨members, rfl, hget⟩ := exists_of_member? hmember
      by_cases hlast : keys = []
      · subst hlast
        simp [takeSegments_singleton, getSegments?, Value.member?, Value.members?,
          Entries.get?_erase]
      · rw [takeSegments_cons hget hlast, getSegments?_cons]
        simpa [Value.member?, Value.members?, Entries.get?_insert] using ih hlast

/-- Taking out changes nothing at the end of keys that diverge. -/
theorem getSegments?_takeSegments_of_diverge {others : List String} (h : Diverge keys others) :
    getSegments? (takeSegments keys v).2 others = getSegments? v others := by
  induction keys generalizing v others with
  | nil => exact absurd h (not_diverge_nil_left others)
  | cons key keys ih =>
    cases others with
    | nil => exact absurd h (not_diverge_nil_right (key :: keys))
    | cons other others =>
      rw [diverge_cons_cons_iff] at h
      cases hmember : v.member? key with
      | none => rw [takeSegments_of_member?_eq_none hmember]
      | some child =>
        obtain ⟨members, rfl, hget⟩ := exists_of_member? hmember
        by_cases hlast : keys = []
        · have hkey : key ≠ other := fun heq => not_diverge_nil_left others (hlast ▸ h heq)
          subst hlast
          simp [takeSegments_singleton, getSegments?_cons, Value.member?, Value.members?,
            Entries.get?_erase, hkey]
        · rw [takeSegments_cons hget hlast, getSegments?_cons, getSegments?_cons]
          simp only [Value.member?, Value.members?, Option.bind_some, Entries.get?_insert]
          by_cases hkey : key = other
          · subst hkey
            rw [if_pos rfl, hget]
            exact ih (h rfl)
          · rw [if_neg hkey]

/-- Where nothing stands, taking out changes nothing. -/
theorem takeSegments_of_getSegments?_eq_none (hv : v.IsCanonical)
    (h : getSegments? v keys = none) : takeSegments keys v = (none, v) := by
  induction keys generalizing v with
  | nil => cases h
  | cons key keys ih =>
    cases hmember : v.member? key with
    | none => exact takeSegments_of_member?_eq_none hmember keys
    | some child =>
      obtain ⟨members, rfl, hget⟩ := exists_of_member? hmember
      have hchild : getSegments? child keys = none := by
        rwa [getSegments?_cons, hmember] at h
      have hk : keys ≠ [] := by
        rintro rfl
        cases hchild
      rw [takeSegments_cons hget hk, ih (hv.get? hget) hchild,
        Entries.insert_of_get? hget hv.ordered]

/-- What has been taken out can be put back. -/
theorem assignSegments_takeSegments (hv : v.IsCanonical) (hk : keys ≠ []) {removed : Value}
    (h : getSegments? v keys = some removed) :
    assignSegments removed keys (takeSegments keys v).2 = (true, v) := by
  induction keys generalizing v with
  | nil => exact absurd rfl hk
  | cons key keys ih =>
    obtain ⟨child, hmember, hchild⟩ := Option.bind_eq_some_iff.1 h
    obtain ⟨members, rfl, hget⟩ := exists_of_member? hmember
    by_cases hlast : keys = []
    · subst hlast
      cases hchild
      rw [takeSegments_singleton, assignSegments_cons rfl, assignSegments]
      dsimp only
      rw [Entries.insert_erase_of_get? hget hv.ordered]
    · rw [takeSegments_cons hget hlast, assignSegments_cons rfl, Entries.get?_insert, if_pos rfl,
        Option.getD_some, ih (hv.get? hget) hlast hchild]
      dsimp only
      rw [Entries.insert_insert hv.ordered, Entries.insert_of_get? hget hv.ordered]

/-! ### At dotted paths -/

/-- Neither path begins with all segments of the other. -/
def Apart (path other : String) : Prop := Diverge (segments path) (segments other)

instance (path other : String) : Decidable (Apart path other) :=
  inferInstanceAs (Decidable (_ ∧ _))

/-- The document itself, or what stands at less than all segments of the path, is neither an object
nor a null. -/
def IsBlocked (path : String) (document : Value) : Prop :=
  IsBlockedAlong (segments path) document

theorem assign_of_ne {path : String} (h : path ≠ "") (document value : Value) :
    assign document path value =
      (if (assignSegments value (segments path) document).1 then .ok () else .error ⟨path⟩,
        (assignSegments value (segments path) document).2) := by
  rw [assign, if_neg h]

theorem assign_of_isBlocked {path : String} (h : path ≠ "") {document : Value}
    (hd : document.IsCanonical) (hblocked : IsBlocked path document) (value : Value) :
    assign document path value = (.error ⟨path⟩, document) := by
  rw [assign_of_ne h, assignSegments_of_isBlocked hd hblocked]
  rfl

theorem assign_of_not_isBlocked {path : String} (h : path ≠ "") {document : Value}
    (hfree : ¬IsBlocked path document) (value : Value) :
    assign document path value =
      (.ok (), (assignSegments value (segments path) document).2) := by
  have hdone : (assignSegments value (segments path) document).1 = true := by
    rwa [← Bool.not_eq_false, assignSegments_fst_eq_false_iff]
  rw [assign_of_ne h, if_pos hdone]

theorem exists_assign_eq_error_iff {path : String} (h : path ≠ "") {document : Value}
    (hd : document.IsCanonical) (value : Value) :
    (∃ e, (assign document path value).1 = .error e) ↔ IsBlocked path document := by
  by_cases hblocked : IsBlocked path document
  · simp [assign_of_isBlocked h hd hblocked, hblocked]
  · simp [assign_of_not_isBlocked h hblocked, hblocked]

/-- Setting a path of a new document comes to the same as setting it in place. -/
theorem set?_eq_toOption_set (document : Value) (path : String) (value : Value) :
    set? document path value = (set document path value).toOption := by
  by_cases h : path = ""
  · rw [set?, if_pos h, set, assign, if_pos h]
    rfl
  · rw [set?, if_neg h, setSegments?_eq, set, assign_of_ne h]
    cases (assignSegments value (segments path) document).1 <;> rfl

/-- Setting fails exactly where something is in the way, and then the document is as it was. What
was set stands at the path, and what was taken out stands there no more; nothing else changes at
paths apart from it. What was taken out is what stood there, and putting it back gives the document
as it was. -/
theorem updates_obey_laws {path : String} (hpath : path ≠ "") {document : Value}
    (hdocument : document.IsCanonical) (value : Value) :
    let assigned := assign document path value
    let taken := takeOut document path
    ((∃ e, assigned.1 = .error e) ↔ IsBlocked path document) ∧
    (∀ e, assigned.1 = .error e → assigned.2 = document) ∧
    (assigned.1 = .ok () → get? assigned.2 path = some value ∧
      ∀ other, Apart path other → get? assigned.2 other = get? document other) ∧
    taken.1 = get? document path ∧
    get? taken.2 path = none ∧
    (∀ other, Apart path other → get? taken.2 other = get? document other) ∧
    (taken.1 = none → taken.2 = document) ∧
    ∀ removed, taken.1 = some removed → assign taken.2 path removed = (.ok (), document) := by
  intro assigned taken
  have hkeys := segments_ne_nil path
  have hset := exists_assign_eq_error_iff hpath hdocument value
  have hfound : taken.1 = get? document path := takeSegments_fst hkeys
  refine ⟨hset, fun e he => ?_, fun hok => ?_, hfound, getSegments?_takeSegments hkeys,
    fun other => getSegments?_takeSegments_of_diverge, fun hnone => ?_, fun removed hremoved => ?_⟩
  · exact congrArg Prod.snd (assign_of_isBlocked hpath hdocument (hset.1 ⟨e, he⟩) value)
  · have hfree : ¬IsBlocked path document := by
      intro hblocked
      obtain ⟨e, he⟩ := hset.2 hblocked
      cases hok.symm.trans he
    have hassigned : assigned.2 = (assignSegments value (segments path) document).2 :=
      congrArg Prod.snd (assign_of_not_isBlocked hpath hfree value)
    rw [hassigned]
    exact ⟨getSegments?_assignSegments hfree,
      fun other => getSegments?_assignSegments_of_diverge⟩
  · rw [hfound] at hnone
    exact congrArg Prod.snd (takeSegments_of_getSegments?_eq_none hdocument hnone)
  · rw [hfound] at hremoved
    have htaken : taken.2 = (takeSegments (segments path) document).2 := rfl
    rw [assign_of_ne hpath, htaken, assignSegments_takeSegments hdocument hkeys hremoved]
    rfl

/-- A zip code is set behind a null, a first name cannot be set inside a name, and the city is taken
out and put back. -/
theorem updates_obey_laws_of_address :
    let document := Value.object [
      ("address", .object [("city", .string "Oslo"), ("zip", .null)]), ("name", .string "Bill")]
    let coded := (assign document "address.zip.code" (.string "0150")).2
    document.IsCanonical ∧
      get? coded "address.zip.code" = some (.string "0150") ∧
      Apart "address.zip.code" "address.city" ∧
      get? coded "address.city" = some (.string "Oslo") ∧
      IsBlocked "name.first" document ∧
      (assign document "name.first" (.string "B")).2 = document ∧
      (takeOut document "address.city").1 = some (.string "Oslo") ∧
      assign (takeOut document "address.city").2 "address.city" (.string "Oslo") =
        (.ok (), document) := by
  intro document coded
  have hdocument : document.IsCanonical := by decide
  have hzip : "address.zip.code" ≠ "" := by decide
  have hname : "name.first" ≠ "" := by decide
  have hcity : "address.city" ≠ "" := by decide
  have hset := updates_obey_laws hzip hdocument (.string "0150")
  have hblocked := updates_obey_laws hname hdocument (.string "B")
  have htake := updates_obey_laws hcity hdocument .null
  have hapart : Apart "address.zip.code" "address.city" := by decide +kernel
  obtain ⟨hcode, hframe⟩ := hset.2.2.1 rfl
  have htaken : (takeOut document "address.city").1 = some (.string "Oslo") := rfl
  exact ⟨hdocument, hcode, hapart, hframe _ hapart, hblocked.1.1 ⟨_, rfl⟩, hblocked.2.1 _ rfl,
    htaken, htake.2.2.2.2.2.2.2 _ htaken⟩

end RecordGuard.Path
