import Mathlib.Tactic.SplitIfs
import RecordGuard.Entries

/-!
# Looking up entries

What a look-up finds is an entry of the list, and a list without repeated keys has no second entry
for it to miss (`get?_of_mem`). The look-ups say all about an ordered list (`Ordered.ext`). An
update of an ordered list acts in one place: `insert_append_cons`, `erase_append_cons` and
`exists_insert_eq` give that place, and `get?_foldl_insert` says what many insertions do to every
look-up.
-/

namespace RecordGuard.Entries

variable {α : Type}

theorem get?_cons (k : String) (a : α) (rest : Entries α) (key : String) :
    get? ((k, a) :: rest) key = if k = key then some a else get? rest key := rfl

theorem mem_of_get? {entries : Entries α} {key : String} {a : α} (h : get? entries key = some a) :
    (key, a) ∈ entries := by
  induction entries with
  | nil => cases h
  | cons entry rest ih =>
    obtain ⟨k, b⟩ := entry
    rw [get?_cons] at h
    split_ifs at h with hk
    · cases h
      exact hk ▸ List.mem_cons_self
    · exact List.mem_cons_of_mem _ (ih h)

theorem get?_eq_none {entries : Entries α} {key : String} (h : ∀ entry ∈ entries, entry.1 ≠ key) :
    get? entries key = none := by
  cases hg : get? entries key with
  | none => rfl
  | some a => exact absurd rfl (h _ (mem_of_get? hg))

theorem ne_of_get?_eq_none {entries : Entries α} {key : String} (h : get? entries key = none) :
    ∀ entry ∈ entries, entry.1 ≠ key := by
  induction entries with
  | nil => exact fun entry he => (List.not_mem_nil he).elim
  | cons first rest ih =>
    rw [get?] at h
    split_ifs at h with hk
    exact List.forall_mem_cons.2 ⟨hk, ih h⟩

theorem has_eq_true_iff {entries : Entries α} {key : String} :
    has entries key = true ↔ ∃ a, get? entries key = some a := by
  rw [has, Option.isSome_iff_exists]

theorem has_eq_false_iff {entries : Entries α} {key : String} :
    has entries key = false ↔ get? entries key = none := by
  rw [has, Option.isSome_eq_false_iff, Option.isNone_iff_eq_none]

theorem mem_keys_iff {entries : Entries α} {key : String} :
    key ∈ keys entries ↔ ∃ a, get? entries key = some a := by
  constructor
  · intro h
    obtain ⟨entry, he, rfl⟩ := List.mem_map.1 h
    cases hget : get? entries entry.1 with
    | none => exact absurd rfl (ne_of_get?_eq_none hget entry he)
    | some a => exact ⟨a, rfl⟩
  · rintro ⟨a, ha⟩
    exact List.mem_map_of_mem (mem_of_get? ha)

theorem ordered_iff_keys {entries : Entries α} :
    Ordered entries ↔ (keys entries).Pairwise (· < ·) := List.pairwise_map.symm

theorem Ordered.tail {entry : String × α} {rest : Entries α} (h : Ordered (entry :: rest)) :
    Ordered rest := (List.pairwise_cons.1 h).2

theorem Ordered.head_lt {entry : String × α} {rest : Entries α} (h : Ordered (entry :: rest)) :
    ∀ other ∈ rest, entry.1 < other.1 := (List.pairwise_cons.1 h).1

/-- The first key of an ordered list does not come again. -/
theorem Ordered.get?_head {k : String} {a : α} {rest : Entries α} (h : Ordered ((k, a) :: rest)) :
    get? rest k = none :=
  get?_eq_none fun entry he heq => String.lt_irrefl k (by simpa [heq] using h.head_lt entry he)

theorem Ordered.nodup_keys {entries : Entries α} (h : Ordered entries) : (keys entries).Nodup :=
  (ordered_iff_keys.1 h).imp String.ne_of_lt

theorem get?_of_mem {entries : Entries α} (h : (keys entries).Nodup) {key : String} {a : α}
    (hm : (key, a) ∈ entries) : get? entries key = some a := by
  induction entries with
  | nil => cases hm
  | cons entry rest ih =>
    obtain ⟨k, b⟩ := entry
    obtain ⟨hk, hrest⟩ := List.nodup_cons.1 h
    rw [get?_cons]
    rcases List.mem_cons.1 hm with heq | hm
    · cases heq
      exact if_pos rfl
    · have hne : k ≠ key := fun heq => hk (List.mem_map.2 ⟨_, hm, heq.symm⟩)
      rw [if_neg hne, ih hrest hm]

theorem get?_eq_of_perm {entries others : Entries α} (h : entries.Perm others)
    (hn : (keys others).Nodup) (key : String) : get? entries key = get? others key := by
  have hkeys : (keys entries).Nodup := (h.map Prod.fst).nodup_iff.2 hn
  refine Option.ext fun a => ⟨fun ha => ?_, fun ha => ?_⟩
  · exact get?_of_mem hn (h.mem_iff.1 (mem_of_get? ha))
  · exact get?_of_mem hkeys (h.mem_iff.2 (mem_of_get? ha))

theorem Ordered.get?_of_mem {entries : Entries α} (h : Ordered entries) {key : String} {a : α}
    (hm : (key, a) ∈ entries) : get? entries key = some a :=
  Entries.get?_of_mem h.nodup_keys hm

theorem Ordered.mem_iff {entries : Entries α} (h : Ordered entries) {key : String} {a : α} :
    (key, a) ∈ entries ↔ get? entries key = some a :=
  ⟨h.get?_of_mem, mem_of_get?⟩

theorem Ordered.nodup {entries : Entries α} (h : Ordered entries) : entries.Nodup := by
  refine List.Pairwise.imp (fun {x y} hlt heq => ?_) h
  exact String.ne_of_lt hlt (congrArg Prod.fst heq)

theorem Ordered.eq_of_perm {entries others : Entries α} (h : Ordered entries)
    (ho : Ordered others) (hperm : entries.Perm others) : entries = others :=
  hperm.eq_of_pairwise
    (fun _ _ _ _ hab hba => absurd (String.lt_trans hab hba) (String.lt_irrefl _)) h ho

/-- Ordered lists that answer every look-up alike are the same list. -/
theorem Ordered.ext {entries others : Entries α} (h : Ordered entries) (ho : Ordered others)
    (hget : ∀ key, get? entries key = get? others key) : entries = others := by
  refine h.eq_of_perm ho ((List.perm_ext_iff_of_nodup h.nodup ho.nodup).2 fun entry => ?_)
  rw [h.mem_iff, ho.mem_iff, hget]

/-- A filter that looks at keys only keeps the look-ups of the keys it keeps. -/
theorem get?_filter (keep : String → Bool) (entries : Entries α) (key : String) :
    get? (entries.filter fun entry => keep entry.1) key =
      if keep key then get? entries key else none := by
  induction entries with
  | nil => simp [get?]
  | cons entry rest ih =>
    obtain ⟨k, a⟩ := entry
    by_cases hk : k = key
    · subst hk
      by_cases hkeep : keep k = true
      · simp [hkeep, get?]
      · rw [List.filter_cons_of_neg (by simpa using hkeep), ih, if_neg hkeep, if_neg hkeep]
    · by_cases hkeep : keep k = true <;> simp [hkeep, get?, hk, ih]

/-! ### Many insertions -/

theorem get?_foldl_insert_of_nodup {pairs : Entries α} (h : (keys pairs).Nodup)
    (entries : Entries α) (key : String) :
    get? (pairs.foldl (fun entries pair => insert entries pair.1 pair.2) entries) key =
      (get? pairs key).or (get? entries key) := by
  induction pairs generalizing entries with
  | nil => rfl
  | cons pair rest ih =>
    obtain ⟨k, a⟩ := pair
    obtain ⟨hk, hrest⟩ := List.nodup_cons.1 h
    rw [List.foldl_cons, ih hrest, get?_insert, get?_cons]
    split_ifs with heq
    · subst heq
      rw [get?_eq_none fun entry he heq => hk (List.mem_map.2 ⟨entry, he, heq⟩)]
      rfl
    · rfl

theorem get?_foldl_insert {pairs : Entries α} (h : Ordered pairs) (entries : Entries α)
    (key : String) :
    get? (pairs.foldl (fun entries pair => insert entries pair.1 pair.2) entries) key =
      (get? pairs key).or (get? entries key) :=
  get?_foldl_insert_of_nodup h.nodup_keys entries key

theorem get?_ofList {pairs : Entries α} (h : (keys pairs).Nodup) (key : String) :
    get? (ofList pairs) key = get? pairs key :=
  (get?_foldl_insert_of_nodup h [] key).trans Option.or_none

/-- An ordered list holds its entries and nothing else. -/
theorem Ordered.ofList_eq {entries : Entries α} (h : Ordered entries) : ofList entries = entries :=
  (ordered_ofList entries).ext h fun key => get?_ofList h.nodup_keys key

theorem ordered_foldl_insert {entries : Entries α} (h : Ordered entries) (pairs : Entries α) :
    Ordered (pairs.foldl (fun entries pair => insert entries pair.1 pair.2) entries) := by
  induction pairs generalizing entries with
  | nil => exact h
  | cons pair rest ih => exact ih (ordered_insert h pair.1 pair.2)

theorem mem_foldl_insert {pairs entries : Entries α} {entry : String × α}
    (h : entry ∈ pairs.foldl (fun entries pair => insert entries pair.1 pair.2) entries) :
    entry ∈ pairs ∨ entry ∈ entries := by
  induction pairs generalizing entries with
  | nil => exact Or.inr h
  | cons pair rest ih =>
    rcases ih h with h | h
    · exact Or.inl (List.mem_cons_of_mem _ h)
    · rcases mem_insert h with rfl | h
      · exact Or.inl List.mem_cons_self
      · exact Or.inr h

theorem mem_keys_insert {entries : Entries α} {key other : String} {a : α} :
    other ∈ keys (insert entries key a) ↔ other = key ∨ other ∈ keys entries := by
  rw [mem_keys_iff, mem_keys_iff, get?_insert]
  by_cases h : key = other
  · simp [h]
  · simp [h, Ne.symm h]

theorem mem_keys_foldl_insert {pairs entries : Entries α} {key : String} :
    key ∈ keys (pairs.foldl (fun entries pair => insert entries pair.1 pair.2) entries) ↔
      key ∈ keys pairs ∨ key ∈ keys entries := by
  induction pairs generalizing entries with
  | nil => exact ⟨Or.inr, fun h => h.resolve_left List.not_mem_nil⟩
  | cons pair rest ih =>
    have hpair : key ∈ keys (pair :: rest) ↔ key = pair.1 ∨ key ∈ keys rest := List.mem_cons
    rw [List.foldl_cons, ih, mem_keys_insert, hpair]
    exact or_left_comm.trans or_assoc.symm

/-- The keys of the pairs are the keys of the list that holds them. -/
theorem mem_keys_ofList {pairs : Entries α} {key : String} :
    key ∈ keys (ofList pairs) ↔ key ∈ keys pairs :=
  mem_keys_foldl_insert.trans (or_iff_left List.not_mem_nil)

/-! ### The place of an update -/

theorem insert_append_cons {before after : Entries α} {key : String} {a : α}
    (h : Ordered (before ++ (key, a) :: after)) (b : α) :
    insert (before ++ (key, a) :: after) key b = before ++ (key, b) :: after := by
  induction before with
  | nil => simp [insert]
  | cons entry before ih =>
    obtain ⟨k, c⟩ := entry
    have hlt : k < key := h.head_lt (key, a) (List.mem_append_right _ List.mem_cons_self)
    rw [List.cons_append, insert, if_neg (String.ne_of_lt hlt),
      if_neg (String.lt_asymm hlt), ih h.tail]
    rfl

theorem erase_of_forall_ne {entries : Entries α} {key : String}
    (h : ∀ entry ∈ entries, entry.1 ≠ key) : erase entries key = entries := by
  induction entries with
  | nil => rfl
  | cons entry rest ih =>
    obtain ⟨k, a⟩ := entry
    rw [erase, if_neg (h _ List.mem_cons_self),
      ih fun other ho => h other (List.mem_cons_of_mem _ ho)]

theorem erase_append_cons {before after : Entries α} {key : String} {a : α}
    (h : Ordered (before ++ (key, a) :: after)) :
    erase (before ++ (key, a) :: after) key = before ++ after := by
  induction before with
  | nil =>
    rw [List.nil_append, erase, if_pos rfl]
    exact erase_of_forall_ne fun entry he heq => String.ne_of_lt (h.head_lt entry he) heq.symm
  | cons entry before ih =>
    obtain ⟨k, c⟩ := entry
    have hlt : k < key := h.head_lt (key, a) (List.mem_append_right _ List.mem_cons_self)
    rw [List.cons_append, erase, if_neg (String.ne_of_lt hlt), ih h.tail]
    rfl

/-- A key is put behind all smaller ones. -/
theorem insert_append_of_lt {before : Entries α} {key : String}
    (h : ∀ entry ∈ before, entry.1 < key) (entries : Entries α) (a : α) :
    insert (before ++ entries) key a = before ++ insert entries key a := by
  induction before with
  | nil => rfl
  | cons entry before ih =>
    obtain ⟨k, b⟩ := entry
    have hlt : k < key := h _ List.mem_cons_self
    rw [List.cons_append, insert, if_neg (String.ne_of_lt hlt), if_neg (String.lt_asymm hlt),
      ih fun other ho => h other (List.mem_cons_of_mem _ ho)]
    rfl

/-- A key is put in front of all greater ones. -/
theorem insert_of_lt {entries : Entries α} {key : String} (h : ∀ entry ∈ entries, key < entry.1)
    (a : α) : insert entries key a = (key, a) :: entries := by
  cases entries with
  | nil => rfl
  | cons entry rest =>
    obtain ⟨k, b⟩ := entry
    have hlt : key < k := h _ List.mem_cons_self
    rw [insert, if_neg (String.ne_of_lt hlt).symm, if_pos hlt]

/-- Putting under a key what stands there changes nothing. -/
theorem insert_of_get? {entries : Entries α} {key : String} {a : α}
    (h : get? entries key = some a) (ho : Ordered entries) : insert entries key a = entries := by
  obtain ⟨before, after, rfl⟩ := List.append_of_mem (mem_of_get? h)
  exact insert_append_cons ho a

/-- Putting back what has been erased changes nothing. -/
theorem insert_erase_of_get? {entries : Entries α} {key : String} {a : α}
    (h : get? entries key = some a) (ho : Ordered entries) :
    insert (erase entries key) key a = entries := by
  refine (ordered_insert (ordered_erase ho key) key a).ext ho fun other => ?_
  rw [get?_insert, get?_erase]
  split_ifs with hkey
  · rw [← hkey, h]
  · rfl

/-- The last value put under a key stays. -/
theorem insert_insert {entries : Entries α} (ho : Ordered entries) (key : String) (a b : α) :
    insert (insert entries key a) key b = insert entries key b := by
  refine (ordered_insert (ordered_insert ho key a) key b).ext (ordered_insert ho key b)
    fun other => ?_
  rw [get?_insert, get?_insert, get?_insert]
  split_ifs <;> rfl

/-- A new key goes between two neighbours. -/
theorem exists_insert_eq {entries : Entries α} {key : String} (h : get? entries key = none)
    (a : α) :
    ∃ before after, entries = before ++ after ∧
      insert entries key a = before ++ (key, a) :: after := by
  induction entries with
  | nil => exact ⟨[], [], rfl, rfl⟩
  | cons entry rest ih =>
    obtain ⟨k, b⟩ := entry
    rw [get?_cons] at h
    split_ifs at h with hk
    by_cases hlt : key < k
    · exact ⟨[], (k, b) :: rest, rfl, by simp [insert, hk, hlt]⟩
    · obtain ⟨before, after, heq, hins⟩ := ih h
      refine ⟨(k, b) :: before, after, by rw [heq]; rfl, ?_⟩
      rw [insert, if_neg hk, if_neg hlt, hins]
      rfl

theorem perm_keys_insert {entries : Entries α} {key : String} (h : get? entries key = none)
    (a : α) : (keys (insert entries key a)).Perm (key :: keys entries) := by
  obtain ⟨before, after, heq, hinsert⟩ := exists_insert_eq h a
  rw [hinsert, heq, keys, keys, List.map_append, List.map_append, List.map_cons]
  exact List.perm_middle

end RecordGuard.Entries
