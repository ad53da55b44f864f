/-!
# Entry lists

A finite map from text to values is kept as the list of its entries in the order of their keys, so
that listing it, comparing it and printing it all follow one order. Text is ordered by code point,
which for UTF-8 is also the order of the bytes.

`get?_insert` and `get?_erase` say what the two updates do to every look-up; `Ordered` is the
invariant, and `ordered_insert` and `ordered_erase` keep it.
-/

namespace RecordGuard

/-- Entries keyed by text. -/
abbrev Entries (α : Type) := List (String × α)

namespace Entries

variable {α : Type}

/-- The value of the first entry under a key. -/
def get? : Entries α → String → Option α
  | [], _ => none
  | (k, a) :: rest, key => if k = key then some a else get? rest key

/-- Whether some entry has the key. -/
def has (entries : Entries α) (key : String) : Bool :=
  (get? entries key).isSome

/-- The keys, in the order of the entries. -/
def keys (entries : Entries α) : List String :=
  entries.map Prod.fst

/-- Puts a value under a key: in place of the one that is there, else where the key belongs. -/
def insert : Entries α → String → α → Entries α
  | [], key, a => [(key, a)]
  | (k, b) :: rest, key, a =>
    if k = key then (key, a) :: rest
    else if key < k then (key, a) :: (k, b) :: rest
    else (k, b) :: insert rest key a

/-- Drops what stands under a key. -/
def erase : Entries α → String → Entries α
  | [], _ => []
  | (k, a) :: rest, key => if k = key then erase rest key else (k, a) :: erase rest key

/-- The entry list that holds the given pairs; of two pairs with one key the later stays. -/
def ofList (pairs : List (String × α)) : Entries α :=
  pairs.foldl (fun entries pair => insert entries pair.1 pair.2) []

/-- Keys stand in strictly increasing order, so no key stands twice. -/
def Ordered (entries : Entries α) : Prop :=
  entries.Pairwise (fun x y => x.1 < y.1)

theorem get?_insert (entries : Entries α) (key other : String) (a : α) :
    get? (insert entries key a) other = if key = other then some a else get? entries other := by
  induction entries with
  | nil => simp [insert, get?]
  | cons entry rest ih =>
    obtain ⟨k, b⟩ := entry
    by_cases hk : k = key
    · subst hk
      by_cases ho : k = other <;> simp [insert, get?, ho]
    · by_cases hlt : key < k
      · simp [insert, get?, hk, hlt]
      · by_cases ho : k = other
        · subst ho
          simp [insert, get?, hk, hlt, Ne.symm hk]
        · simp [insert, get?, hk, hlt, ho, ih]

theorem get?_erase (entries : Entries α) (key other : String) :
    get? (erase entries key) other = if key = other then none else get? entries other := by
  induction entries with
  | nil => simp [erase, get?]
  | cons entry rest ih =>
    obtain ⟨k, b⟩ := entry
    by_cases hk : k = key
    · subst hk
      by_cases ho : k = other
      · simp only [erase, if_true, ih, if_pos ho]
      · simp [erase, get?, ho, ih]
    · by_cases ho : k = other
      · subst ho
        simp [erase, get?, hk, Ne.symm hk]
      · simp [erase, get?, hk, ho, ih]

theorem mem_insert {entries : Entries α} {key : String} {a : α} {entry : String × α}
    (h : entry ∈ insert entries key a) : entry = (key, a) ∨ entry ∈ entries := by
  induction entries with
  | nil => exact Or.inl (by simpa [insert] using h)
  | cons head rest ih =>
    obtain ⟨k, b⟩ := head
    by_cases hk : k = key
    · simp only [insert, hk, if_true, List.mem_cons] at h
      rcases h with h | h
      · exact Or.inl h
      · exact Or.inr (List.mem_cons_of_mem _ h)
    · by_cases hlt : key < k
      · simp only [insert, hk, hlt, if_true, if_false, List.mem_cons] at h
        rcases h with h | h | h
        · exact Or.inl h
        · exact Or.inr (h ▸ List.mem_cons_self)
        · exact Or.inr (List.mem_cons_of_mem _ h)
      · simp only [insert, hk, hlt, if_false, List.mem_cons] at h
        rcases h with h | h
        · exact Or.inr (h ▸ List.mem_cons_self)
        · exact (ih h).imp_right (List.mem_cons_of_mem _)

theorem mem_ofList {pairs : List (String × α)} {entry : String × α} (h : entry ∈ ofList pairs) :
    entry ∈ pairs := by
  suffices ∀ entries : Entries α,
      entry ∈ pairs.foldl (fun entries pair => insert entries pair.1 pair.2) entries →
        entry ∈ entries ∨ entry ∈ pairs from
    (this [] h).resolve_left List.not_mem_nil
  clear h
  induction pairs with
  | nil => exact fun _ h => Or.inl h
  | cons pair pairs ih =>
    intro entries h
    rcases ih _ h with h | h
    · rcases mem_insert h with rfl | h
      · exact Or.inr List.mem_cons_self
      · exact Or.inl h
    · exact Or.inr (List.mem_cons_of_mem _ h)

theorem mem_erase {entries : Entries α} {key : String} {entry : String × α}
    (h : entry ∈ erase entries key) : entry ∈ entries := by
  induction entries with
  | nil => exact h
  | cons head rest ih =>
    obtain ⟨k, b⟩ := head
    by_cases hk : k = key
    · simp only [erase, hk, if_true] at h
      exact List.mem_cons_of_mem _ (ih h)
    · simp only [erase, hk, if_false, List.mem_cons] at h
      rcases h with h | h
      · exact h ▸ List.mem_cons_self
      · exact List.mem_cons_of_mem _ (ih h)

theorem ordered_nil : Ordered ([] : Entries α) := List.Pairwise.nil

theorem ordered_insert {entries : Entries α} (h : Ordered entries) (key : String) (a : α) :
    Ordered (insert entries key a) := by
  induction entries with
  | nil => exact List.pairwise_singleton _ _
  | cons head rest ih =>
    obtain ⟨k, b⟩ := head
    obtain ⟨hhead, hrest⟩ := List.pairwise_cons.1 h
    by_cases hk : k = key
    · subst hk
      simp only [insert, if_true]
      exact List.pairwise_cons.2 ⟨hhead, hrest⟩
    · by_cases hlt : key < k
      · simp only [insert, hk, hlt, if_true, if_false]
        refine List.pairwise_cons.2 ⟨?_, h⟩
        intro entry he
        rcases List.mem_cons.1 he with rfl | he
        · exact hlt
        · exact String.lt_trans hlt (hhead entry he)
      · simp only [insert, hk, hlt, if_false]
        refine List.pairwise_cons.2 ⟨?_, ih hrest⟩
        intro entry he
        rcases mem_insert he with rfl | he
        · exact Std.lt_of_le_of_ne (String.not_lt.1 hlt) hk
        · exact hhead entry he

theorem ordered_erase {entries : Entries α} (h : Ordered entries) (key : String) :
    Ordered (erase entries key) := by
  induction entries with
  | nil => exact h
  | cons head rest ih =>
    obtain ⟨k, b⟩ := head
    obtain ⟨hhead, hrest⟩ := List.pairwise_cons.1 h
    by_cases hk : k = key
    · simpa only [erase, hk, if_true] using ih hrest
    · simp only [erase, hk, if_false]
      exact List.pairwise_cons.2 ⟨fun entry he => hhead entry (mem_erase he), ih hrest⟩

theorem ordered_ofList (pairs : List (String × α)) : Ordered (ofList pairs) := by
  suffices ∀ entries : Entries α, Ordered entries →
      Ordered (pairs.foldl (fun entries pair => insert entries pair.1 pair.2) entries) from
    this [] ordered_nil
  induction pairs with
  | nil => exact fun _ h => h
  | cons pair pairs ih => exact fun entries h => ih _ (ordered_insert h _ _)

end Entries

end RecordGuard
