import Mathlib.Algebra.Order.Floor.Div
import RecordGuard.Proofs.Layers
import RecordGuard.Proofs.PrintedText
import RecordGuard.Proofs.SortedDocuments

/-!
# Pages of a list

A list is read page by page, and each page is searched for anew: the documents are filtered and
sorted, what stands before the page is skipped, and what the page holds is selected. The pages
nevertheless fall into place (`ArePages`): one after the other they are the whole result, and how
long each of them is follows from the number of documents that match. There is a result unless a
text cannot be read or the sorter gives up, and without one there is no page either.
`pages_partition_iff` says so of a collection and of a facade over it.
-/

namespace RecordGuard

open Json (Value)
open Sorting (TransitiveOn)

/-- The pages of a size, numbered from 0 on, hold a list of `count` documents one after the
other. -/
structure ArePages (size count : Nat) (found : List Value) (page : Nat → List Value) : Prop where
  /-- As many pages as it takes make up the whole list. -/
  flatMap_eq : ∀ pages, count ≤ pages * size → (List.range pages).flatMap page = found
  length_eq : ∀ k, (page k).length = min size (count - min count (k * size))
  eq_nil : ∀ k, count ⌈/⌉ size ≤ k → page k = []

/-! ### Slices of a list -/

/-- The first pages of a size hold the items that stand first. -/
theorem flatMap_slices {α : Type} (items : List α) (size pages : Nat) :
    ((List.range pages).flatMap fun k => (items.drop (k * size)).take size) =
      items.take (pages * size) := by
  induction pages with
  | zero => simp
  | succ pages ih =>
    rw [List.range_succ, List.flatMap_append, ih, Nat.succ_mul, List.take_add]
    simp

theorem length_slice {α : Type} (items : List α) (size k : Nat) :
    ((items.drop (k * size)).take size).length =
      min size (items.length - min items.length (k * size)) := by
  rw [List.length_take, List.length_drop]
  omega

theorem arePages_slices {size : Nat} (hsize : 1 ≤ size) (found : List Value) :
    ArePages size found.length found fun k => (found.drop (k * size)).take size where
  flatMap_eq pages h := by rw [flatMap_slices, List.take_of_length_le h]
  length_eq k := length_slice found size k
  eq_nil k h := by
    have hle : found.length ≤ k * size := by
      rw [Nat.mul_comm]
      exact (ceilDiv_le_iff_le_mul hsize).1 h
    rw [List.drop_of_length_le hle, List.take_nil]

/-! ### Pages of a collection -/

/-- As many documents are counted as were found, and all pages are given and hold what was found one
after the other. -/
def Paginates {ε : Type} (size : Nat) (found : List Value) (count : Except ε Nat)
    (page : Nat → Except ε (List Value)) : Prop :=
  count = .ok found.length ∧
    ∃ given, (∀ k, page k = .ok (given k)) ∧ ArePages size found.length found given

namespace Collection

/-- A page is a slice of the result of a search without limits, if there is a result. -/
theorem page_eq (c : Collection) (options : ListOptions) :
    c.page options =
      (c.find options.filter { selection := options.projection, sort := options.sort }).map
        fun found => (found.drop (options.page * options.size)).take options.size := by
  rw [page, find, find]
  cases c.matching options.filter with
  | error e => rfl
  | ok matched =>
    dsimp only [bind, Except.bind]
    cases SortKey.sort c.sorter options.sort (matched.map Prod.snd) with
    | none => rfl
    | some sorted =>
      simp [upTo, ListOptions.offset, List.map_take, List.map_drop, Except.map, pure, Except.pure]

/-- A search without limits gives every document that matches once. -/
theorem perm_of_find {c : Collection} {filter : Option Filter} {selection : Option Selection}
    {sort : List SortKey} {found : List Value}
    (h : c.find filter { selection := selection, sort := sort } = .ok found) :
    c.IsLegible ∧ c.count filter = .ok found.length ∧
      found.Perm ((c.documents.filter (Filter.accepts filter)).map (c.give selection)) := by
  obtain ⟨hlegible, sorted, hsorted, rfl⟩ := find_eq_ok_iff.1 h
  have hperm : (sorted.map (c.give selection)).Perm
      ((c.documents.filter (Filter.accepts filter)).map (c.give selection)) :=
    (SortKey.perm_sort hsorted).map (c.give selection)
  have hlength : (c.documents.filter (Filter.accepts filter)).length =
      (sorted.map (c.give selection)).length := by
    rw [hperm.length_eq, List.length_map]
  refine ⟨hlegible, ?_, hperm⟩
  rw [count_of_isLegible hlegible, hlength]
  rfl

/-- Whenever a search without limits gives a result, its pages partition it. -/
theorem paginates_of_find {size : Nat} (hsize : 1 ≤ size) {c : Collection}
    {filter : Option Filter} {selection : Option Selection} {sort : List SortKey}
    {found : List Value}
    (h : c.find filter { selection := selection, sort := sort } = .ok found) :
    Paginates size found (c.count filter) fun k => c.page ⟨k, size, selection, filter, sort⟩ := by
  obtain ⟨-, hcount, -⟩ := perm_of_find h
  refine ⟨hcount, _, fun k => ?_, arePages_slices hsize found⟩
  dsimp only
  rw [page_eq, h]
  rfl

/-- Whenever it gives none, nor does any page. -/
theorem page_eq_error {c : Collection} {filter : Option Filter} {selection : Option Selection}
    {sort : List SortKey} {e : CollectionError}
    (h : c.find filter { selection := selection, sort := sort } = .error e) (k size : Nat) :
    c.page ⟨k, size, selection, filter, sort⟩ = .error e := by
  rw [page_eq, h]
  rfl

/-- All sorters let a search succeed exactly if every text can be read and the comparison is
transitive on the documents that match. -/
theorem find_succeeds_iff (c : Collection) (filter : Option Filter) (options : FindOptions) :
    (∀ sorter, ∃ found,
        ({ c with sorter := sorter } : Collection).find filter options = .ok found) ↔
      c.IsLegible ∧ TransitiveOn (SortKey.compareAll options.sort)
        (c.documents.filter (Filter.accepts filter)) := by
  constructor
  · intro h
    obtain ⟨found, hfind⟩ := h .strict
    obtain ⟨hlegible, sorted, hsorted, -⟩ := find_eq_ok_iff.1 hfind
    exact ⟨hlegible, SortKey.transitiveOn_of_sort_strict hsorted⟩
  · rintro ⟨hlegible, htransitive⟩ sorter
    obtain ⟨sorted, hsorted, -⟩ := SortKey.exists_sort_of_transitiveOn sorter htransitive
    exact ⟨_, find_eq_ok_iff.2 ⟨hlegible, sorted, hsorted, rfl⟩⟩

end Collection

/-- How many records come before a page fits a word of 64 bits. -/
theorem ListOptions.offset_lt {options : ListOptions} (hpage : options.page < Word.limit32)
    (hsize : options.size < Word.limit32) : options.offset < Word.limit64 :=
  Nat.mul_lt_mul'' hpage hsize

/-! ### Pages of a facade -/

namespace CollectionFacade

variable {permissions : PermissionSet}

/-- A permission that is no denial lets an operation pass. -/
theorem run_permit_of_ne (facade : CollectionFacade) {action : Action}
    (h : permissions.get action ≠ .denied) {α : Type}
    (f : Permission → ExceptT (FacadeError CollectionError) (StateM Collection) α)
    (c : Collection) :
    (facade.permit permissions action >>= f).run.run c =
      (f (permissions.get action)).run.run c := by
  unfold Facade.permit
  cases hp : permissions.get action with
  | denied => exact absurd hp h
  | _ => rfl

variable (h : permissions.get .read ≠ .denied) (entity : EntitySettings) (reserved : String)
  (c : Collection)
include h

theorem run_getAll (request : ListRequest) :
    (Facade.getAll (⟨Collection.adapter, entity, reserved⟩ : CollectionFacade) permissions
        request).run.run c =
      ((c.page {
        page := request.page
        size := request.size.getD entity.pageSize
        projection := entity.readSelection (permissions.get .read)
        filter := entity.resultFilter request.filter (permissions.get .read).filter
        sort := request.sort }).mapError .store, c) := by
  rw [Facade.getAll, run_permit_of_ne _ h]
  rfl

theorem run_count_of_ne (query : QueryFilter) :
    (Facade.count (⟨Collection.adapter, entity, reserved⟩ : CollectionFacade) permissions
        query).run.run c =
      ((c.count (entity.resultFilter query (permissions.get .read).filter)).mapError .store,
        c) := by
  rw [Facade.count, run_permit_of_ne _ h]
  rfl

end CollectionFacade

theorem Paginates.mapError {ε ε' : Type} {size : Nat} {found : List Value} {count : Except ε Nat}
    {page : Nat → Except ε (List Value)} (h : Paginates size found count page) (f : ε → ε') :
    Paginates size found (count.mapError f) fun k => (page k).mapError f := by
  obtain ⟨hcount, given, hpage, hpages⟩ := h
  exact ⟨by rw [hcount]; rfl, given, fun k => congrArg (Except.mapError f) (hpage k), hpages⟩

/-- Whenever a search without limits succeeds, it gives every document that matches once, and its
pages of one size partition it; whenever it fails, so does every page. All sorters let it succeed
exactly if every text can be read and the comparison is transitive on the documents that match. No
offset of a page is too large for a word; and whoever is not denied to read is given the pages, and
the number of documents, by a facade over the collection. -/
theorem pages_partition_iff (c : Collection) {size : Nat} (hsize : 1 ≤ size) :
    (∀ filter selection sort,
      (∀ found, c.find filter { selection := selection, sort := sort } = .ok found →
        c.IsLegible ∧
        found.Perm ((c.documents.filter (Filter.accepts filter)).map (c.give selection)) ∧
        Paginates size found (c.count filter)
          fun k => c.page ⟨k, size, selection, filter, sort⟩) ∧
      (∀ e, c.find filter { selection := selection, sort := sort } = .error e →
        ∀ k, c.page ⟨k, size, selection, filter, sort⟩ = .error e) ∧
      ((∀ sorter, ∃ found, ({ c with sorter := sorter } : Collection).find filter
          { selection := selection, sort := sort } = .ok found) ↔
        c.IsLegible ∧ TransitiveOn (SortKey.compareAll sort)
          (c.documents.filter (Filter.accepts filter)))) ∧
    (∀ options : ListOptions, options.page < Word.limit32 → options.size < Word.limit32 →
      options.offset < Word.limit64) ∧
    ∀ (entity : EntitySettings) (reserved : String) (permissions : PermissionSet)
      (query : QueryFilter) (sort : List SortKey) (requested : Option Nat),
      permissions.get .read ≠ .denied → requested.getD entity.pageSize = size →
        let facade : CollectionFacade := ⟨Collection.adapter, entity, reserved⟩
        let result := c.find (entity.resultFilter query (permissions.get .read).filter)
          { selection := entity.readSelection (permissions.get .read), sort := sort }
        ∃ page count,
          (∀ k, (facade.getAll permissions ⟨k, requested, query, sort⟩).run.run c =
            (page k, c)) ∧
          (facade.count permissions query).run.run c = (count, c) ∧
          (∀ found, result = .ok found → Paginates size found count page) ∧
          ∀ e, result = .error e → ∀ k, page k = .error (.store e) := by
  refine ⟨fun filter selection sort => ⟨fun found hfind => ?_,
    fun e hfind k => Collection.page_eq_error hfind k size,
    c.find_succeeds_iff filter { selection := selection, sort := sort }⟩,
    fun _ => ListOptions.offset_lt, ?_⟩
  · obtain ⟨hlegible, -, hperm⟩ := Collection.perm_of_find hfind
    exact ⟨hlegible, hperm, Collection.paginates_of_find hsize hfind⟩
  · rintro entity reserved permissions query sort requested hread rfl
    refine ⟨_, _, fun k => CollectionFacade.run_getAll hread entity reserved c _,
      CollectionFacade.run_count_of_ne hread entity reserved c query, fun found hfind => ?_,
      fun e hfind k => ?_⟩
    · exact (Collection.paginates_of_find hsize hfind).mapError FacadeError.store
    · rw [Collection.page_eq_error hfind]
      rfl

/-! ### Notes -/

/-- A note of an owner. -/
def noteOf (id owner : String) : Value := .object [("_id", .string id), ("owner", .string owner)]

/-- Three notes of Ann and one of Bob. -/
def fourNotes : Entries Value :=
  [("1", noteOf "1" "ann"), ("2", noteOf "2" "bob"), ("3", noteOf "3" "ann"),
    ("4", noteOf "4" "ann")]

theorem mapM_load_fourNotes :
    (Collection.ofDocuments (fourNotes.map Prod.snd)).entries.mapM Collection.load =
      .ok fourNotes :=
  Collection.mapM_load_of_comesBack rfl (by decide)

/-- Ann lists the texts of her three notes, the latest first, two on a page. -/
theorem pages_partition_of_notes :
    let c := Collection.ofDocuments (fourNotes.map Prod.snd)
    let rows := Filter.eq "owner" (.string "ann")
    let permissions : PermissionSet :=
      ⟨.denied, .scoped ⟨[rows], some ⟨[("owner", false)]⟩⟩, .denied, .denied⟩
    let entity : EntitySettings := { name := "Note", pageSize := 2 }
    let facade : CollectionFacade := ⟨Collection.adapter, entity, "_"⟩
    let latest : List SortKey := [⟨"_id", .descending⟩]
    let id (id : String) := Value.object [("_id", .string id)]
    1 ≤ 2 ∧ permissions.get .read ≠ .denied ∧ (none : Option Nat).getD entity.pageSize = 2 ∧
      ∃ page count,
        (∀ k, (facade.getAll permissions ⟨k, none, {}, latest⟩).run.run c = (page k, c)) ∧
        (facade.count permissions {}).run.run c = (count, c) ∧
        Paginates 2 [id "4", id "3", id "1"] count page := by
  intro c rows permissions entity facade latest id
  have hread : permissions.get .read ≠ .denied := by simp [permissions, PermissionSet.get]
  obtain ⟨page, count, hpage, hcount, hfound, -⟩ := (pages_partition_iff c (by decide)).2.2 entity
    "_" permissions {} latest none hread rfl
  have hdocuments : c.documents.filter (Filter.accepts (some rows)) =
      [noteOf "1" "ann", noteOf "3" "ann", noteOf "4" "ann"] := by
    rw [Collection.documents_eq_of_mapM mapM_load_fourNotes]
    rfl
  have hfind : c.find (some rows)
      { selection := entity.readSelection (permissions.get .read), sort := latest } =
        .ok [id "4", id "3", id "1"] := by
    rw [Collection.find_eq_ok_iff, hdocuments]
    exact ⟨Collection.isLegible_iff.2 ⟨_, mapM_load_fourNotes⟩, _, rfl, rfl⟩
  exact ⟨by decide, hread, rfl, page, count, hpage, hcount, hfound _ hfind⟩

/-- An item with a number, or a null in its place. -/
def itemOf (id : String) (n : Option Int) : Value :=
  .object [("_id", .string id), ("n", (n.map Value.integer).getD .null)]

/-- Items with the numbers from 20 to 1, and a null after the first ten. -/
def crowd : Entries Value :=
  [("a", some 20), ("b", some 19), ("c", some 18), ("d", some 17), ("e", some 16), ("f", some 15),
    ("g", some 14), ("h", some 13), ("i", some 12), ("j", some 11), ("k", none), ("l", some 10),
    ("m", some 9), ("n", some 8), ("o", some 7), ("p", some 6), ("q", some 5), ("r", some 4),
    ("s", some 3), ("t", some 2), ("u", some 1)].map fun (id, n) => (id, itemOf id n)

theorem mapM_load_crowd :
    (Collection.ofDocuments (crowd.map Prod.snd)).entries.mapM Collection.load = .ok crowd :=
  Collection.mapM_load_of_comesBack rfl (by decide +kernel)

theorem sort_crowd :
    SortKey.sort .insertion [⟨"n", .ascending⟩] (crowd.map Prod.snd) = none := by
  rw [← Option.isNone_iff_eq_none]
  decide +kernel

/-- The items are counted, but the sorter gives up on the whole list and so on every page. -/
theorem given_up_of_crowd :
    let c := Collection.ofDocuments (crowd.map Prod.snd)
    let smallest : List SortKey := [⟨"n", .ascending⟩]
    c.count none = .ok 21 ∧ c.find none { sort := smallest } = .error .unsortable ∧
      ∀ k size, c.page ⟨k, size, none, none, smallest⟩ = .error .unsortable := by
  intro c smallest
  have hlegible : c.IsLegible := Collection.isLegible_iff.2 ⟨crowd, mapM_load_crowd⟩
  have hdocuments : c.documents.filter (Filter.accepts none) = crowd.map Prod.snd := by
    rw [Collection.documents_eq_of_mapM mapM_load_crowd]
    rfl
  have hsorter : c.sorter = .insertion := rfl
  clear_value c
  have hfind : c.find none { sort := smallest } = .error .unsortable :=
    Collection.find_eq_unsortable hlegible (by rw [hsorter, hdocuments]; exact sort_crowd)
  refine ⟨?_, hfind, fun k size => Collection.page_eq_error hfind k size⟩
  rw [Collection.count_of_isLegible hlegible, hdocuments]
  rfl

end RecordGuard
