import Mathlib.Tactic.SplitIfs
import RecordGuard.Collection
import RecordGuard.Proofs.PrintedText
import RecordGuard.Proofs.Results

/-!
# What updates do to a collection

A search for one document reads entry by entry up to the first that the filter accepts;
`exists_split_of_firstMatch` gives the place at which it stops. Other searches read every text
(`exists_mapM_of_matching`), succeed exactly if they can (`exists_matching_eq_ok_iff`), and find the
same entry first (`firstMatch_eq_of_mapM`).
`exists_identifier_of_insert`, `exists_of_updateOne` and `exists_of_deleteOne` say all that adding,
updating and removing a document can do; `member?_setMembers` says which members an update sets.
-/

namespace RecordGuard.Collection

open Json (Value)

variable {c c' : Collection}

/-! ### Reading -/

theorem mem_documents_iff {document : Value} :
    document ∈ c.documents ↔ ∃ entry ∈ c.entries, Value.read? entry.2 = some document :=
  List.mem_filterMap

theorem load_eq_ok_iff {entry : String × String} {found : String × Value} :
    load entry = .ok found ↔ found.1 = entry.1 ∧ Value.read? entry.2 = some found.2 := by
  rw [load]
  cases Value.read? entry.2 <;> simp [Prod.ext_iff, eq_comm]

variable (c) in
/-- Every text in the collection can be read. -/
def IsLegible : Prop := ∀ entry ∈ c.entries, Value.read? entry.2 ≠ none

theorem isLegible_iff : c.IsLegible ↔ ∃ contents, c.entries.mapM load = .ok contents := by
  constructor
  · refine fun h => exists_mapM_eq_ok fun entry he => ?_
    obtain ⟨document, hread⟩ := Option.ne_none_iff_exists'.1 (h entry he)
    exact ⟨(entry.1, document), load_eq_ok_iff.2 ⟨rfl, hread⟩⟩
  · rintro ⟨contents, hcontents⟩ entry he hread
    rcases mapM_cases load c.entries with ⟨_, -, hload⟩ | ⟨_, -, _, -, herror⟩
    · obtain ⟨found, hfound⟩ := hload entry he
      rw [(load_eq_ok_iff.1 hfound).2] at hread
      cases hread
    · rw [herror] at hcontents
      cases hcontents

/-! ### Searching -/

theorem exists_mapM_of_matching {filter : Option Filter} {found : Entries Value}
    (h : c.matching filter = .ok found) :
    ∃ contents, c.entries.mapM load = .ok contents ∧
      found = contents.filter fun entry => Filter.accepts filter entry.2 := by
  obtain ⟨contents, hcontents, heq⟩ := bind_eq_ok_iff.1 h
  cases heq
  exact ⟨contents, hcontents, rfl⟩

theorem exists_matching_eq_ok_iff (filter : Option Filter) :
    (∃ found, c.matching filter = .ok found) ↔ c.IsLegible := by
  rw [isLegible_iff]
  constructor
  · rintro ⟨found, h⟩
    obtain ⟨contents, hcontents, -⟩ := exists_mapM_of_matching h
    exact ⟨contents, hcontents⟩
  · rintro ⟨contents, hcontents⟩
    exact ⟨_, bind_eq_ok_iff.2 ⟨contents, hcontents, rfl⟩⟩

/-- Documents that come back as they are written are found as they were put in. -/
theorem mapM_load_of_comesBack {contents : Entries Value}
    (hentries : c.entries = contents.map fun entry => (entry.1, entry.2.compact))
    (h : ∀ entry ∈ contents, entry.2.ComesBack) : c.entries.mapM load = .ok contents := by
  rw [hentries]
  clear hentries
  induction contents with
  | nil => rfl
  | cons entry contents ih =>
    obtain ⟨hentry, hcontents⟩ := List.forall_mem_cons.1 h
    have hload : load (entry.1, entry.2.compact) = .ok entry :=
      load_eq_ok_iff.2 ⟨rfl, hentry.read?_compact⟩
    rw [List.map_cons, List.mapM_cons, hload, ih hcontents]
    rfl

theorem matching_eq_of_mapM {filter : Option Filter} {contents : Entries Value}
    (h : c.entries.mapM load = .ok contents) :
    c.matching filter = .ok (contents.filter fun entry => Filter.accepts filter entry.2) :=
  bind_eq_ok_iff.2 ⟨contents, h, rfl⟩

theorem filterMap_read?_of_mapM {entries : Entries String} {contents : Entries Value}
    (h : entries.mapM load = .ok contents) :
    (entries.filterMap fun entry => Value.read? entry.2) = contents.map Prod.snd := by
  induction entries generalizing contents with
  | nil =>
    cases h
    rfl
  | cons entry rest ih =>
    rw [List.mapM_cons] at h
    obtain ⟨found, hload, h⟩ := bind_eq_ok_iff.1 h
    obtain ⟨others, hothers, h⟩ := bind_eq_ok_iff.1 h
    cases h
    simp only [List.filterMap_cons, (load_eq_ok_iff.1 hload).2, ih hothers, List.map_cons]

/-- Where every text can be read, the documents are what is read. -/
theorem documents_eq_of_mapM {contents : Entries Value} (h : c.entries.mapM load = .ok contents) :
    c.documents = contents.map Prod.snd :=
  filterMap_read?_of_mapM h

theorem map_snd_of_matching {filter : Option Filter} {found : Entries Value}
    (h : c.matching filter = .ok found) :
    found.map Prod.snd = c.documents.filter (Filter.accepts filter) := by
  obtain ⟨contents, hcontents, rfl⟩ := exists_mapM_of_matching h
  rw [documents_eq_of_mapM hcontents, List.filter_map]
  rfl

theorem mem_documents_of_matching {filter : Option Filter} {found : Entries Value}
    (h : c.matching filter = .ok found) {entry : String × Value} (he : entry ∈ found) :
    entry.2 ∈ c.documents ∧ Filter.accepts filter entry.2 = true :=
  List.mem_filter.1 (map_snd_of_matching h ▸ List.mem_map_of_mem he)

theorem count_of_isLegible (h : c.IsLegible) (filter : Option Filter) :
    c.count filter = .ok (c.documents.filter (Filter.accepts filter)).length := by
  obtain ⟨found, hfound⟩ := (exists_matching_eq_ok_iff filter).2 h
  rw [count, hfound, ← map_snd_of_matching hfound, List.length_map]
  rfl

theorem mem_upTo {α : Type} {limit : Option Nat} {items : List α} {a : α}
    (h : a ∈ upTo limit items) : a ∈ items := by
  cases limit with
  | none => exact h
  | some n => exact List.mem_of_mem_take h

/-- A search gives a result exactly if every text can be read and the sorter returns a list. -/
theorem find_eq_ok_iff {filter : Option Filter} {options : FindOptions} {found : List Value} :
    c.find filter options = .ok found ↔
      c.IsLegible ∧ ∃ sorted, SortKey.sort c.sorter options.sort
          (c.documents.filter (Filter.accepts filter)) = some sorted ∧
        found = (upTo options.limit (sorted.drop options.skip)).map
          (c.give options.selection) := by
  rw [find, bind_eq_ok_iff, ← exists_matching_eq_ok_iff filter]
  constructor
  · rintro ⟨matched, hmatched, h⟩
    rw [← map_snd_of_matching hmatched]
    cases hsort : SortKey.sort c.sorter options.sort (matched.map Prod.snd) with
    | none =>
      rw [hsort] at h
      cases h
    | some sorted =>
      rw [hsort] at h
      cases h
      exact ⟨⟨matched, hmatched⟩, sorted, rfl, rfl⟩
  · rintro ⟨⟨matched, hmatched⟩, sorted, hsorted, rfl⟩
    rw [← map_snd_of_matching hmatched] at hsorted
    exact ⟨matched, hmatched, by rw [hsorted]; rfl⟩

/-- A search fails where the sorter gives up. -/
theorem find_eq_unsortable {filter : Option Filter} {options : FindOptions} (h : c.IsLegible)
    (hsort : SortKey.sort c.sorter options.sort
      (c.documents.filter (Filter.accepts filter)) = none) :
    c.find filter options = .error .unsortable := by
  obtain ⟨matched, hmatched⟩ := (exists_matching_eq_ok_iff filter).2 h
  rw [← map_snd_of_matching hmatched] at hsort
  simp only [find, hmatched, bind, Except.bind, hsort]

/-- What a search gives out is selected from documents that the filter accepts. -/
theorem exists_of_mem_find {filter : Option Filter} {options : FindOptions} {found : List Value}
    (h : c.find filter options = .ok found) {given : Value} (hg : given ∈ found) :
    ∃ document ∈ c.documents, Filter.accepts filter document = true ∧
      given = c.give options.selection document := by
  obtain ⟨-, sorted, hsorted, rfl⟩ := find_eq_ok_iff.1 h
  obtain ⟨document, hd, rfl⟩ := List.mem_map.1 hg
  have hmem := (SortKey.perm_sort hsorted).mem_iff.1 (List.mem_of_mem_drop (mem_upTo hd))
  obtain ⟨hdocument, haccepts⟩ := List.mem_filter.1 hmem
  exact ⟨document, hdocument, haccepts, rfl⟩

/-- A text that is read as a document that the filter does not accept. -/
def Misses (filter : Option Filter) (text : String) : Prop :=
  ∃ document, Value.read? text = some document ∧ Filter.accepts filter document = false

/-- A search for one document stops at the first entry that the filter accepts. -/
theorem exists_split_of_firstOf {filter : Option Filter} {entries : Entries String} {key : String}
    {document : Value} (h : firstOf filter entries = .ok (some (key, document))) :
    ∃ before text after, entries = before ++ (key, text) :: after ∧
      Value.read? text = some document ∧ Filter.accepts filter document = true ∧
      ∀ entry ∈ before, Misses filter entry.2 := by
  induction entries with
  | nil => cases h
  | cons entry rest ih =>
    rw [firstOf] at h
    cases hload : load entry with
    | error e =>
      rw [hload] at h
      cases h
    | ok found =>
      obtain ⟨hkey, hread⟩ := load_eq_ok_iff.1 hload
      simp only [hload] at h
      split_ifs at h with haccepts
      · cases h
        exact ⟨[], entry.2, rest, by rw [show key = entry.1 from hkey]; rfl, hread, haccepts,
          List.forall_mem_nil _⟩
      · obtain ⟨before, text, after, rfl, hdocument, haccepts', hbefore⟩ := ih h
        exact ⟨entry :: before, text, after, rfl, hdocument, haccepts',
          List.forall_mem_cons.2 ⟨⟨found.2, hread, by simpa using haccepts⟩, hbefore⟩⟩

theorem exists_split_of_firstMatch {filter : Option Filter} {key : String} {document : Value}
    (h : c.firstMatch filter = .ok (some (key, document))) :
    ∃ before text after, c.entries = before ++ (key, text) :: after ∧
      Value.read? text = some document ∧ Filter.accepts filter document = true ∧
      ∀ entry ∈ before, Misses filter entry.2 :=
  exists_split_of_firstOf h

theorem misses_of_firstOf {filter : Option Filter} {entries : Entries String}
    (h : firstOf filter entries = .ok none) : ∀ entry ∈ entries, Misses filter entry.2 := by
  induction entries with
  | nil => exact List.forall_mem_nil _
  | cons entry rest ih =>
    rw [firstOf] at h
    cases hload : load entry with
    | error e =>
      rw [hload] at h
      cases h
    | ok found =>
      simp only [hload] at h
      split_ifs at h with haccepts
      · cases h
      exact List.forall_mem_cons.2
        ⟨⟨found.2, (load_eq_ok_iff.1 hload).2, by simpa using haccepts⟩, ih h⟩

theorem not_accepts_of_firstMatch {filter : Option Filter} (h : c.firstMatch filter = .ok none)
    {document : Value} (hd : document ∈ c.documents) : Filter.accepts filter document = false := by
  obtain ⟨entry, he, hread⟩ := mem_documents_iff.1 hd
  obtain ⟨missed, hmissed, haccepts⟩ := misses_of_firstOf h entry he
  rw [hread] at hmissed
  cases hmissed
  exact haccepts

theorem mem_documents_of_firstMatch {filter : Option Filter} {key : String} {document : Value}
    (h : c.firstMatch filter = .ok (some (key, document))) : document ∈ c.documents := by
  obtain ⟨before, text, after, hentries, hread, -, -⟩ := exists_split_of_firstMatch h
  refine mem_documents_iff.2 ⟨(key, text), ?_, hread⟩
  rw [hentries]
  exact List.mem_append_right before List.mem_cons_self

/-- What is read back before an update is one of the documents. -/
theorem mem_documents_of_findOne {filter : Option Filter} {document : Value}
    (h : c.findOne filter none = .ok (some document)) : document ∈ c.documents := by
  obtain ⟨found, hfirst, heq⟩ := bind_eq_ok_iff.1 h
  obtain ⟨entry, rfl, rfl⟩ := Option.map_eq_some_iff.1 (Except.ok.inj heq)
  exact mem_documents_of_firstMatch hfirst

/-- Where every text can be read, the first entry that matches is the first of those that match. -/
theorem firstOf_eq_of_mapM {filter : Option Filter} {entries : Entries String}
    {contents : Entries Value} (h : entries.mapM load = .ok contents) :
    firstOf filter entries =
      .ok (contents.find? fun entry => Filter.accepts filter entry.2) := by
  induction entries generalizing contents with
  | nil =>
    cases h
    rfl
  | cons entry rest ih =>
    rw [List.mapM_cons] at h
    obtain ⟨found, hload, h⟩ := bind_eq_ok_iff.1 h
    obtain ⟨others, hothers, h⟩ := bind_eq_ok_iff.1 h
    cases h
    rw [firstOf, hload, List.find?_cons]
    dsimp only
    cases Filter.accepts filter found.2 with
    | true => rfl
    | false => exact ih hothers

theorem firstMatch_eq_of_mapM {filter : Option Filter} {contents : Entries Value}
    (h : c.entries.mapM load = .ok contents) :
    c.firstMatch filter =
      .ok (contents.find? fun entry => Filter.accepts filter entry.2) :=
  firstOf_eq_of_mapM h

/-- Writing one document adds what reading its text gives, and nothing else. -/
theorem mem_documents_of_insert {key : String} {written document : Value}
    (hentries : c'.entries = Entries.insert c.entries key written.compact)
    (h : document ∈ c'.documents) :
    Value.read? written.compact = some document ∨ document ∈ c.documents := by
  obtain ⟨entry, he, hread⟩ := mem_documents_iff.1 h
  rw [hentries] at he
  rcases Entries.mem_insert he with rfl | he
  · exact Or.inl hread
  · exact Or.inr (mem_documents_iff.2 ⟨entry, he, hread⟩)

theorem documents_erase_subset (c : Collection) (key : String) :
    ({ c with
      entries := Entries.erase c.entries key } : Collection).documents ⊆ c.documents := by
  intro document hd
  obtain ⟨entry, he, hread⟩ := mem_documents_iff.1 hd
  exact mem_documents_iff.2 ⟨entry, Entries.mem_erase he, hread⟩

/-- Whatever is found in a collection has been read, so that it is canonical. -/
theorem isCanonical_of_mem_documents {document : Value} (h : document ∈ c.documents) :
    document.IsCanonical := by
  obtain ⟨entry, -, hread⟩ := mem_documents_iff.1 h
  exact Value.isCanonical_of_read? hread

/-- A search depends on the documents that its filter accepts, and on nothing else of the filter. -/
theorem matching_congr {f g : Option Filter}
    (h : ∀ document, Filter.accepts f document = Filter.accepts g document) :
    c.matching f = c.matching g := by
  rw [matching, matching, funext h]

theorem firstMatch_congr {f g : Option Filter}
    (h : ∀ document, Filter.accepts f document = Filter.accepts g document) :
    c.firstMatch f = c.firstMatch g := by
  rw [firstMatch, firstMatch]
  induction c.entries with
  | nil => rfl
  | cons entry rest ih => rw [firstOf, firstOf, funext h, ih]

/-! ### Adding -/

/-- The members of a document with its identifier, a generated one if it has none. -/
def identified (c : Collection) (members : Entries Value) : Entries Value :=
  match Entries.get? members c.idField with
  | some _ => members
  | none => Entries.insert members c.idField (.string c.ids.next)

theorem get?_identified (c : Collection) (members : Entries Value) {key : String}
    (h : key ≠ c.idField) : Entries.get? (c.identified members) key = Entries.get? members key := by
  rw [identified]
  split
  · rfl
  · rw [Entries.get?_insert, if_neg (Ne.symm h)]

theorem isCanonical_identified {members : Entries Value} (h : (Value.object members).IsCanonical) :
    (Value.object (c.identified members)).IsCanonical := by
  rw [identified]
  split
  · exact h
  · exact h.insert c.idField trivial

/-- A document that is added gets the key of its identifier, which no other entry has. -/
theorem exists_identifier_of_insert {document added : Value}
    (h : c.insert document = .ok (added, c')) :
    ∃ members id key, document = .object members ∧ added = .object (c.identified members) ∧
      Entries.get? (c.identified members) c.idField = some id ∧ keyOf id = .ok key ∧
      Entries.get? c.entries key = none ∧ c'.idField = c.idField ∧
      c'.entries = Entries.insert c.entries key added.compact := by
  cases document with
  | object members =>
    rw [insert] at h
    cases hid : Entries.get? members c.idField with
    | none =>
      have hidentified : c.identified members =
          Entries.insert members c.idField (.string c.ids.next) := by rw [identified, hid]
      simp only [hid, keyOf] at h
      split_ifs at h with hhas
      cases h
      refine ⟨members, .string c.ids.next, _, rfl, by rw [hidentified], ?_, rfl,
        Entries.has_eq_false_iff.1 (by simpa using hhas), rfl, rfl⟩
      rw [hidentified, Entries.get?_insert, if_pos rfl]
    | some id =>
      have hidentified : c.identified members = members := by rw [identified, hid]
      simp only [hid] at h
      cases hkey : keyOf id with
      | error e => simp [hkey] at h
      | ok key =>
        simp only [hkey] at h
        split_ifs at h with hhas
        cases h
        refine ⟨members, id, key, rfl, by rw [hidentified], ?_, hkey,
          Entries.has_eq_false_iff.1 (by simpa using hhas), rfl, rfl⟩
        rw [hidentified, hid]
  | _ => cases h

theorem exists_of_insert {document added : Value} (h : c.insert document = .ok (added, c')) :
    ∃ members key, document = .object members ∧ added = .object (c.identified members) ∧
      Entries.get? c.entries key = none ∧ c'.idField = c.idField ∧
      c'.entries = Entries.insert c.entries key added.compact := by
  obtain ⟨members, _, key, hdocument, hadded, -, -, hrest⟩ := exists_identifier_of_insert h
  exact ⟨members, key, hdocument, hadded, hrest⟩

/-- The collection of the given documents, as far as they can be stored. -/
def ofDocuments (documents : List Value) : Collection :=
  ((empty defaultIdField (.still 0) .insertion).insertAll documents).2

/-! ### Updating -/

theorem exists_of_updateOne {filter : Option Filter} {payload : Value} {updated : Option Value}
    (h : c.updateOne filter payload = .ok (updated, c')) :
    (c.firstMatch filter = .ok none ∧ updated = none ∧ c' = c) ∨
      ∃ members key document, payload = .object members ∧
        c.firstMatch filter = .ok (some (key, document)) ∧
        updated = some (setMembers c.idField members document) ∧
        c' = { c with
          entries := Entries.insert c.entries key
            (setMembers c.idField members document).compact } := by
  cases payload with
  | object members =>
    rw [updateOne] at h
    rcases hfirst : c.firstMatch filter with e | _ | ⟨key, document⟩
    · simp [hfirst] at h
    · simp only [hfirst] at h
      cases h
      exact Or.inl ⟨rfl, rfl, rfl⟩
    · simp only [hfirst] at h
      cases h
      exact Or.inr ⟨members, key, document, rfl, rfl, rfl, rfl⟩
  | _ => cases h

theorem setMembers_object (idField : String) (update members : Entries Value) :
    setMembers idField update (.object members) =
      .object ((update.filter fun entry => entry.1 != idField).foldl
        (fun members entry => Entries.insert members entry.1 entry.2) members) := by
  rw [setMembers]
  congr 1
  induction update generalizing members with
  | nil => rfl
  | cons entry update ih =>
    by_cases hid : entry.1 = idField
    · rw [List.foldl_cons, if_pos hid, List.filter_cons_of_neg (by simp [hid]), ih]
    · rw [List.foldl_cons, if_neg hid, List.filter_cons_of_pos (by simp [hid]), List.foldl_cons, ih]

/-- An update sets the members it names, except the identifier. -/
theorem member?_setMembers (idField : String) {update : Entries Value}
    (h : Entries.Ordered update) (members : Entries Value) (key : String) :
    (setMembers idField update (.object members)).member? key =
      if key = idField then Entries.get? members key
      else (Entries.get? update key).or (Entries.get? members key) := by
  rw [setMembers_object, Value.member?, Value.members?, Option.bind_some,
    Entries.get?_foldl_insert (List.Pairwise.filter _ h),
    Entries.get?_filter fun key => key != idField]
  by_cases hid : key = idField <;> simp [hid]

/-- An update never sets the identifier. -/
theorem member?_setMembers_idField (idField : String) (update : Entries Value) (document : Value) :
    (setMembers idField update document).member? idField = document.member? idField := by
  cases document with
  | object members =>
    rw [setMembers]
    show Entries.get? _ idField = Entries.get? members idField
    induction update generalizing members with
    | nil => rfl
    | cons entry update ih =>
      rw [List.foldl_cons, ih]
      split_ifs with hid
      · rfl
      · rw [Entries.get?_insert, if_neg hid]
  | _ => rfl

/-- What an updated document has at a path behind another key than the identifier comes from the
update or has been there. -/
theorem getSegments?_setMembers {idField : String} {update : Entries Value}
    (h : Entries.Ordered update) {document v : Value} {key : String} {keys : List String}
    (hid : key ≠ idField)
    (hv : Path.getSegments? (setMembers idField update document) (key :: keys) = some v) :
    Path.getSegments? (.object update) (key :: keys) = some v ∨
      Path.getSegments? document (key :: keys) = some v := by
  cases document with
  | object members =>
    rw [Path.getSegments?_cons, member?_setMembers idField h, if_neg hid] at hv
    cases hk : Entries.get? update key with
    | none =>
      rw [hk] at hv
      exact Or.inr hv
    | some child =>
      rw [hk] at hv
      have hmember : (Value.object update).member? key = some child := hk
      exact Or.inl (by rw [Path.getSegments?_cons, hmember]; exact hv)
  | _ => exact Or.inr hv

theorem isCanonical_setMembers {idField : String} {update : Entries Value} {document : Value}
    (hu : (Value.object update).IsCanonical) (hd : document.IsCanonical) :
    (setMembers idField update document).IsCanonical := by
  cases document with
  | object members =>
    rw [setMembers_object]
    refine hd.foldl_insert fun entry he => ?_
    exact (Value.isCanonical_object_iff.1 hu).2 entry (List.mem_filter.1 he).1
  | _ => exact hd

/-! ### Removing -/

theorem exists_of_deleteOne {filter : Option Filter} {removed : Option Value}
    (h : c.deleteOne filter = .ok (removed, c')) :
    (c.firstMatch filter = .ok none ∧ removed = none ∧ c' = c) ∨
      ∃ key document, c.firstMatch filter = .ok (some (key, document)) ∧
        removed = some document ∧ c' = { c with entries := Entries.erase c.entries key } := by
  rw [deleteOne] at h
  rcases hfirst : c.firstMatch filter with e | _ | ⟨key, document⟩
  · simp [hfirst] at h
  · simp only [hfirst] at h
    cases h
    exact Or.inl ⟨rfl, rfl, rfl⟩
  · simp only [hfirst] at h
    cases h
    exact Or.inr ⟨key, document, rfl, rfl, rfl⟩

end RecordGuard.Collection
