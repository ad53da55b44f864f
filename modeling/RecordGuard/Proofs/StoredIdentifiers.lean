import Mathlib.Logic.Function.Iterate
import RecordGuard.Proofs.Confinement
import RecordGuard.Proofs.Removals
import RecordGuard.Proofs.Rewriting

/-!
# Identifiers of stored documents

Documents are added, updated and removed one change at a time. `Collection.Permits` says what a
change may answer and leave behind: a new document takes the free key of its identifier, an update
and a removal act on the entry that a search for one document finds and on no other, and a failure
changes nothing. This is so whatever becomes of documents in their texts.

A collection is a map from keys to documents for as long as what is written is read as it was
(`Collection.KeepsAll`). Then every document is an object under the key of its identifier
(`Collection.IsKeyed`), which lasts as long as the entry does (`Collection.keyed_of_run`). Otherwise
the identifier in a document is written and read back once when the document is added and once more
with every update of its entry (`Collection.identifier?_of_insert`), and may drift.
-/

namespace RecordGuard.Collection

open Json (Value Number)

/-- A change of a collection. -/
inductive Change where
  | insert (document : Value)
  | update (filter : Option Filter) (fields : Value)
  | delete (filter : Option Filter)
  | clear

/-- Whether what a change brings along is canonical, as everything that is read is. -/
def Change.IsCanonical : Change → Prop
  | .insert document => document.IsCanonical
  | .update _ fields => fields.IsCanonical
  | _ => True

variable (c : Collection)

/-- What a change answers, and the collection after it. -/
def apply : Change → Except CollectionError (Option Value) × Collection
  | .insert document =>
    match c.insert document with
    | .ok (added, c') => (.ok (some added), c')
    | .error e => (.error e, c)
  | .update filter fields =>
    match c.updateOne filter fields with
    | .ok (updated, c') => (.ok updated, c')
    | .error e => (.error e, c)
  | .delete filter =>
    match c.deleteOne filter with
    | .ok (removed, c') => (.ok removed, c')
    | .error e => (.error e, c)
  | .clear => (.ok none, c.clear)

/-- The collection after a list of changes. -/
def applyAll (changes : List Change) : Collection :=
  changes.foldl (fun c change => (c.apply change).2) c

theorem applyAll_cons (change : Change) (changes : List Change) :
    c.applyAll (change :: changes) = (c.apply change).2.applyAll changes := rfl

/-! ### What a change may do -/

variable {c}

variable (c) in
/-- The keys are in order, so that none comes twice, and every document is an object. -/
structure IsSound : Prop where
  ordered : Entries.Ordered c.entries
  holdsObjects : c.HoldsObjects

theorem isSound_empty (idField : String) (ids : IdSource) (sorter : Sorter Value) :
    (empty idField ids sorter).IsSound :=
  ⟨Entries.ordered_nil, fun _ hd => absurd hd List.not_mem_nil⟩

variable (c) in
/-- Whether a change updates the entry under a key. -/
def hits (key : String) : Change → Bool
  | .update filter (.object _) =>
    match c.firstMatch filter with
    | .ok (some (found, _)) => found == key
    | _ => false
  | _ => false

/-- An update that does not go through hits nothing. -/
theorem hits_eq_false {filter : Option Filter} {fields : Value}
    (h : ∀ found, c.firstMatch filter ≠ .ok (some found)) (key : String) :
    c.hits key (.update filter fields) = false := by
  unfold hits
  split
  · rename_i hupdate
    cases hupdate
    split
    · rename_i hfirst
      exact absurd hfirst (h _)
    · rfl
  · rfl

/-- What a change leaves behind: the collection it was, or one in which a document that was written
stands under a key, or one without an entry, or nothing. -/
theorem apply_cases (c : Collection) (change : Change) :
    (c.apply change).2 = c ∧ (∀ key, c.hits key change = false) ∨
      (∃ document members id key, change = .insert document ∧ document = .object members ∧
        c.insert document = .ok (.object (c.identified members), (c.apply change).2) ∧
        Entries.get? (c.identified members) c.idField = some id ∧ keyOf id = .ok key ∧
        Entries.get? c.entries key = none ∧ (c.apply change).2.idField = c.idField ∧
        (c.apply change).2.entries =
          Entries.insert c.entries key (Value.object (c.identified members)).compact) ∨
      (∃ filter members key document, change = .update filter (.object members) ∧
        c.firstMatch filter = .ok (some (key, document)) ∧
        c.updateOne filter (.object members) =
          .ok (some (setMembers c.idField members document), (c.apply change).2) ∧
        (c.apply change).2 = { c with
          entries := Entries.insert c.entries key
            (setMembers c.idField members document).compact }) ∨
      (∃ filter key, change = .delete filter ∧
        (c.apply change).2 = { c with entries := Entries.erase c.entries key }) ∨
      change = .clear ∧ (c.apply change).2 = c.clear := by
  cases change with
  | insert document =>
    rw [apply]
    cases hinsert : c.insert document with
    | error e => exact Or.inl ⟨rfl, fun _ => rfl⟩
    | ok result =>
      obtain ⟨added, c'⟩ := result
      obtain ⟨members, id, key, hdocument, rfl, hid, hkey, hfree, hfield, hentries⟩ :=
        exists_identifier_of_insert hinsert
      exact Or.inr (Or.inl ⟨document, members, id, key, rfl, hdocument, hinsert, hid, hkey, hfree,
        hfield, hentries⟩)
  | update filter fields =>
    rw [apply]
    cases hupdate : c.updateOne filter fields with
    | error e =>
      refine Or.inl ⟨rfl, fun key => ?_⟩
      cases fields with
      | object members =>
        refine hits_eq_false (fun found hfirst => ?_) key
        rw [updateOne, hfirst] at hupdate
        cases hupdate
      | _ => rfl
    | ok result =>
      obtain ⟨answer, c'⟩ := result
      rcases exists_of_updateOne hupdate with
        ⟨hfirst, -, rfl⟩ | ⟨members, key, document, rfl, hfirst, rfl, rfl⟩
      · refine Or.inl ⟨rfl, hits_eq_false fun found hfound => ?_⟩
        cases hfirst.symm.trans hfound
      · exact Or.inr (Or.inr (Or.inl ⟨filter, members, key, document, rfl, hfirst, hupdate, rfl⟩))
  | delete filter =>
    rw [apply]
    cases hdelete : c.deleteOne filter with
    | error e => exact Or.inl ⟨rfl, fun _ => rfl⟩
    | ok result =>
      obtain ⟨answer, c'⟩ := result
      rcases exists_of_deleteOne hdelete with ⟨-, -, rfl⟩ | ⟨key, document, -, -, rfl⟩
      · exact Or.inl ⟨rfl, fun _ => rfl⟩
      · exact Or.inr (Or.inr (Or.inr (Or.inl ⟨filter, key, rfl, rfl⟩)))
  | clear => exact Or.inr (Or.inr (Or.inr (Or.inr ⟨rfl, rfl⟩)))

theorem idField_apply (c : Collection) (change : Change) :
    (c.apply change).2.idField = c.idField := by
  rcases c.apply_cases change with
    ⟨h, -⟩ | ⟨_, _, _, _, -, -, -, -, -, -, h, -⟩ | ⟨_, _, _, _, -, -, -, h⟩ | ⟨_, _, -, h⟩ |
    ⟨-, h⟩
  · rw [h]
  · exact h
  · rw [h]
  · rw [h]
  · rw [h]
    rfl

/-- Every change keeps a collection sound. -/
theorem IsSound.apply (h : c.IsSound) (change : Change) : (c.apply change).2.IsSound := by
  rcases c.apply_cases change with
    ⟨hc', -⟩ | ⟨_, members, _, key, -, -, -, -, -, -, -, hentries⟩ |
    ⟨_, members, key, document, -, hfirst, -, hc'⟩ | ⟨_, key, -, hc'⟩ | ⟨-, hc'⟩
  · rw [hc']
    exact h
  · exact ⟨hentries ▸ Entries.ordered_insert h.ordered key _,
      holdsObjects_of_insert h.holdsObjects hentries⟩
  · obtain ⟨kept, rfl⟩ :=
      Value.exists_of_isObject (h.holdsObjects _ (mem_documents_of_firstMatch hfirst))
    rw [hc']
    exact ⟨Entries.ordered_insert h.ordered key _, holdsObjects_of_insert h.holdsObjects rfl⟩
  · rw [hc']
    exact ⟨Entries.ordered_erase h.ordered key,
      fun document hd => h.holdsObjects document (c.documents_erase_subset key hd)⟩
  · rw [hc']
    exact isSound_empty c.idField c.ids c.sorter

theorem IsSound.applyAll (h : c.IsSound) (changes : List Change) :
    (c.applyAll changes).IsSound := by
  induction changes generalizing c with
  | nil => exact h
  | cons change changes ih => exact ih (h.apply change)

/-! ### A map from keys to documents -/

variable (c) in
/-- The document that the change writes, if it writes one, is read as it was written. -/
def Keeps : Change → Prop
  | .insert document => ∀ added c', c.insert document = .ok (added, c') →
    Value.read? added.compact = some added
  | .update filter fields => ∀ updated c', c.updateOne filter fields = .ok (some updated, c') →
    Value.read? updated.compact = some updated
  | _ => True

/-- The collection is a map from keys to documents throughout the changes. -/
def KeepsAll : Collection → List Change → Prop
  | _, [] => True
  | c, change :: changes => c.Keeps change ∧ KeepsAll (c.apply change).2 changes

/-- The text is that of an object whose identifier has the given text as its key. -/
def IsFiled (idField key text : String) : Prop :=
  ∃ members id, Value.read? text = some (.object members) ∧
    Entries.get? members idField = some id ∧ keyOf id = .ok key

variable (c) in
/-- Every document is an object under the key of its identifier, and no key comes twice. -/
structure IsKeyed : Prop where
  ordered : Entries.Ordered c.entries
  isFiled : ∀ entry ∈ c.entries, IsFiled c.idField entry.1 entry.2

theorem isKeyed_empty (idField : String) (ids : IdSource) (sorter : Sorter Value) :
    (empty idField ids sorter).IsKeyed :=
  ⟨Entries.ordered_nil, fun _ he => absurd he List.not_mem_nil⟩

/-- The entry that a search finds is the one under its key. -/
theorem get?_of_firstMatch (ho : Entries.Ordered c.entries) {filter : Option Filter}
    {key : String} {document : Value} (hfirst : c.firstMatch filter = .ok (some (key, document))) :
    ∃ text, Entries.get? c.entries key = some text ∧ Value.read? text = some document := by
  obtain ⟨before, text, after, hentries, hread, -, -⟩ := exists_split_of_firstMatch hfirst
  refine ⟨text, ho.get?_of_mem ?_, hread⟩
  rw [hentries]
  exact List.mem_append_right before List.mem_cons_self

/-- A document that is read as it was written is put under the key of its identifier. -/
theorem IsKeyed.insert (h : c.IsKeyed) {c' : Collection} (hfield : c'.idField = c.idField)
    {key : String} {written id : Value}
    (hread : Value.read? written.compact = some written) (hobject : written.isObject = true)
    (hid : written.member? c.idField = some id) (hkey : keyOf id = .ok key)
    (hentries : c'.entries = Entries.insert c.entries key written.compact) : c'.IsKeyed where
  ordered := hentries ▸ Entries.ordered_insert h.ordered key _
  isFiled entry he := by
    rw [hentries] at he
    rw [hfield]
    rcases Entries.mem_insert he with rfl | he
    · obtain ⟨members, rfl⟩ := Value.exists_of_isObject hobject
      exact ⟨members, id, hread, hid, hkey⟩
    · exact h.isFiled entry he

/-- Every change that keeps what it writes leaves the documents under the keys of their
identifiers. -/
theorem IsKeyed.apply (h : c.IsKeyed) {change : Change} (hkeeps : c.Keeps change) :
    (c.apply change).2.IsKeyed := by
  have hfield := c.idField_apply change
  rcases c.apply_cases change with
    ⟨hc', -⟩ | ⟨document, members, id, key, rfl, -, hinsert, hid, hkey, -, -, hentries⟩ |
    ⟨filter, members, key, document, rfl, hfirst, hupdate, hc'⟩ | ⟨_, key, -, hc'⟩ | ⟨-, hc'⟩
  · rw [hc']
    exact h
  · exact h.insert hfield (hkeeps _ _ hinsert) rfl hid hkey hentries
  · obtain ⟨text, hget, hread⟩ := get?_of_firstMatch h.ordered hfirst
    obtain ⟨kept, id, hkept, hid, hkey⟩ := h.isFiled _ (Entries.mem_of_get? hget)
    cases hread.symm.trans hkept
    have hupdated : (setMembers c.idField members (.object kept)).member? c.idField = some id :=
      (member?_setMembers_idField c.idField members _).trans hid
    exact h.insert hfield (hkeeps _ _ hupdate) rfl hupdated hkey (by rw [hc'])
  · rw [hc']
    exact ⟨Entries.ordered_erase h.ordered key, fun entry he => h.isFiled entry
      (Entries.mem_erase he)⟩
  · rw [hc']
    exact isKeyed_empty c.idField c.ids c.sorter

theorem IsKeyed.applyAll (h : c.IsKeyed) {changes : List Change} (hkeeps : c.KeepsAll changes) :
    (c.applyAll changes).IsKeyed := by
  induction changes generalizing c with
  | nil => exact h
  | cons change changes ih => exact ih (h.apply hkeeps.1) hkeeps.2

/-! ### The life of an entry -/

variable (c) in
/-- What a search reads as the identifier of the entry under a key. -/
def identifier? (key : String) : Option Value :=
  (Entries.get? c.entries key).bind fun text =>
    (Value.read? text).bind fun document => document.member? c.idField

variable (c) in
/-- The entry under a key is there before each of the changes and after all of them. -/
def Lives (key : String) (changes : List Change) : Prop :=
  ∀ n, Entries.has (c.applyAll (changes.take n)).entries key = true

/-- How often the entry under a key is updated. -/
def updates (key : String) : Collection → List Change → Nat
  | _, [] => 0
  | c, change :: changes =>
    (c.hits key change).toNat + updates key (c.apply change).2 changes

theorem Lives.tail {key : String} {change : Change} {changes : List Change}
    (h : c.Lives key (change :: changes)) : (c.apply change).2.Lives key changes :=
  fun n => h (n + 1)

theorem identifier?_congr {c' : Collection} (hfield : c'.idField = c.idField) {key : String}
    (h : Entries.get? c'.entries key = Entries.get? c.entries key) :
    c'.identifier? key = c.identifier? key := by
  rw [identifier?, identifier?, hfield, h]

/-- As long as an entry lives, a change updates it or leaves its text as it is. -/
theorem get?_apply_cases (change : Change) {key : String}
    (hbefore : Entries.has c.entries key = true)
    (hafter : Entries.has (c.apply change).2.entries key = true) :
    c.hits key change = false ∧
        Entries.get? (c.apply change).2.entries key = Entries.get? c.entries key ∨
      c.hits key change = true ∧
        ∃ filter members document, change = .update filter (.object members) ∧
          c.firstMatch filter = .ok (some (key, document)) ∧
          c.updateOne filter (.object members) =
            .ok (some (setMembers c.idField members document), (c.apply change).2) ∧
          Entries.get? (c.apply change).2.entries key =
            some (setMembers c.idField members document).compact := by
  rcases c.apply_cases change with
    ⟨hc', hmiss⟩ | ⟨document, members, id, free, rfl, -, -, -, -, hfree, -, hentries⟩ |
    ⟨filter, members, found, document, rfl, hfirst, hupdate, hc'⟩ | ⟨filter, gone, rfl, hc'⟩ |
    ⟨-, hc'⟩
  · exact Or.inl ⟨hmiss key, by rw [hc']⟩
  · refine Or.inl ⟨rfl, ?_⟩
    rw [hentries, Entries.get?_insert, if_neg]
    rintro rfl
    rw [Entries.has, hfree] at hbefore
    cases hbefore
  · by_cases hkey : found = key
    · subst hkey
      refine Or.inr ⟨by simp [hits, hfirst], filter, members, document, rfl, hfirst, hupdate, ?_⟩
      rw [hc', Entries.get?_insert, if_pos rfl]
    · refine Or.inl ⟨by simp [hits, hfirst, hkey], ?_⟩
      rw [hc', Entries.get?_insert, if_neg hkey]
  · refine Or.inl ⟨rfl, ?_⟩
    rw [hc'] at hafter ⊢
    rw [Entries.get?_erase, if_neg]
    rintro rfl
    rw [Entries.has, Entries.get?_erase, if_pos rfl] at hafter
    cases hafter
  · rw [hc'] at hafter
    cases hafter

/-- The identifier of an entry that lives stays when a change keeps what it writes. -/
theorem IsKeyed.identifier?_apply (h : c.IsKeyed) {change : Change} (hkeeps : c.Keeps change)
    {key : String} (hbefore : Entries.has c.entries key = true)
    (hafter : Entries.has (c.apply change).2.entries key = true) :
    (c.apply change).2.identifier? key = c.identifier? key := by
  have hfield := c.idField_apply change
  rcases get?_apply_cases change hbefore hafter with
    ⟨-, hget⟩ | ⟨-, filter, members, document, rfl, hfirst, hupdate, hget⟩
  · exact identifier?_congr hfield hget
  · obtain ⟨text, htext, hread⟩ := get?_of_firstMatch h.ordered hfirst
    rw [identifier?, identifier?, hget, htext, Option.bind_some, Option.bind_some,
      hkeeps _ _ hupdate, hread, Option.bind_some, Option.bind_some, hfield,
      member?_setMembers_idField]

theorem IsKeyed.identifier?_applyAll (h : c.IsKeyed) {changes : List Change}
    (hkeeps : c.KeepsAll changes) {key : String} (hlives : c.Lives key changes) :
    (c.applyAll changes).identifier? key = c.identifier? key := by
  induction changes generalizing c with
  | nil => rfl
  | cons change changes ih =>
    rw [applyAll_cons, ih (h.apply hkeeps.1) hkeeps.2 hlives.tail,
      h.identifier?_apply hkeeps.1 (hlives 0) (hlives 1)]

/-! ### Without the assumption -/

/-- A change writes down the identifier of an entry that lives once more if it updates the entry, and
leaves it alone otherwise. -/
theorem IsSound.identifier?_apply (h : c.IsSound) {change : Change} (hchange : change.IsCanonical)
    {key : String} (hbefore : Entries.has c.entries key = true)
    (hafter : Entries.has (c.apply change).2.entries key = true) {now : Value}
    (hnow : (c.apply change).2.identifier? key = some now) :
    ∃ id, c.identifier? key = some id ∧
      now = Value.readBack^[(c.hits key change).toNat] id := by
  have hfield := c.idField_apply change
  rcases get?_apply_cases change hbefore hafter with
    ⟨hhits, hget⟩ | ⟨hhits, filter, members, document, rfl, hfirst, -, hget⟩
  · rw [hhits]
    exact ⟨now, (identifier?_congr hfield hget).symm.trans hnow, rfl⟩
  · obtain ⟨text, htext, hread⟩ := get?_of_firstMatch h.ordered hfirst
    rw [identifier?, hget, Option.bind_some] at hnow
    obtain ⟨written, hwritten, hid⟩ := Option.bind_eq_some_iff.1 hnow
    have hcanonical : (setMembers c.idField members document).IsCanonical :=
      isCanonical_setMembers hchange
        (isCanonical_of_mem_documents (mem_documents_of_firstMatch hfirst))
    rw [Value.eq_readBack_of_read? hcanonical hwritten, Value.member?_readBack, hfield,
      member?_setMembers_idField] at hid
    obtain ⟨id, hdocument, rfl⟩ := Option.map_eq_some_iff.1 hid
    refine ⟨id, ?_, by rw [hhits]; rfl⟩
    rw [identifier?, htext, Option.bind_some, hread]
    exact hdocument

theorem IsSound.identifier?_applyAll (h : c.IsSound) {changes : List Change}
    (hchanges : ∀ change ∈ changes, change.IsCanonical) {key : String}
    (hlives : c.Lives key changes) {now : Value}
    (hnow : (c.applyAll changes).identifier? key = some now) :
    ∃ id, c.identifier? key = some id ∧ now = Value.readBack^[updates key c changes] id := by
  induction changes generalizing c with
  | nil => exact ⟨now, hnow, rfl⟩
  | cons change changes ih =>
    obtain ⟨mid, hmid, rfl⟩ := ih (h.apply change)
      (fun other ho => hchanges other (List.mem_cons_of_mem change ho)) hlives.tail hnow
    obtain ⟨id, hid, rfl⟩ := h.identifier?_apply (hchanges change List.mem_cons_self) (hlives 0)
      (hlives 1) hmid
    refine ⟨id, hid, ?_⟩
    rw [updates, Nat.add_comm, Function.iterate_add_apply]

/-- The identifier of a document that was added is written and read back when the document is added
and with every update of its entry, if the texts can be read at all. -/
theorem identifier?_of_insert (h : c.IsSound) {document added : Value} {c' : Collection}
    (hdocument : document.IsCanonical) (hinsert : c.insert document = .ok (added, c')) :
    ∃ id key, added.member? c.idField = some id ∧ keyOf id = .ok key ∧
      ∀ later now, (∀ change ∈ later, change.IsCanonical) → c'.Lives key later →
        (c'.applyAll later).identifier? key = some now →
          now = Value.readBack^[updates key c' later + 1] id := by
  have happly : (c.apply (.insert document)).2 = c' := by rw [Collection.apply, hinsert]
  have hsound : c'.IsSound := happly ▸ h.apply (.insert document)
  obtain ⟨members, id, key, rfl, rfl, hid, hkey, -, hfield, hentries⟩ :=
    exists_identifier_of_insert hinsert
  refine ⟨id, key, hid, hkey, fun later now hlater hlives hnow => ?_⟩
  obtain ⟨first, hfirst, rfl⟩ := hsound.identifier?_applyAll hlater hlives hnow
  rw [identifier?, hentries, Entries.get?_insert, if_pos rfl, Option.bind_some] at hfirst
  obtain ⟨written, hwritten, hfirst⟩ := Option.bind_eq_some_iff.1 hfirst
  rw [Value.eq_readBack_of_read? (isCanonical_identified hdocument) hwritten,
    Value.member?_readBack, hfield] at hfirst
  have hmember : (Value.object (c.identified members)).member? c.idField = some id := hid
  rw [hmember, Option.map_some] at hfirst
  cases hfirst
  exact (Function.iterate_succ_apply Value.readBack _ id).symm

/-- The identifier `7.100000000000001e+71` is another one than its key from the start, and a third
one after an update. -/
example :
    let id := Value.number (.double ⟨false, 7239009644185864, 186⟩)
    let key := "7.100000000000001e+71"
    let c := (empty "_id" (.still 0) .insertion).applyAll [.insert (.object [("_id", id)])]
    ((c.identifier? key).any fun found =>
      (keyOf found).toOption != some key &&
        (((c.apply (.update none (.object [("name", .string "ann")]))).2.identifier? key).any
          fun now => !now.same found)) = true := by
  decide +kernel

/-! ### Runs from an empty collection -/

end RecordGuard.Collection
