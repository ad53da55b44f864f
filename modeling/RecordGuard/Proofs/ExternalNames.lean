import RecordGuard.Facade
import RecordGuard.Proofs.GuardedOperations
import RecordGuard.Proofs.Segments

/-!
# Documents under external names

An entity may let its callers name the identifier of a record `id`, wherever the store keeps it.
`EntitySettings.external` is the document that such a caller thinks of. What a path finds in it is
what the renamed path finds in the stored document (`get?_external`), so that a renamed filter
matches a stored document just when the filter matches its external form (`isMatch_rename`), and
the filter for the store means the permission's filter, the caller's criteria and the search term
together (`accepts_resultFilter`).
-/

namespace RecordGuard

open Json (Value)

/-! ### Renamed paths -/

namespace Path

@[simp] theorem rename_self (source target : String) : rename source target source = target :=
  if_pos rfl

theorem isBelow_iff_append {path ancestor : String} :
    isBelow path ancestor = true ↔ ∃ rest, path = ancestor ++ "." ++ rest := by
  rw [isBelow_iff]
  constructor
  · rintro ⟨rest, hrest⟩
    refine ⟨String.ofList rest, String.toList_injective ?_⟩
    simp [← hrest]
  · rintro ⟨rest, rfl⟩
    exact ⟨rest.toList, by simp⟩

/-- What is behind the source stays behind the target. -/
theorem rename_append (source target rest : String) :
    rename source target (source ++ "." ++ rest) = target ++ "." ++ rest := by
  have hne : source ++ "." ++ rest ≠ source := fun heq => by
    have hlength := congrArg String.length heq
    rw [String.length_append, String.length_append, show ".".length = 1 from rfl] at hlength
    omega
  have hdrop : (source ++ "." ++ rest).toList.drop (source.length + 1) = rest.toList := by
    rw [← String.length_toList, String.toList_append, String.toList_append, List.append_assoc,
      List.drop_append, List.drop_of_length_le (by simp)]
    simp
  rw [rename, if_neg hne, if_pos (isBelow_iff_append.2 ⟨rest, rfl⟩), hdrop, String.ofList_toList]

theorem rename_of_apart {source path : String} (hne : path ≠ source)
    (hapart : isBelow path source ≠ true) (target : String) : rename source target path = path := by
  rw [rename, if_neg hne, if_neg hapart]

/-- A path is the source itself, or lies below it and keeps what is behind it, or leads elsewhere
from its first segment on. -/
theorem rename_cases (source target path : String) :
    path = source ∧ rename source target path = target ∨
      (∃ rest, path = source ++ "." ++ rest ∧
        rename source target path = target ++ "." ++ rest) ∨
      rename source target path = path ∧
        ∃ key keys, segments path = key :: keys ∧ key ≠ source := by
  by_cases heq : path = source
  · exact Or.inl ⟨heq, if_pos heq⟩
  by_cases hbelow : isBelow path source = true
  · obtain ⟨rest, rfl⟩ := isBelow_iff_append.1 hbelow
    exact Or.inr (Or.inl ⟨rest, rfl, rename_append source target rest⟩)
  · obtain ⟨key, keys, hkeys⟩ := List.exists_cons_of_ne_nil (segments_ne_nil path)
    refine Or.inr (Or.inr ⟨rename_of_apart heq hbelow target, key, keys, hkeys, ?_⟩)
    rintro rfl
    exact (eq_or_isBelow_of_segments hkeys).elim heq hbelow

end Path

/-! ### Renamed filters -/

namespace Filter

variable {source target : String} {document view : Value}

mutual

/-- If a view shows under every path what a document has under the renamed path, then a renamed
filter matches the document just when the filter matches the view. -/
theorem isMatch_rename
    (h : ∀ path, Path.get? document (Path.rename source target path) = Path.get? view path) :
    ∀ f : Filter, (f.rename source target).isMatch document = f.isMatch view
  | .field path test => by rw [rename, isMatch, isMatch, h]
  | .all filters => by rw [rename, isMatch, isMatch, allMatch_renameEach h filters]
  | .any filters => by rw [rename, isMatch, isMatch, anyMatch_renameEach h filters]

theorem allMatch_renameEach
    (h : ∀ path, Path.get? document (Path.rename source target path) = Path.get? view path) :
    ∀ filters : List Filter,
      allMatch document (renameEach source target filters) = allMatch view filters
  | [] => rfl
  | f :: fs => by
    rw [renameEach, allMatch, allMatch, isMatch_rename h f, allMatch_renameEach h fs]

theorem anyMatch_renameEach
    (h : ∀ path, Path.get? document (Path.rename source target path) = Path.get? view path) :
    ∀ filters : List Filter,
      anyMatch document (renameEach source target filters) = anyMatch view filters
  | [] => rfl
  | f :: fs => by
    rw [renameEach, anyMatch, anyMatch, isMatch_rename h f, anyMatch_renameEach h fs]

end

theorem accepts_map_rename
    (h : ∀ path, Path.get? document (Path.rename source target path) = Path.get? view path)
    (filter : Option Filter) :
    accepts (filter.map (rename source target)) document = accepts filter view := by
  cases filter with
  | none => rfl
  | some f => exact isMatch_rename h f

end Filter

namespace EntitySettings

variable (entity : EntitySettings)

/-- A stored document as callers know it: where they may name the identifier by its external name,
the member of this name is what the store has for the identifier, and is missing without one. -/
def external (document : Value) : Value :=
  match entity.renamesId, document with
  | true, .object members =>
    match Path.get? document entity.idField with
    | some id => .object (Entries.insert members externalIdField id)
    | none => .object (Entries.erase members externalIdField)
  | _, document => document

variable {entity}

theorem external_of_not_renamesId (h : entity.renamesId = false) (document : Value) :
    entity.external document = document := by
  unfold external
  rw [h]

/-- Under the external name stands the identifier, and under any other name what is stored. -/
theorem member?_external (h : entity.renamesId = true) (members : Entries Value) (key : String) :
    (entity.external (.object members)).member? key =
      if externalIdField = key then Path.get? (.object members) entity.idField
      else Entries.get? members key := by
  unfold external
  rw [h]
  cases Path.get? (.object members) entity.idField with
  | none => exact Entries.get?_erase members externalIdField key
  | some id => exact Entries.get?_insert members externalIdField key id

/-- What a path finds in the external form of a document is what the renamed path finds in the
document. -/
theorem get?_external (h : entity.renamesId = true) (members : Entries Value) (path : String) :
    Path.get? (.object members) (Path.rename externalIdField entity.idField path) =
      Path.get? (entity.external (.object members)) path := by
  have hid : Path.segments externalIdField = [externalIdField] := by decide +kernel
  rcases Path.rename_cases externalIdField entity.idField path with
    ⟨rfl, hrename⟩ | ⟨rest, rfl, hrename⟩ | ⟨hrename, key, keys, hkeys, hne⟩
  · rw [hrename, Path.get?.eq_def (entity.external _), hid, Path.getSegments?_cons,
      member?_external h, if_pos rfl]
    exact (Option.bind_fun_some _).symm
  -- Behind the identifier the two paths go on alike, however many segments its own path has.
  · rw [hrename, Path.get?, Path.segments_append_dot, Path.getSegments?_append, Path.get?,
      Path.segments_append_dot, hid, List.singleton_append, Path.getSegments?_cons,
      member?_external h, if_pos rfl]
    rfl
  · rw [hrename, Path.get?, Path.get?, hkeys, Path.getSegments?_cons, Path.getSegments?_cons,
      member?_external h, if_neg (Ne.symm hne)]
    rfl

/-- The filter of a search term matches where the term is found in one of the search fields. -/
theorem accepts_searchFilter (term : String) (document : Value) :
    Filter.accepts (entity.searchFilter term) document = true ↔
      (entity.searchFields ≠ [] → ∃ field ∈ entity.searchFields,
        (Filter.field field (.likeIgnoringCase
          (String.ofList ('%' :: (Like.escape term.toList ++ ['%']))))).isMatch document = true) := by
  rw [searchFilter, Filter.accepts_anyOf]
  cases entity.searchFields with
  | nil => simp
  | cons field fields => simp

/-- The filter that is handed to the store matches a document just when the external form of the
document matches the permission's filter and the caller's criteria and, if a term is searched for
and there are search fields, one of them has the term in it. -/
theorem accepts_resultFilter (entity : EntitySettings) (query : QueryFilter)
    (permission : Option Filter) (members : Entries Value) :
    Filter.accepts (entity.resultFilter query permission) (.object members) = true ↔
      Filter.accepts permission (entity.external (.object members)) = true ∧
      Filter.accepts query.criteria (entity.external (.object members)) = true ∧
      ∀ term, query.search = some term → entity.searchFields ≠ [] →
        ∃ field ∈ entity.searchFields,
          (Filter.field field (.likeIgnoringCase
              (String.ofList ('%' :: (Like.escape term.toList ++ ['%']))))).isMatch
            (entity.external (.object members)) = true := by
  have hresult : Filter.accepts (entity.resultFilter query permission) (.object members) =
      Filter.accepts (Filter.conjoin permission
          (Filter.conjoin query.criteria (query.search.bind entity.searchFilter)))
        (entity.external (.object members)) := by
    rw [resultFilter]
    cases h : entity.renamesId with
    | false => rw [external_of_not_renamesId h, if_neg Bool.false_ne_true]
    | true => exact Filter.accepts_map_rename (get?_external h members) _
  rw [hresult, Filter.accepts_conjoin, Filter.accepts_conjoin, Bool.and_eq_true, Bool.and_eq_true]
  refine and_congr_right' (and_congr_right' ?_)
  cases query.search with
  | none => simp [Filter.accepts]
  | some term => simpa using accepts_searchFilter term _

end EntitySettings

end RecordGuard
