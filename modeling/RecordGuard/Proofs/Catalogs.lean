import Mathlib.Data.List.Nodup
import RecordGuard.Catalog
import RecordGuard.Proofs.Lookup
import RecordGuard.Proofs.Results

/-!
# Catalogs and their models

A catalog keeps the names of its models twice, as the keys of a map and in the order of
registration. `Catalog.IsWellFormed` says that the two are in step, that every model stands under
its own name, and that the attributes and associations of a model have names of their own. The
empty catalog is well formed, and `add` keeps a catalog so (`IsWellFormed.add`), from which follows
what adding many models does (`IsWellFormed.foldlM_add`) and when it succeeds
(`IsWellFormed.exists_foldlM_add_iff`). In an accepted catalog every association leads to one of the
models (`exists_target_of_ofModels`).
-/

namespace RecordGuard

/-- Where the members of a model have names of their own, an association is the one of its name. -/
theorem Model.association?_of_mem {model : Model} (hmodel : model.members.Nodup) {a : Association}
    (ha : a ∈ model.associations) : model.association? a.name = some a :=
  find?_eq_some_of_nodup (List.nodup_append.1 hmodel).2.1 ha

namespace Catalog

theorem firstRepeat?_eq_none_iff {seen names : List String} :
    firstRepeat? seen names = none ↔ names.Nodup ∧ ∀ name ∈ names, name ∉ seen := by
  induction names generalizing seen with
  | nil => simp [firstRepeat?]
  | cons name names ih =>
    by_cases hseen : name ∈ seen
    · simp [firstRepeat?, hseen]
    · rw [firstRepeat?, if_neg hseen, ih, List.nodup_cons, List.forall_mem_cons]
      simp only [List.mem_cons, not_or]
      constructor
      · rintro ⟨hnodup, hnames⟩
        exact ⟨⟨fun hmem => (hnames name hmem).1 rfl, hnodup⟩, hseen,
          fun other hmem => (hnames other hmem).2⟩
      · rintro ⟨⟨hname, hnodup⟩, -, hnames⟩
        exact ⟨hnodup, fun other hmem => ⟨fun he => hname (he ▸ hmem), hnames other hmem⟩⟩

theorem add_eq_ok_iff {catalog found : Catalog} {model : Model} :
    catalog.add model = .ok found ↔
      catalog.get? model.name = none ∧ model.members.Nodup ∧
        ⟨Entries.insert catalog.byName model.name model, catalog.names ++ [model.name]⟩ =
          found := by
  rw [add, get?]
  cases hhas : catalog.has model.name with
  | true =>
    obtain ⟨other, hother⟩ := Entries.has_eq_true_iff.1 hhas
    simp [hother]
  | false =>
    rw [Entries.has_eq_false_iff.1 hhas]
    cases hrepeat : firstRepeat? [] model.members with
    | some member =>
      have hnodup : ¬model.members.Nodup := fun h => by
        have hnone := firstRepeat?_eq_none_iff.2 ⟨h, fun _ _ => List.not_mem_nil⟩
        rw [hrepeat] at hnone
        cases hnone
      simp [hnodup]
    | none =>
      have hnodup := (firstRepeat?_eq_none_iff.1 hrepeat).1
      simp [hnodup]

theorem model_eq_ok_iff {catalog : Catalog} {name : String} {model : Model} :
    catalog.model name = .ok model ↔ catalog.get? name = some model := by
  rw [Catalog.model]
  cases catalog.get? name with
  | none => simp
  | some found => simp

/-! ### Well-formed catalogs -/

/-- The names in the order of registration are the keys of the map, each of them once, and every
model stands under its own name and has members with names of their own. -/
structure IsWellFormed (catalog : Catalog) : Prop where
  ordered : Entries.Ordered catalog.byName
  nodup_names : catalog.names.Nodup
  perm_keys : catalog.names.Perm (Entries.keys catalog.byName)
  name_eq : ∀ name model, catalog.get? name = some model → model.name = name
  nodup_members : ∀ name model, catalog.get? name = some model → model.members.Nodup

theorem isWellFormed_empty : empty.IsWellFormed where
  ordered := Entries.ordered_nil
  nodup_names := List.nodup_nil
  perm_keys := List.Perm.nil
  name_eq _ _ h := by cases h
  nodup_members _ _ h := by cases h

namespace IsWellFormed

variable {catalog found : Catalog} {model : Model} {models : List Model}

theorem mem_names_iff (h : catalog.IsWellFormed) {name : String} :
    name ∈ catalog.names ↔ ∃ model, catalog.get? name = some model := by
  rw [h.perm_keys.mem_iff, Entries.keys, List.mem_map]
  constructor
  · rintro ⟨⟨key, model⟩, hentry, rfl⟩
    exact ⟨model, h.ordered.get?_of_mem hentry⟩
  · rintro ⟨model, hmodel⟩
    exact ⟨(name, model), Entries.mem_of_get? hmodel, rfl⟩

theorem mem_models_iff (h : catalog.IsWellFormed) :
    model ∈ catalog.models ↔ catalog.get? model.name = some model := by
  rw [models, List.mem_filterMap]
  constructor
  · rintro ⟨name, -, hmodel⟩
    rwa [h.name_eq name model hmodel]
  · exact fun hmodel => ⟨model.name, h.mem_names_iff.2 ⟨model, hmodel⟩, hmodel⟩

/-- The models are listed in the order of their names. -/
theorem map_name_models (h : catalog.IsWellFormed) :
    catalog.models.map Model.name = catalog.names := by
  rw [models, List.map_filterMap]
  have hnames : ∀ name ∈ catalog.names, (catalog.get? name).map Model.name = some name := by
    intro name hname
    obtain ⟨model, hmodel⟩ := h.mem_names_iff.1 hname
    rw [hmodel, Option.map_some, h.name_eq name model hmodel]
  rw [List.filterMap_congr hnames, List.filterMap_some]

/-! ### Adding models -/

theorem get?_add (hadd : catalog.add model = .ok found) (name : String) :
    found.get? name = if model.name = name then some model else catalog.get? name := by
  obtain ⟨-, -, rfl⟩ := add_eq_ok_iff.1 hadd
  exact Entries.get?_insert catalog.byName model.name name model

/-- Adding a model leaves the catalog well formed. -/
theorem add (h : catalog.IsWellFormed) (hadd : catalog.add model = .ok found) :
    found.IsWellFormed := by
  have hget := get?_add hadd
  obtain ⟨hnew, hmembers, rfl⟩ := add_eq_ok_iff.1 hadd
  have hname : model.name ∉ catalog.names := fun hmem => by
    obtain ⟨other, hother⟩ := h.mem_names_iff.1 hmem
    rw [hnew] at hother
    cases hother
  constructor
  · exact Entries.ordered_insert h.ordered model.name model
  · exact h.nodup_names.append (List.nodup_singleton _) (List.disjoint_singleton.2 hname)
  · refine List.perm_append_comm.trans ?_
    exact (h.perm_keys.cons model.name).trans (Entries.perm_keys_insert hnew model).symm
  · intro name other hother
    rw [hget] at hother
    split_ifs at hother with heq
    · cases hother
      exact heq
    · exact h.name_eq name other hother
  · intro name other hother
    rw [hget] at hother
    split_ifs at hother
    · cases hother
      exact hmembers
    · exact h.nodup_members name other hother

/-- An added model comes last. -/
theorem models_add (h : catalog.IsWellFormed) (hadd : catalog.add model = .ok found) :
    found.models = catalog.models ++ [model] := by
  have hget := get?_add hadd
  obtain ⟨hnew, -, rfl⟩ := add_eq_ok_iff.1 hadd
  have hbefore : ∀ name ∈ catalog.names,
      Entries.get? (Entries.insert catalog.byName model.name model) name = catalog.get? name := by
    intro name hmem
    refine (hget name).trans (if_neg ?_)
    rintro rfl
    obtain ⟨other, hother⟩ := h.mem_names_iff.1 hmem
    rw [hnew] at hother
    cases hother
  have hlast : Entries.get? (Entries.insert catalog.byName model.name model) model.name =
      some model := (hget model.name).trans (if_pos rfl)
  rw [models, List.filterMap_append]
  exact congrArg₂ _ (List.filterMap_congr hbefore) (List.filterMap_cons_some hlast)

/-- Adding models one after the other leaves the catalog well formed and lists them behind those
that it has. -/
theorem foldlM_add (h : catalog.IsWellFormed)
    (hfold : models.foldlM Catalog.add catalog = .ok found) :
    found.IsWellFormed ∧ found.models = catalog.models ++ models := by
  induction models generalizing catalog with
  | nil =>
    cases hfold
    exact ⟨h, (List.append_nil _).symm⟩
  | cons first models ih =>
    rw [List.foldlM_cons, bind_eq_ok_iff] at hfold
    obtain ⟨more, hadd, hfold⟩ := hfold
    obtain ⟨hfound, hmodels⟩ := ih (h.add hadd) hfold
    rw [h.models_add hadd, List.append_assoc] at hmodels
    exact ⟨hfound, hmodels⟩

/-- Models can be added exactly if no name, of a model or of a member of one of them, comes
twice. -/
theorem exists_foldlM_add_iff (h : catalog.IsWellFormed) :
    (∃ found, models.foldlM Catalog.add catalog = .ok found) ↔
      (catalog.names ++ models.map Model.name).Nodup ∧ ∀ model ∈ models, model.members.Nodup := by
  induction models generalizing catalog with
  | nil =>
    rw [List.map_nil, List.append_nil]
    exact iff_of_true ⟨catalog, rfl⟩ ⟨h.nodup_names, fun model hmem => (List.not_mem_nil hmem).elim⟩
  | cons first models ih =>
    rw [List.map_cons, List.append_cons, List.forall_mem_cons]
    cases hadd : catalog.add first with
    | ok more =>
      obtain ⟨-, hmembers, heq⟩ := add_eq_ok_iff.1 hadd
      have hnames : more.names = catalog.names ++ [first.name] := heq ▸ rfl
      have hfold : (first :: models).foldlM Catalog.add catalog =
          models.foldlM Catalog.add more := by
        rw [List.foldlM_cons, hadd]
        rfl
      rw [hfold, ih (h.add hadd), hnames]
      simp only [hmembers, true_and]
    | error e =>
      have hfold : (first :: models).foldlM Catalog.add catalog = .error e := by
        rw [List.foldlM_cons, hadd]
        rfl
      rw [hfold]
      refine iff_of_false (fun ⟨found, hfound⟩ => by cases hfound) ?_
      -- the first model could be added, as its name is not among those before it
      rintro ⟨hnodup, hmembers, -⟩
      have hname : first.name ∉ catalog.names := fun hmem =>
        (List.nodup_append.1 (List.nodup_append.1 hnodup).1).2.2 _ hmem _
          (List.mem_singleton_self _) rfl
      have hnew : catalog.get? first.name = none :=
        Option.eq_none_iff_forall_ne_some.2 fun model hmodel =>
          hname (h.mem_names_iff.2 ⟨model, hmodel⟩)
      rw [add_eq_ok_iff.2 ⟨hnew, hmembers, rfl⟩] at hadd
      cases hadd

end IsWellFormed

/-! ### Accepted catalogs -/

theorem validate_eq_ok_iff {catalog : Catalog} :
    catalog.validate = .ok () ↔
      ∀ model ∈ catalog.models, ∀ a ∈ model.associations,
        ∃ target, catalog.get? a.target = some target := by
  unfold validate
  split
  · next name a hsome =>
    -- an association whose target is missing has been found
    refine iff_of_false (fun herror => by cases herror) fun htargets => ?_
    obtain ⟨model, hmodel, hpair⟩ := List.mem_flatMap.1 (List.mem_of_find?_eq_some hsome)
    obtain ⟨b, hb, heq⟩ := List.mem_map.1 hpair
    cases heq
    have hmissing : catalog.has a.target = false := by simpa using List.find?_some hsome
    obtain ⟨target, htarget⟩ := htargets model hmodel a hb
    have hnone : catalog.get? a.target = none := Entries.has_eq_false_iff.1 hmissing
    rw [hnone] at htarget
    cases htarget
  · next hnone =>
    refine iff_of_true rfl fun model hmodel a ha => ?_
    have hmem : (model.name, a) ∈ catalog.associations :=
      List.mem_flatMap.2 ⟨model, hmodel, List.mem_map_of_mem ha⟩
    have hhas : catalog.has a.target = true := by
      simpa using List.find?_eq_none.1 hnone _ hmem
    exact Entries.has_eq_true_iff.1 hhas

theorem ofModels_eq_ok_iff {models : List Model} {catalog : Catalog} :
    ofModels models = .ok catalog ↔
      models.foldlM add empty = .ok catalog ∧ catalog.validate = .ok () := by
  simp only [ofModels, bind_eq_ok_iff]
  constructor
  · rintro ⟨found, hfold, _, hvalid, heq⟩
    cases heq
    exact ⟨hfold, hvalid⟩
  · rintro ⟨hfold, hvalid⟩
    exact ⟨catalog, hfold, (), hvalid, rfl⟩

section

variable {models : List Model} {catalog : Catalog} (h : ofModels models = .ok catalog)
include h

theorem isWellFormed_of_ofModels : catalog.IsWellFormed :=
  (isWellFormed_empty.foldlM_add (ofModels_eq_ok_iff.1 h).1).1

/-- An accepted catalog lists the models that it was made of. -/
theorem models_of_ofModels : catalog.models = models :=
  (isWellFormed_empty.foldlM_add (ofModels_eq_ok_iff.1 h).1).2

/-- In an accepted catalog the attributes and associations of a model have names of their own. -/
theorem nodup_members_of_ofModels : ∀ model ∈ catalog.models, model.members.Nodup := by
  have hcatalog := isWellFormed_of_ofModels h
  exact fun model hmodel =>
    hcatalog.nodup_members model.name model (hcatalog.mem_models_iff.1 hmodel)

/-- A model that is found is one of the catalog. -/
theorem mem_models_of_get? {name : String} {model : Model}
    (hmodel : catalog.get? name = some model) : model ∈ catalog.models := by
  have hcatalog := isWellFormed_of_ofModels h
  rw [hcatalog.mem_models_iff, hcatalog.name_eq name model hmodel]
  exact hmodel

/-- In an accepted catalog every association leads to a model. -/
theorem exists_target_of_ofModels {model : Model} (hmodel : model ∈ catalog.models)
    {a : Association} (ha : a ∈ model.associations) :
    ∃ target, catalog.get? a.target = some target :=
  validate_eq_ok_iff.1 (ofModels_eq_ok_iff.1 h).2 model hmodel a ha

end

end Catalog

end RecordGuard
