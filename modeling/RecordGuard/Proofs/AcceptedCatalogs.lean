import RecordGuard.Proofs.Catalogs

/-!
# Catalogs that are accepted

A list of models is accepted exactly if no two of them have one name, no model has two members of
one name and every association leads to a model of the list, wherever that stands
(`Catalog.exists_ofModels_eq_ok_iff`). The catalog then holds these models and nothing else
(`Catalog.accepts_models`): it lists them in their order, finds each by its name and follows each
association, and the models that it is given up for make the same catalog again. However a catalog
is built, its list of names and its map stay in step (`Catalog.IsBuilt.isWellFormed`).
-/

namespace RecordGuard

/-- The models can make a catalog together. -/
structure Model.AreConsistent (models : List Model) : Prop where
  nodup_names : (models.map Model.name).Nodup
  nodup_members : ∀ model ∈ models, model.members.Nodup
  exists_target : ∀ model ∈ models, ∀ a ∈ model.associations, ∃ target ∈ models,
    target.name = a.target

namespace Catalog

/-! ### Catalogs that are built -/

/-- Catalogs that come from lists of models and from adding models. -/
inductive IsBuilt : Catalog → Prop
  | empty : IsBuilt empty
  | ofModels {models : List Model} {catalog : Catalog} :
    ofModels models = .ok catalog → IsBuilt catalog
  | add {catalog found : Catalog} {model : Model} :
    IsBuilt catalog → catalog.add model = .ok found → IsBuilt found

theorem IsBuilt.isWellFormed {catalog : Catalog} (h : catalog.IsBuilt) : catalog.IsWellFormed := by
  induction h with
  | empty => exact isWellFormed_empty
  | ofModels h => exact isWellFormed_of_ofModels h
  | add _ hadd ih => exact ih.add hadd

/-! ### Giving a catalog up -/

/-- No model is missed that a name before it has taken out. -/
theorem takeModels_eq {names : List String} (h : names.Nodup) (entries : Entries Model) :
    takeModels names entries = names.filterMap (Entries.get? entries) := by
  induction names generalizing entries with
  | nil => rfl
  | cons name names ih =>
    obtain ⟨hname, hnames⟩ := List.nodup_cons.1 h
    cases hget : Entries.get? entries name with
    | none => rw [takeModels, hget, List.filterMap_cons_none hget, ← ih hnames]
    | some model =>
      have hrest : ∀ other ∈ names,
          Entries.get? (Entries.erase entries name) other = Entries.get? entries other := by
        intro other hother
        rw [Entries.get?_erase, if_neg (ne_of_mem_of_not_mem hother hname).symm]
      rw [takeModels, hget, List.filterMap_cons_some hget, ← List.filterMap_congr hrest,
        ← ih hnames]

theorem IsWellFormed.toModels_eq {catalog : Catalog} (h : catalog.IsWellFormed) :
    catalog.toModels = catalog.models := takeModels_eq h.nodup_names catalog.byName

/-! ### Lists of models that are accepted -/

theorem exists_ofModels_eq_ok_iff {models : List Model} :
    (∃ catalog, ofModels models = .ok catalog) ↔ Model.AreConsistent models := by
  have hadd : (∃ catalog, models.foldlM add empty = .ok catalog) ↔
      (models.map Model.name).Nodup ∧ ∀ model ∈ models, model.members.Nodup :=
    isWellFormed_empty.exists_foldlM_add_iff
  have htargets {catalog : Catalog} (hfold : models.foldlM add empty = .ok catalog) :
      catalog.validate = .ok () ↔ ∀ model ∈ models, ∀ a ∈ model.associations, ∃ target ∈ models,
        target.name = a.target := by
    obtain ⟨hcatalog, hmodels⟩ := isWellFormed_empty.foldlM_add hfold
    obtain rfl : catalog.models = models := hmodels
    simp only [validate_eq_ok_iff, ← hcatalog.mem_names_iff, ← hcatalog.map_name_models,
      List.mem_map]
  constructor
  · rintro ⟨catalog, hcatalog⟩
    obtain ⟨hfold, hvalid⟩ := ofModels_eq_ok_iff.1 hcatalog
    obtain ⟨hnames, hmembers⟩ := hadd.1 ⟨catalog, hfold⟩
    exact ⟨hnames, hmembers, (htargets hfold).1 hvalid⟩
  · intro h
    obtain ⟨catalog, hfold⟩ := hadd.2 ⟨h.nodup_names, h.nodup_members⟩
    exact ⟨catalog, ofModels_eq_ok_iff.2 ⟨hfold, (htargets hfold).2 h.exists_target⟩⟩

section Accepted

variable {models : List Model} {catalog : Catalog} (h : ofModels models = .ok catalog)
include h

theorem get?_of_mem_models {model : Model} (hmodel : model ∈ models) :
    catalog.get? model.name = some model := by
  rwa [← (isWellFormed_of_ofModels h).mem_models_iff, models_of_ofModels h]

theorem get?_eq_none_of_not_mem {name : String} (hname : name ∉ models.map Model.name) :
    catalog.get? name = none := by
  have hcatalog := isWellFormed_of_ofModels h
  rw [← models_of_ofModels h, hcatalog.map_name_models, hcatalog.mem_names_iff] at hname
  exact Option.eq_none_iff_forall_ne_some.2 fun model hmodel => hname ⟨model, hmodel⟩

/-- Every association of an accepted catalog can be followed to the model that it names. -/
theorem exists_targetOf_eq_ok {model : Model} (hmodel : model ∈ models) {a : Association}
    (ha : a ∈ model.associations) :
    ∃ target ∈ models, target.name = a.target ∧
      catalog.targetOf model.name a.name = .ok target := by
  obtain ⟨-, hmembers, htargets⟩ := exists_ofModels_eq_ok_iff.1 ⟨catalog, h⟩
  obtain ⟨target, htarget, hname⟩ := htargets model hmodel a ha
  refine ⟨target, htarget, hname, ?_⟩
  have hassociation := Model.association?_of_mem (hmembers model hmodel) ha
  refine bind_eq_ok_iff.2 ⟨model, model_eq_ok_iff.2 (get?_of_mem_models h hmodel), ?_⟩
  simp only [hassociation, ← hname]
  exact model_eq_ok_iff.2 (get?_of_mem_models h htarget)

/-- The models that an accepted catalog is given up for make it again. -/
theorem ofModels_toModels : ofModels catalog.toModels = .ok catalog := by
  rw [(isWellFormed_of_ofModels h).toModels_eq, models_of_ofModels h, h]

end Accepted

/-- A list of models is accepted exactly if it is consistent. The catalog of an accepted list holds
its models in their order, each under its name, and no others, and can follow their associations and
be made again from its models. However a catalog is built, it is well formed. -/
theorem accepts_models :
    (∀ models, (∃ catalog, ofModels models = .ok catalog) ↔ Model.AreConsistent models) ∧
    (∀ models catalog, ofModels models = .ok catalog →
      catalog.models = models ∧
      (∀ model ∈ models, catalog.get? model.name = some model) ∧
      (∀ name, name ∉ models.map Model.name → catalog.get? name = none) ∧
      (∀ model ∈ models, ∀ a ∈ model.associations, ∃ target ∈ models, target.name = a.target ∧
        catalog.targetOf model.name a.name = .ok target) ∧
      catalog.toModels = models ∧ ofModels catalog.toModels = .ok catalog) ∧
    ∀ catalog, IsBuilt catalog → catalog.IsWellFormed := by
  refine ⟨fun models => exists_ofModels_eq_ok_iff, fun models catalog h => ?_,
    fun catalog h => h.isWellFormed⟩
  have htoModels := (isWellFormed_of_ofModels h).toModels_eq
  exact ⟨models_of_ofModels h, fun model hmodel => get?_of_mem_models h hmodel,
    fun name hname => get?_eq_none_of_not_mem h hname,
    fun model hmodel a ha => exists_targetOf_eq_ok h hmodel ha,
    htoModels.trans (models_of_ofModels h), ofModels_toModels h⟩

/-- People and firms that lead to each other, and to themselves. Without the firms the people can be
added to a catalog, but are not accepted. -/
theorem accepts_models_of_staff :
    let person : Model := ⟨"Person", ["name", "age"], [⟨"employer", "Firm"⟩, ⟨"boss", "Person"⟩]⟩
    let firm : Model := ⟨"Firm", ["name"], [⟨"staff", "Person"⟩]⟩
    let catalog : Catalog := ⟨[("Firm", firm), ("Person", person)], ["Person", "Firm"]⟩
    let people : Catalog := ⟨[("Person", person)], ["Person"]⟩
    ofModels [person, firm] = .ok catalog ∧ catalog.models = [person, firm] ∧
      catalog.get? "Role" = none ∧ catalog.targetOf "Firm" "staff" = .ok person ∧
      ofModels catalog.toModels = .ok catalog ∧
      empty.add person = .ok people ∧ people.IsWellFormed ∧
      ¬∃ catalog, ofModels [person] = .ok catalog := by
  intro person firm catalog people
  obtain ⟨haccepted, hholds, hbuilt⟩ := accepts_models
  have hcatalog : ofModels [person, firm] = .ok catalog := by decide +kernel
  have hpeople : empty.add person = .ok people := by decide +kernel
  obtain ⟨hmodels, -, hunknown, htargets, -, hagain⟩ := hholds _ _ hcatalog
  obtain ⟨target, htarget, hname, hstaff⟩ :=
    htargets firm (by decide +kernel) ⟨"staff", "Person"⟩ (by decide +kernel)
  refine ⟨hcatalog, hmodels, hunknown "Role" (by decide +kernel), ?_, hagain, hpeople,
    hbuilt people (.add .empty hpeople), ?_⟩
  · rw [hstaff]
    rcases List.mem_cons.1 htarget with rfl | htarget
    · rfl
    · rw [List.mem_singleton.1 htarget] at hname
      exact absurd hname (by decide +kernel)
  · rw [haccepted]
    intro h
    obtain ⟨target, htarget, hname⟩ :=
      h.exists_target person List.mem_cons_self ⟨"employer", "Firm"⟩ List.mem_cons_self
    rw [List.mem_singleton.1 htarget] at hname
    exact absurd hname (by decide +kernel)

end Catalog

end RecordGuard
