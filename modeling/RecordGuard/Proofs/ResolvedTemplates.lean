import RecordGuard.Filter.Evaluation
import RecordGuard.Proofs.Results
import RecordGuard.Template

/-!
# What templates say

A template can be read without making a filter of it: it says of a caller and a document whether it
holds (`Template.Holds`). A combination holds by its parts, so that one of all templates in an empty
list holds of every document and one of any of them of none. `Template.resolve` keeps this meaning
in the filter that it makes, also where it drops the list around a single filter
(`Template.isMatch_iff_holds`).

It makes a filter unless the caller lacks an attribute that the template refers to. Then the first
of these, in the order in which the template mentions them, is the failure
(`Template.failure?_resolve`).
-/

namespace RecordGuard

open Json (Value)

/-! ### Attributes of a caller -/

namespace Identity

/-- What an identity provides under a name: the attribute that was given, and where none was, the
identifier, if there is one, and the roles. -/
inductive Provides (i : Identity) : String → Value → Prop
  | given {name : String} {value : Value} (h : Entries.get? i.attributes name = some value) :
    Provides i name value
  | id {id : String} (hgiven : Entries.get? i.attributes "id" = none) (h : i.id = some id) :
    Provides i "id" (.string id)
  | roles (hgiven : Entries.get? i.attributes "roles" = none) :
    Provides i "roles" (.array (i.roles.map Value.string))

variable {i : Identity} {name : String}

theorem attribute?_eq_some_iff {value : Value} :
    i.attribute? name = some value ↔ i.Provides name value := by
  constructor
  · intro h
    unfold attribute? at h
    cases hgiven : Entries.get? i.attributes name with
    | some given =>
      rw [hgiven] at h
      exact .given (hgiven.trans h)
    | none =>
      rw [hgiven] at h
      dsimp only at h
      split_ifs at h with hid hroles
      · subst hid
        obtain ⟨id, hid, rfl⟩ := Option.map_eq_some_iff.1 h
        exact .id hgiven hid
      · subst hroles
        cases h
        exact .roles hgiven
  · intro h
    cases h with
    | given h => simp [attribute?, h]
    | id hgiven h => simp [attribute?, hgiven, h]
    | roles hgiven => simp [attribute?, hgiven]

/-- The identity has an attribute of the name. -/
def Has (i : Identity) (name : String) : Prop := ∃ value, i.Provides name value

theorem isSome_attribute?_iff : (i.attribute? name).isSome = true ↔ i.Has name := by
  rw [Option.isSome_iff_exists]
  exact exists_congr fun value => attribute?_eq_some_iff

end Identity

/-! ### Values in fields -/

/-- The document has the value in a field: it stands there, or is an item of the list that stands
there unless it is a list itself. -/
def HasValue (document : Value) (field : String) (value : Value) : Prop :=
  ∃ found, Path.get? document field = some found ∧
    (found.isEqual value = true ∨
      value.isArray = false ∧ ∃ items, found = .array items ∧
        ∃ item ∈ items, item.isEqual value = true)

theorem someFound_isEqual_iff {document : Value} {field : String} {value : Value} :
    someFound Value.isEqual (Path.get? document field) value = true ↔
      HasValue document field value := by
  unfold HasValue
  cases Path.get? document field with
  | none => simp [someFound]
  | some found =>
    cases found with
    | array items =>
      have hlist : value.isArray = false → (Value.array items).isEqual value = false := by
        cases value <;> simp [Value.isArray, Value.isEqual, Value.same]
      by_cases harray : value.isArray = true
      · simp [someFound, harray]
      · simp [someFound, harray, hlist (Bool.not_eq_true _ ▸ harray)]
    | _ => simp [someFound]

namespace Filter

theorem isMatch_eq_iff {document : Value} {field : String} {value : Value} :
    (Filter.eq field value).isMatch document = true ↔ HasValue document field value :=
  someFound_isEqual_iff

theorem isMatch_oneOf_iff {document : Value} {field : String} {values : List Value} :
    (Filter.field field (.oneOf values)).isMatch document = true ↔
      ∃ value ∈ values, HasValue document field value := by
  rw [isMatch, Test.holds, List.any_eq_true]
  exact exists_congr fun value => and_congr_right fun _ => someFound_isEqual_iff

/-- All of no filters match every document. -/
theorem isMatch_allOf (filters : List Filter) (document : Value) :
    ((allOf filters).getD (.all [])).isMatch document = filters.all (isMatch document) := by
  rcases filters with _ | ⟨f, _ | ⟨g, fs⟩⟩
  · rfl
  · simp [allOf]
  · exact allMatch_eq_all document (f :: g :: fs)

/-- Any of no filters match no document. -/
theorem isMatch_anyOf (filters : List Filter) (document : Value) :
    ((anyOf filters).getD (.any [])).isMatch document = filters.any (isMatch document) := by
  rcases filters with _ | ⟨f, _ | ⟨g, fs⟩⟩
  · rfl
  · simp [anyOf]
  · exact anyMatch_eq_any document (f :: g :: fs)

end Filter

namespace Template

/-! ### Templates read directly -/

/-- The template holds of a document for a caller. -/
inductive Holds (identity : Identity) (document : Value) : Template → Prop
  | standard {filter : Filter} (h : filter.isMatch document = true) :
    Holds identity document (.standard filter)
  | attributeEq {field name : String} {value : Value} (hprovides : identity.Provides name value)
    (h : HasValue document field value) : Holds identity document (.attributeEq field name)
  | attributeIn {field name : String} {values : List Value} {value : Value}
    (hprovides : identity.Provides name (.array values)) (hmem : value ∈ values)
    (h : HasValue document field value) : Holds identity document (.attributeIn field name)
  | attributeInSingle {field name : String} {value : Value}
    (hprovides : identity.Provides name value) (hsingle : value.isArray = false)
    (h : HasValue document field value) : Holds identity document (.attributeIn field name)
  | all {templates : List Template} (h : ∀ t ∈ templates, Holds identity document t) :
    Holds identity document (.all templates)
  | any {templates : List Template} {t : Template} (hmem : t ∈ templates)
    (h : Holds identity document t) : Holds identity document (.any templates)

variable {identity : Identity} {document : Value}

theorem holds_standard_iff {filter : Filter} :
    Holds identity document (.standard filter) ↔ filter.isMatch document = true :=
  ⟨fun h => by cases h; assumption, .standard⟩

theorem holds_attributeEq_iff {field name : String} {value : Value}
    (h : identity.attribute? name = some value) :
    Holds identity document (.attributeEq field name) ↔ HasValue document field value := by
  constructor
  · rintro (_ | ⟨hprovides, hvalue⟩)
    rw [← Identity.attribute?_eq_some_iff, h] at hprovides
    cases hprovides
    exact hvalue
  · exact .attributeEq (Identity.attribute?_eq_some_iff.1 h)

theorem holds_attributeIn_iff {field name : String} {value : Value}
    (h : identity.attribute? name = some value) :
    Holds identity document (.attributeIn field name) ↔
      ∃ one ∈ valuesOf value, HasValue document field one := by
  have hprovided := Identity.attribute?_eq_some_iff.1 h
  constructor
  · intro hholds
    cases hholds with
    | attributeIn hprovides hmem hvalue =>
      rw [← Identity.attribute?_eq_some_iff, h] at hprovides
      cases hprovides
      exact ⟨_, hmem, hvalue⟩
    | attributeInSingle hprovides hsingle hvalue =>
      rw [← Identity.attribute?_eq_some_iff, h] at hprovides
      cases hprovides
      cases value with
      | array values => cases hsingle
      | _ => exact ⟨_, List.mem_singleton_self _, hvalue⟩
  · rintro ⟨one, hmem, hvalue⟩
    cases value with
    | array values => exact .attributeIn hprovided hmem hvalue
    | _ =>
      obtain rfl := List.mem_singleton.1 hmem
      exact .attributeInSingle hprovided rfl hvalue

theorem holds_all_iff {templates : List Template} :
    Holds identity document (.all templates) ↔ ∀ t ∈ templates, Holds identity document t :=
  ⟨fun h => by cases h; assumption, .all⟩

theorem holds_any_iff {templates : List Template} :
    Holds identity document (.any templates) ↔ ∃ t ∈ templates, Holds identity document t :=
  ⟨fun h => by cases h with | any hmem h => exact ⟨_, hmem, h⟩, fun ⟨_, hmem, h⟩ => .any hmem h⟩

/-! ### The filter of a template -/

theorem attribute?_of_lookup {name : String} {value : Value}
    (h : lookup identity name = .ok value) : identity.attribute? name = some value := by
  unfold lookup at h
  split at h
  · cases h
    assumption
  · cases h

mutual

/-- The filter of a template matches the documents that the template holds of. -/
theorem isMatch_iff_holds (identity : Identity) (document : Value) : (t : Template) →
    ∀ filter, t.resolve identity = .ok filter →
      (filter.isMatch document = true ↔ t.Holds identity document)
  | .standard _, _, h => by
    cases h
    exact holds_standard_iff.symm
  | .attributeEq field name, filter, h => by
    obtain ⟨value, hvalue, rfl⟩ := map_eq_ok_iff.1 h
    rw [holds_attributeEq_iff (attribute?_of_lookup hvalue), Filter.isMatch_eq_iff]
  | .attributeIn field name, filter, h => by
    obtain ⟨value, hvalue, rfl⟩ := map_eq_ok_iff.1 h
    rw [holds_attributeIn_iff (attribute?_of_lookup hvalue), Filter.isMatch_oneOf_iff]
  | .all templates, filter, h => by
    obtain ⟨filters, hfilters, rfl⟩ := map_eq_ok_iff.1 h
    have heach := isMatch_iff_holds_each identity document templates filters hfilters
    rw [Filter.isMatch_allOf, List.all_eq_true, holds_all_iff, forall_mem_iff_of_forall₂ heach]
  | .any templates, filter, h => by
    obtain ⟨filters, hfilters, rfl⟩ := map_eq_ok_iff.1 h
    have heach := isMatch_iff_holds_each identity document templates filters hfilters
    rw [Filter.isMatch_anyOf, List.any_eq_true, holds_any_iff, exists_mem_iff_of_forall₂ heach]

theorem isMatch_iff_holds_each (identity : Identity) (document : Value) : (ts : List Template) →
    ∀ filters, resolveEach identity ts = .ok filters →
      List.Forall₂ (fun t filter => filter.isMatch document = true ↔ t.Holds identity document)
        ts filters
  | [], _, h => by
    cases h
    exact .nil
  | t :: ts, filters, h => by
    obtain ⟨filter, hfilter, h⟩ := bind_eq_ok_iff.1 h
    obtain ⟨rest, hrest, h⟩ := bind_eq_ok_iff.1 h
    cases h
    exact .cons (isMatch_iff_holds identity document t filter hfilter)
      (isMatch_iff_holds_each identity document ts rest hrest)

end

/-! ### The failure of a template -/

mutual

/-- The attributes that a template refers to, as they are mentioned. -/
def references : Template → List String
  | .standard _ => []
  | .attributeEq _ name => [name]
  | .attributeIn _ name => [name]
  | .all templates => referencesOfEach templates
  | .any templates => referencesOfEach templates
termination_by structural t => t

/-- The attributes that templates refer to, as they are mentioned. -/
def referencesOfEach : List Template → List String
  | [] => []
  | t :: ts => references t ++ referencesOfEach ts
termination_by structural ts => ts

end

/-- The first of some attributes that the caller does not have. -/
def firstMissing (identity : Identity) (names : List String) : Option String :=
  names.find? fun name => (identity.attribute? name).isNone

theorem failure?_lookup (identity : Identity) (name : String) :
    failure? (lookup identity name) =
      (firstMissing identity [name]).map GuardError.missingAttribute := by
  rw [lookup, firstMissing, List.find?_singleton]
  cases identity.attribute? name <;> rfl

mutual

theorem failure?_resolve (identity : Identity) : (t : Template) →
    failure? (t.resolve identity) =
      (firstMissing identity t.references).map GuardError.missingAttribute
  | .standard _ => rfl
  | .attributeEq _ name => (failure?_map _ _).trans (failure?_lookup identity name)
  | .attributeIn _ name => (failure?_map _ _).trans (failure?_lookup identity name)
  | .all templates => (failure?_map _ _).trans (failure?_resolveEach identity templates)
  | .any templates => (failure?_map _ _).trans (failure?_resolveEach identity templates)

theorem failure?_resolveEach (identity : Identity) : (ts : List Template) →
    failure? (resolveEach identity ts) =
      (firstMissing identity (referencesOfEach ts)).map GuardError.missingAttribute
  | [] => rfl
  | t :: ts => by
    have hfirst := failure?_resolve identity t
    have hrest := failure?_resolveEach identity ts
    rw [resolveEach, failure?_bind_map, hfirst, hrest, referencesOfEach, firstMissing, firstMissing,
      firstMissing, List.find?_append, Option.map_or]

end

/-- A caller lacks an attribute where the template cannot be resolved, and the attribute is the
first of those. -/
theorem resolve_eq_error_iff {e : GuardError} {t : Template} :
    t.resolve identity = .error e ↔
      ∃ before name after, t.references = before ++ name :: after ∧
        (∀ other ∈ before, identity.Has other) ∧ ¬identity.Has name ∧
          e = .missingAttribute name := by
  have hmissing (name : String) :
      (identity.attribute? name).isNone = true ↔ ¬identity.Has name := by
    rw [← Identity.isSome_attribute?_iff, Bool.not_eq_true, Option.isSome_eq_false_iff]
  rw [← failure?_eq_some_iff, failure?_resolve, Option.map_eq_some_iff]
  simp only [firstMissing, List.find?_eq_some_iff_append, hmissing, Bool.not_eq_true',
    Option.isNone_eq_false_iff, Identity.isSome_attribute?_iff]
  constructor
  · rintro ⟨name, ⟨hname, before, after, hreferences, hbefore⟩, rfl⟩
    exact ⟨before, name, after, hreferences, hbefore, hname, rfl⟩
  · rintro ⟨before, name, after, hreferences, hbefore, hname, rfl⟩
    exact ⟨name, ⟨hname, before, after, hreferences, hbefore⟩, rfl⟩

theorem exists_resolve_eq_error_iff {t : Template} :
    (∃ e, t.resolve identity = .error e) ↔ ∃ name ∈ t.references, ¬identity.Has name := by
  simp only [← failure?_eq_some_iff, failure?_resolve, ← Option.isSome_iff_exists,
    Option.isSome_map, firstMissing, List.find?_isSome, ← Identity.isSome_attribute?_iff,
    Bool.not_eq_true, Option.isSome_eq_false_iff]

/-- A template is resolved for a caller exactly if the caller has every attribute that it refers to
at any depth, and otherwise the first one missing is the failure. The filter matches the documents
that the template, read directly, holds of. -/
theorem resolve_reads_template (identity : Identity) (t : Template) :
    ((∃ e, t.resolve identity = .error e) ↔ ∃ name ∈ t.references, ¬identity.Has name) ∧
    (∀ e, t.resolve identity = .error e →
      ∃ before name after, t.references = before ++ name :: after ∧
        (∀ other ∈ before, identity.Has other) ∧ ¬identity.Has name ∧
          e = .missingAttribute name) ∧
    ∀ filter, t.resolve identity = .ok filter →
      ∀ document, filter.isMatch document = true ↔ t.Holds identity document :=
  ⟨exists_resolve_eq_error_iff, fun _ => resolve_eq_error_iff.1,
    fun filter h document => isMatch_iff_holds identity document t filter h⟩

/-- A caller of one of the teams owns a record of the team, and a caller without an identifier is
refused for it although the teams are missing as well. -/
theorem resolve_reads_template_of_teams :
    let template : Template :=
      .all [.attributeEq "owner" "id", .any [.attributeIn "team" "teams", .any []], .all []]
    let caller := ((Identity.ofRoles ["USER"]).withId "ann").withAttribute "teams"
      (.array [.string "red", .string "blue"])
    let stranger := Identity.ofRoles ["USER"]
    let document := Value.object [("owner", .string "ann"), ("team", .string "blue")]
    (∃ filter, template.resolve caller = .ok filter ∧ filter.isMatch document = true) ∧
      template.Holds caller document ∧
      template.resolve stranger = .error (.missingAttribute "id") ∧
      ∃ name ∈ template.references, ¬stranger.Has name := by
  intro template caller stranger document
  have hresolve : template.resolve caller = .ok (.all [.eq "owner" (.string "ann"),
      .any [.field "team" (.oneOf [.string "red", .string "blue"]), .any []], .all []]) := rfl
  have hmatch : Filter.isMatch document (.all [.eq "owner" (.string "ann"),
      .any [.field "team" (.oneOf [.string "red", .string "blue"]), .any []], .all []]) = true := by
    decide +kernel
  have hrefused : template.resolve stranger = .error (.missingAttribute "id") := rfl
  exact ⟨⟨_, hresolve, hmatch⟩,
    ((resolve_reads_template caller template).2.2 _ hresolve document).1 hmatch, hrefused,
    (resolve_reads_template stranger template).1.1 ⟨_, hrefused⟩⟩

end Template

end RecordGuard
