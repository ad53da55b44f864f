import RecordGuard.Proofs.PlannedTree

/-!
# Paths that planning refuses

Along its first segments a path leads from model to model. It strays (`Catalog.Strays`) where the
next segment is no association of the model it has led to, and no attribute that ends the path.
Planning follows the paths as many associations deep as it loads, and looks at one segment more; it
fails exactly when a path strays within this reach, and reports the whole path and the model at
which it strays (`Catalog.plan_fails_iff`).

The paths are taken apart on the way down. By induction on the levels, the path that is reported is
the part that led to the model joined to what is left of the path (`tells_planNode`), and as the
names of associations are not empty, this is the path that was given.
-/

namespace RecordGuard

namespace Catalog

/-- Whether a path strays at the model `last`: its first segments, at most `reach` many, lead there
from a model as associations, and the next one leads nowhere. -/
def Strays (catalog : Catalog) (model : Model) (reach : Nat) (path : String) (last : Model) :
    Prop :=
  ∃ chain next rest, Path.segments path = chain ++ next :: rest ∧ chain.length ≤ reach ∧
    catalog.follow? model chain = some last ∧ last.association? next = none ∧
    ¬(rest = [] ∧ last.hasAttribute next = true)

variable {catalog : Catalog} {exclusive : Bool} {levels : Nat} {model last : Model}
  {paths : List String} {path : String}

/-- A path strays at once, or behind its first segment with one step less to take. -/
theorem strays_iff {reach : Nat} :
    catalog.Strays model reach path last ↔
      (model = last ∧ PathStep.ofPath? model path = none) ∨
        ∃ name target rest, 0 < reach ∧ catalog.next? model name = some target ∧
          Path.behind? name path = some rest ∧ catalog.Strays target (reach - 1) rest last := by
  constructor
  · rintro ⟨chain, next, rest, hsegments, hlength, hfollow, hnext⟩
    cases chain with
    | nil =>
      cases hfollow
      exact .inl ⟨rfl, PathStep.ofPath?_eq_none_iff.2 ⟨next, rest, hsegments, hnext⟩⟩
    | cons name chain =>
      obtain ⟨target, htarget, hfollow⟩ := Option.bind_eq_some_iff.1 hfollow
      obtain ⟨left, hbehind, hleft⟩ := (Path.segments_eq_cons_iff
        (List.append_ne_nil_of_right_ne_nil _ (List.cons_ne_nil next rest))).1 hsegments
      rw [List.length_cons] at hlength
      exact .inr ⟨name, target, left, by omega, htarget, hbehind,
        chain, next, rest, hleft, by omega, hfollow, hnext⟩
  · rintro (⟨rfl, hstep⟩ | ⟨name, target, left, hreach, htarget, hbehind, hleft⟩)
    · obtain ⟨next, rest, hsegments, hnext⟩ := PathStep.ofPath?_eq_none_iff.1 hstep
      exact ⟨[], next, rest, hsegments, Nat.zero_le _, rfl, hnext⟩
    · obtain ⟨chain, next, rest, hsegments, hlength, hfollow, hnext⟩ := hleft
      refine ⟨name :: chain, next, rest, ?_, ?_, ?_, hnext⟩
      · rw [List.cons_append, ← hsegments]
        exact (Path.segments_eq_cons_iff (Path.segments_ne_nil left)).2 ⟨left, hbehind, rfl⟩
      · rw [List.length_cons]
        omega
      · rw [follow?, htarget]
        exact hfollow

/-! ### Loaded associations -/

theorem mem_loaded_iff {a : Association} :
    a ∈ loaded exclusive paths model levels ↔
      0 < levels ∧ a ∈ model.associations ∧ loads exclusive paths a.name = true := by
  cases levels with
  | zero => simp [loaded]
  | succ levels => simp [loaded, List.mem_filter]

/-- A path that follows an association makes it load. -/
theorem loads_of_behind? {name rest : String} (hpath : path ∈ paths)
    (h : Path.behind? name path = some rest) : loads exclusive paths name = true := by
  have hname := Path.splitFirst_of_behind? h
  rw [loads, Bool.or_eq_true, List.any_eq_true]
  exact .inr ⟨path, hpath, beq_iff_eq.2 hname⟩

theorem exists_mem_of_next? {name : String} {target : Model}
    (h : catalog.next? model name = some target) :
    ∃ a ∈ model.associations, a.name = name := by
  obtain ⟨a, ha, -⟩ := Option.bind_eq_some_iff.1 h
  exact ⟨a, List.mem_of_find?_eq_some ha, model.name_of_association? ha⟩

/-- A path that takes a step does not stray if it strays behind no association that it loads. -/
theorem not_strays_of_loaded (exclusive : Bool) (hpath : path ∈ paths)
    (hstep : PathStep.ofPath? model path ≠ none)
    (hloaded : ∀ a ∈ loaded exclusive paths model levels, ∀ target rest,
      catalog.next? model a.name = some target → Path.behind? a.name path = some rest →
        ¬catalog.Strays target (levels - 1) rest last) :
    ¬catalog.Strays model levels path last := by
  intro hstrays
  rcases strays_iff.1 hstrays with
    ⟨-, hnone⟩ | ⟨name, target, rest, hlevels, hnext, hbehind, hrest⟩
  · exact hstep hnone
  · obtain ⟨a, ha, rfl⟩ := exists_mem_of_next? hnext
    have hmem : a ∈ loaded exclusive paths model levels :=
      mem_loaded_iff.2 ⟨hlevels, ha, loads_of_behind? hpath hbehind⟩
    exact hloaded a hmem target rest hnext hbehind hrest

/-! ### Planning that fails -/

/-- What the result of planning a node says of its paths: with a tree, that none of them strays,
and with an error, which one does. -/
def Tells (catalog : Catalog) (model : Model) (levels : Nat) (parent : String)
    (paths : List String) : Except LookupError IncludeNode → Prop
  | .ok _ => ∀ path ∈ paths, ∀ last, ¬catalog.Strays model levels path last
  | .error e => ∃ path ∈ paths, ∃ last, catalog.Strays model levels path last ∧
      e = .unknownPath last.name (Path.join parent path)

/-- The error of a child is one of its parent: what is left of the path that strays is put together
with the name that was taken off. -/
theorem Tells.of_child_error {parent name : String} {target : Model} {e : LookupError}
    (hlevels : 0 < levels) (hnext : catalog.next? model name = some target) (hname : name ≠ "")
    (h : catalog.Tells target (levels - 1) (Path.join parent name)
      (paths.filterMap (Path.behind? name)) (.error e)) :
    catalog.Tells model levels parent paths (.error e) := by
  obtain ⟨rest, hrest, last, hstrays, rfl⟩ := h
  obtain ⟨path, hpath, hbehind⟩ := List.mem_filterMap.1 hrest
  rw [Path.join_join_of_behind? hbehind hname]
  exact ⟨path, hpath, last,
    strays_iff.2 (.inr ⟨name, target, rest, hlevels, hnext, hbehind, hstrays⟩), rfl⟩

section Accepted

variable {models : List Model} (hcatalog : ofModels models = .ok catalog)
include hcatalog

/-- In an accepted catalog a child is planned for the model that its association leads to. -/
theorem exists_planChild_eq (hmodel : model ∈ catalog.models) {a : Association}
    (ha : a ∈ model.associations) :
    ∃ target ∈ catalog.models, catalog.next? model a.name = some target ∧
      ∀ exclusive levels parent paths, catalog.planChild exclusive levels parent paths a =
        catalog.planNode exclusive (levels - 1) (some a.name) target (Path.join parent a.name)
          (paths.filterMap (Path.behind? a.name)) := by
  obtain ⟨target, htarget⟩ := exists_target_of_ofModels hcatalog hmodel ha
  have hmembers := nodup_members_of_ofModels hcatalog model hmodel
  refine ⟨target, mem_models_of_get? hcatalog htarget, ?_, fun exclusive levels parent paths => ?_⟩
  · rw [next?, Model.association?_of_mem hmembers ha]
    exact htarget
  · rw [planChild, model_eq_ok_iff.2 htarget]
    rfl

/-- Planning a node gives a tree when no path strays, and otherwise reports one that does. -/
theorem tells_planNode
    (hnames : ∀ model ∈ catalog.models, ∀ a ∈ model.associations, a.name ≠ "")
    (hmodel : model ∈ catalog.models) (association : Option String) (parent : String) :
    catalog.Tells model levels parent paths
      (catalog.planNode exclusive levels association model parent paths) := by
  -- The induction is on the levels left, which are fewer for every child.
  induction levels using Nat.strongRecOn generalizing association model parent paths with
  | ind levels ih =>
    have hmembers := nodup_members_of_ofModels hcatalog model hmodel
    have hchild : ∀ a ∈ loaded exclusive paths model levels, ∃ target,
        catalog.next? model a.name = some target ∧
          catalog.Tells target (levels - 1) (Path.join parent a.name)
            (paths.filterMap (Path.behind? a.name))
            (catalog.planChild exclusive levels parent paths a) := by
      intro a ha
      obtain ⟨hlevels, ha, -⟩ := mem_loaded_iff.1 ha
      obtain ⟨target, htarget, hnext, hplan⟩ := exists_planChild_eq hcatalog hmodel ha
      rw [hplan]
      exact ⟨target, hnext, ih (levels - 1) (Nat.sub_lt hlevels Nat.one_pos) htarget _ _⟩
    rcases steps_cases model parent paths with ⟨hsteps, hall⟩ | ⟨path, hpath, hnone, hsteps⟩
    · rw [planNode_of_steps hmembers hsteps]
      rcases mapM_cases (catalog.planChild exclusive levels parent paths)
        (loaded exclusive paths model levels) with
        ⟨children, hchildren, hok⟩ | ⟨a, ha, e, herror, hchildren⟩
      · rw [hchildren]
        intro path hpath last
        refine not_strays_of_loaded exclusive hpath (hall path hpath) ?_
        intro a ha target rest hnext hbehind
        obtain ⟨child, hplanned⟩ := hok a ha
        obtain ⟨found, hfound, htells⟩ := hchild a ha
        obtain rfl : target = found := Option.some.inj (hnext.symm.trans hfound)
        rw [hplanned] at htells
        exact htells rest (List.mem_filterMap.2 ⟨path, hpath, hbehind⟩) last
      · obtain ⟨target, hnext, htells⟩ := hchild a ha
        obtain ⟨hlevels, ha, -⟩ := mem_loaded_iff.1 ha
        rw [herror] at htells
        rw [hchildren]
        exact htells.of_child_error hlevels hnext (hnames model hmodel a ha)
    · rw [planNode_of_steps_error hsteps]
      exact ⟨path, hpath, model, strays_iff.2 (.inl ⟨rfl, hnone⟩), rfl⟩

end Accepted

/-- Planning for an entity of an accepted catalog fails exactly if a path of the request strays
within its reach. What is reported is such a path, as the request has it, and the model at which it
strays; a request without a projection has no path to report. -/
theorem plan_fails_iff {models : List Model} (hcatalog : ofModels models = .ok catalog)
    (hnames : ∀ model ∈ catalog.models, ∀ a ∈ model.associations, a.name ≠ "") {entity : String}
    {root : Model} (hroot : catalog.get? entity = some root) (request : PlanRequest) :
    ((∃ e, catalog.plan entity request = .error e) ↔
      ∃ path ∈ request.paths, ∃ last, catalog.Strays root (max request.depth 1) path last) ∧
    (∀ e, catalog.plan entity request = .error e →
      ∃ path ∈ request.paths, ∃ last, catalog.Strays root (max request.depth 1) path last ∧
        e = .unknownPath last.name path) ∧
    (∀ name, catalog.plan entity request ≠ .error (.unknownEntity name)) ∧
    (request.projection = none → ∃ tree, catalog.plan entity request = .ok tree) := by
  have hplan : catalog.plan entity request =
      catalog.planNode request.loadsAll (max request.depth 1) none root "" request.paths := by
    rw [plan, model_eq_ok_iff.2 hroot]
    rfl
  rw [hplan]
  have htells : catalog.Tells root (max request.depth 1) "" request.paths
      (catalog.planNode request.loadsAll (max request.depth 1) none root "" request.paths) :=
    tells_planNode hcatalog hnames (mem_models_of_get? hcatalog hroot) none ""
  cases hresult : catalog.planNode request.loadsAll (max request.depth 1) none root ""
      request.paths with
  | ok tree =>
    rw [hresult] at htells
    refine ⟨iff_of_false ?_ ?_, ?_, ?_, fun _ => ⟨tree, rfl⟩⟩
    · rintro ⟨e, he⟩
      cases he
    · rintro ⟨path, hpath, last, hstrays⟩
      exact htells path hpath last hstrays
    · intro e he
      cases he
    · intro name he
      cases he
  | error e =>
    rw [hresult] at htells
    obtain ⟨path, hpath, last, hstrays, rfl⟩ := htells
    rw [Path.join_empty]
    refine ⟨iff_of_true ⟨_, rfl⟩ ⟨path, hpath, last, hstrays⟩, ?_, ?_, ?_⟩
    · intro e he
      cases he
      exact ⟨path, hpath, last, hstrays, rfl⟩
    · intro name he
      cases he
    · intro hnone
      rw [PlanRequest.paths, hnone] at hpath
      cases hpath

/-- Among people and firms that lead to each other, a path goes round once and then asks for a
salary, which a person does not have: two levels deep this is found, the second time a person is
met. -/
theorem plan_fails_of_salary :
    let person : Model := ⟨"Person", ["name", "age"], [⟨"employer", "Firm"⟩, ⟨"boss", "Person"⟩]⟩
    let firm : Model := ⟨"Firm", ["name"], [⟨"staff", "Person"⟩]⟩
    let catalog : Catalog := ⟨[("Firm", firm), ("Person", person)], ["Person", "Firm"]⟩
    let request : PlanRequest := ⟨some (.exclusive ["name", "employer.staff.salary"]), 2⟩
    ofModels [person, firm] = .ok catalog ∧
      (∀ model ∈ catalog.models, ∀ a ∈ model.associations, a.name ≠ "") ∧
      catalog.get? "Person" = some person ∧
      catalog.plan "Person" request = .error (.unknownPath "Person" "employer.staff.salary") ∧
      ∃ path ∈ request.paths, ∃ last, catalog.Strays person (max request.depth 1) path last := by
  intro person firm catalog request
  have hcatalog : ofModels [person, firm] = .ok catalog := by decide +kernel
  have hnames : ∀ model ∈ catalog.models, ∀ a ∈ model.associations, a.name ≠ "" := by
    decide +kernel
  have hroot : catalog.get? "Person" = some person := by decide +kernel
  have hplan : catalog.plan "Person" request =
      .error (.unknownPath "Person" "employer.staff.salary") := by rfl
  exact ⟨hcatalog, hnames, hroot, hplan,
    (plan_fails_iff hcatalog hnames hroot request).1.1 ⟨_, hplan⟩⟩

end Catalog

end RecordGuard
