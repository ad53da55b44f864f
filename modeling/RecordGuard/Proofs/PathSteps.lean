import Mathlib.Tactic.SplitIfs
import RecordGuard.Include.Plan
import RecordGuard.Proofs.Segments

/-!
# Paths along associations

A path names an attribute at the end of a chain of associations when its segments are the chain and
the attribute (`Model.namedBy`). At a model each path takes a step, which goes by its first segment
only; what the steps of some paths choose and follow is said here in terms of whole paths
(`choice_eq`, `any_follows`), and what is left of paths behind a chain names what the paths name at
its end (`Model.namedBy_behindAll`).
-/

namespace RecordGuard

/-! ### Names behind a chain -/

/-- The attribute of a model that a path names at the end of a chain. -/
def Model.named? (model : Model) (chain : List String) (path : String) : Option String :=
  model.attributes.find? fun name => Path.segments path == chain ++ [name]

/-- The attributes of a model that paths name at the end of a chain, in the order in which they are
first named. -/
def Model.namedBy (model : Model) (chain : List String) (paths : List String) : List String :=
  distinct (paths.filterMap (model.named? chain))

/-- A choice of names, if there are any. -/
def AttributeChoice.ofNames (choice : List String → AttributeChoice) :
    List String → Option AttributeChoice
  | [] => none
  | names => some (choice names)

/-! ### Paths behind a chain -/

/-- What is left of paths behind a chain of segments. -/
def Path.behindAll : List String → List String → List String
  | [], paths => paths
  | name :: chain, paths => behindAll chain (paths.filterMap (behind? name))

theorem Path.splitFirst_of_behind? {name path rest : String}
    (h : behind? name path = some rest) : (splitFirst path).1 = name := by
  rw [behind?] at h
  split_ifs at h with hname
  exact hname

namespace Model

variable (model : Model)

theorem named?_nil (path : String) :
    model.named? [] path =
      if model.hasAttribute (Path.splitFirst path).1 && (Path.splitFirst path).2.isNone then
        some (Path.splitFirst path).1
      else none := by
  rw [named?, Path.segments_eq_splitFirst]
  cases (Path.splitFirst path).2 with
  | some rest =>
    rw [Option.isNone_some, Bool.and_false, if_neg Bool.false_ne_true]
    refine List.find?_eq_none.2 fun x _ hx => Path.segments_ne_nil rest ?_
    exact (List.cons.inj (beq_iff_eq.1 hx)).2
  | none =>
    rw [Option.isNone_none, Bool.and_true, hasAttribute]
    induction model.attributes with
    | nil => rfl
    | cons first attributes ih =>
      rw [List.find?_cons, List.contains_cons, ih]
      by_cases hfirst : (Path.splitFirst path).1 = first
      · simp [hfirst]
      · simp [beq_eq_false_iff_ne.2 hfirst]

theorem named?_cons (name : String) (chain : List String) (path : String) :
    model.named? (name :: chain) path = (Path.behind? name path).bind (model.named? chain) := by
  have hsegments (x : String) : Path.segments path = name :: (chain ++ [x]) ↔
      ∃ rest, Path.behind? name path = some rest ∧ Path.segments rest = chain ++ [x] :=
    Path.segments_eq_cons_iff (List.append_ne_nil_of_right_ne_nil _ (List.cons_ne_nil x []))
  rw [named?]
  cases hbehind : Path.behind? name path with
  | none =>
    refine List.find?_eq_none.2 fun x _ hx => ?_
    obtain ⟨rest, hrest, -⟩ := (hsegments x).1 (beq_iff_eq.1 hx)
    rw [hbehind] at hrest
    cases hrest
  | some rest =>
    rw [Option.bind_some, named?]
    congr 1
    funext x
    rw [Bool.eq_iff_iff, beq_iff_eq, beq_iff_eq, List.cons_append, hsegments, hbehind]
    simp only [Option.some.injEq, exists_eq_left']

theorem isSome_association? {a : Association} (h : a ∈ model.associations) :
    (model.association? a.name).isSome = true :=
  List.find?_isSome.2 ⟨a, h, beq_self_eq_true a.name⟩

theorem name_of_association? {name : String} {a : Association}
    (h : model.association? name = some a) : a.name = name := by
  have hname := List.find?_some h
  exact beq_iff_eq.1 hname

/-- An association has another name than every attribute. -/
theorem hasAttribute_of_mem {model : Model} (hmodel : model.members.Nodup) {a : Association}
    (h : a ∈ model.associations) : model.hasAttribute a.name = false := by
  obtain ⟨-, -, hdisjoint⟩ := List.nodup_append.1 hmodel
  rw [hasAttribute, List.contains_eq_mem, decide_eq_false_iff_not]
  exact fun hmem => hdisjoint _ hmem _ (List.mem_map_of_mem h) rfl

/-- The names behind a chain are those that are left of the paths name alone. -/
theorem namedBy_behindAll (chain paths : List String) :
    model.namedBy [] (Path.behindAll chain paths) = model.namedBy chain paths := by
  have h : (Path.behindAll chain paths).filterMap (model.named? []) =
      paths.filterMap (model.named? chain) := by
    induction chain generalizing paths with
    | nil => rfl
    | cons name chain ih =>
      rw [Path.behindAll, ih, List.filterMap_filterMap]
      congr 1
      funext path
      exact (model.named?_cons name chain path).symm
  rw [namedBy, h, namedBy]

end Model

/-! ### Steps of paths -/

namespace PathStep

variable {model : Model} {path : String}

theorem ofPath?_eq (model : Model) (path : String) :
    ofPath? model path =
      if model.hasAttribute (Path.splitFirst path).1 && (Path.splitFirst path).2.isNone then
        some (.attribute (Path.splitFirst path).1)
      else if (model.association? (Path.splitFirst path).1).isSome then
        some (.association (Path.splitFirst path).1 (Path.splitFirst path).2)
      else none := rfl

theorem attribute?_ofPath? : (ofPath? model path).bind attribute? = model.named? [] path := by
  rw [model.named?_nil, ofPath?_eq]
  split_ifs <;> rfl

theorem restAt?_ofPath? {name : String} (h : (model.association? name).isSome = true) :
    (ofPath? model path).bind (restAt? name) = Path.behind? name path := by
  rw [ofPath?_eq, Path.behind?]
  split_ifs with hattribute hname hassociation hname hname
  · rw [Bool.and_eq_true, Option.isNone_iff_eq_none] at hattribute
    exact hattribute.2.symm
  · rfl
  · exact if_pos hname
  · exact if_neg hname
  · exact (hassociation (hname ▸ h)).elim
  · rfl

/-- A path follows an association that is the first of its segments, unless the name is also that
of an attribute. -/
theorem any_follows_ofPath? {name : String} (h : (model.association? name).isSome = true)
    (hname : model.hasAttribute name = false) :
    (ofPath? model path).any (follows name) = ((Path.splitFirst path).1 == name) := by
  rw [ofPath?_eq]
  split_ifs with hattribute hassociation
  · rw [Bool.and_eq_true] at hattribute
    refine (beq_eq_false_iff_ne.2 fun he => ?_).symm
    rw [he, hname] at hattribute
    exact Bool.false_ne_true hattribute.1
  · rfl
  · refine (beq_eq_false_iff_ne.2 fun he => hassociation ?_).symm
    rw [he]
    exact h

/-- A path takes no step where its first segment is neither an association nor an attribute that
ends the path. -/
theorem ofPath?_eq_none_iff :
    ofPath? model path = none ↔ ∃ next rest, Path.segments path = next :: rest ∧
      model.association? next = none ∧ ¬(rest = [] ∧ model.hasAttribute next = true) := by
  have hrest : ((Path.splitFirst path).2.map Path.segments).getD [] = [] ↔
      (Path.splitFirst path).2 = none := by
    cases (Path.splitFirst path).2 with
    | none => simp
    | some rest => simp [Path.segments_ne_nil]
  rw [ofPath?_eq, Path.segments_eq_splitFirst]
  simp only [List.cons.injEq, and_assoc, exists_and_left, exists_eq_left', hrest, Bool.and_eq_true,
    Option.isNone_iff_eq_none]
  split_ifs with hattribute hassociation
  · exact iff_of_false not_false fun h => h.2 hattribute.symm
  · exact iff_of_false not_false fun h =>
      Option.ne_none_iff_isSome.2 hassociation h.1
  · exact iff_of_true rfl ⟨by simpa using hassociation, fun h => hattribute h.symm⟩

end PathStep

/-! ### Steps of several paths -/

namespace Catalog

/-- Either every path takes a step, or one that takes none is reported. -/
theorem steps_cases (model : Model) (parent : String) (paths : List String) :
    (steps model parent paths = .ok (paths.filterMap (PathStep.ofPath? model)) ∧
        ∀ path ∈ paths, PathStep.ofPath? model path ≠ none) ∨
      ∃ path ∈ paths, PathStep.ofPath? model path = none ∧
        steps model parent paths = .error (.unknownPath model.name (Path.join parent path)) := by
  induction paths with
  | nil => exact .inl ⟨rfl, fun path hpath => (List.not_mem_nil hpath).elim⟩
  | cons path paths ih =>
    rw [steps]
    cases hstep : PathStep.ofPath? model path with
    | none => exact .inr ⟨path, List.mem_cons_self, hstep, rfl⟩
    | some step =>
      rcases ih with ⟨hsteps, hall⟩ | ⟨other, hother, hnone, hsteps⟩
      · left
        rw [hsteps, List.filterMap_cons_some hstep, List.forall_mem_cons, hstep]
        exact ⟨rfl, Option.some_ne_none step, hall⟩
      · right
        rw [hsteps]
        exact ⟨other, List.mem_cons_of_mem _ hother, hnone, rfl⟩

/-- Whether paths, of which an exclusive projection names what it leaves out, load an
association. -/
def loads (exclusive : Bool) (paths : List String) (name : String) : Bool :=
  exclusive || paths.any fun path => (Path.splitFirst path).1 == name

/-- Whether the paths load the associations of a chain. -/
def LoadsChain (exclusive : Bool) (paths chain : List String) : Prop :=
  exclusive = true ∨ ∃ path ∈ paths, chain <+: Path.segments path

/-- A chain is loaded if its first association is, and what is left of the paths behind that one
loads the rest of the chain. -/
theorem loadsChain_cons {exclusive : Bool} {paths chain : List String} {name : String} :
    LoadsChain exclusive paths (name :: chain) ↔ loads exclusive paths name = true ∧
      (chain = [] ∨ LoadsChain exclusive (paths.filterMap (Path.behind? name)) chain) := by
  cases exclusive with
  | true => simp [LoadsChain, loads]
  | false =>
    simp only [LoadsChain, loads, Path.cons_isPrefix_segments_iff, Bool.false_or, List.any_eq_true,
      beq_iff_eq, Bool.false_eq_true, false_or, List.mem_filterMap]
    constructor
    · rintro ⟨path, hpath, hname, hnil | ⟨rest, hrest, hprefix⟩⟩
      · exact ⟨⟨path, hpath, hname⟩, .inl hnil⟩
      · exact ⟨⟨path, hpath, hname⟩, .inr ⟨rest, ⟨path, hpath, hrest⟩, hprefix⟩⟩
    · rintro ⟨⟨path, hpath, hname⟩, hnil | ⟨rest, ⟨other, hother, hrest⟩, hprefix⟩⟩
      · exact ⟨path, hpath, hname, .inl hnil⟩
      · exact ⟨other, hother, Path.splitFirst_of_behind? hrest, .inr ⟨rest, hrest, hprefix⟩⟩

variable {model : Model} {paths : List String}

theorem choice_eq (exclusive : Bool) :
    choice exclusive (paths.filterMap (PathStep.ofPath? model)) =
      AttributeChoice.ofNames (if exclusive then .allBut else .these)
        (model.namedBy [] paths) := by
  have hnames : (paths.filterMap (PathStep.ofPath? model)).filterMap PathStep.attribute? =
      paths.filterMap (model.named? []) := by
    rw [List.filterMap_filterMap]
    exact congrArg (paths.filterMap ·) (funext fun path => PathStep.attribute?_ofPath?)
  rw [choice, hnames, Model.namedBy]
  cases distinct (paths.filterMap (model.named? [])) with
  | nil => rfl
  | cons name names => cases exclusive <;> rfl

theorem filterMap_restAt? {name : String} (h : (model.association? name).isSome = true) :
    (paths.filterMap (PathStep.ofPath? model)).filterMap (PathStep.restAt? name) =
      paths.filterMap (Path.behind? name) := by
  rw [List.filterMap_filterMap]
  exact congrArg (paths.filterMap ·) (funext fun path => PathStep.restAt?_ofPath? h)

theorem any_follows {name : String} (h : (model.association? name).isSome = true)
    (hname : model.hasAttribute name = false) (exclusive : Bool) :
    (exclusive || (paths.filterMap (PathStep.ofPath? model)).any (PathStep.follows name)) =
      loads exclusive paths name := by
  rw [loads, List.any_filterMap]
  exact congrArg (fun p => exclusive || paths.any p)
    (funext fun path => PathStep.any_follows_ofPath? h hname)

end Catalog

end RecordGuard
