import RecordGuard.Proofs.Catalogs
import RecordGuard.Proofs.PathSteps
import RecordGuard.Proofs.Results

/-!
# The tree that a projection describes

The nodes of an include tree are named by the chains of associations that lead to them
(`IncludeNode.at?`), and so are models (`Catalog.follow?`). A request says of a chain whether it is
loaded and of a node which attributes it has; `plan_describes` says that the planned tree has
exactly the loaded chains, as deep as the request allows, and what is described at each of them.

Planning takes the first segment off the paths at every level. So the node at the end of a chain is
planned from what is left of the paths behind the chain (`Path.behindAll`), which is shown by
induction on the chain (`planned_of_at?`); what is said of one level then holds at all of them.
-/

namespace RecordGuard

/-! ### Chains of associations -/

/-- The model that an association leads to. -/
def Catalog.next? (catalog : Catalog) (model : Model) (name : String) : Option Model :=
  (model.association? name).bind fun a => catalog.get? a.target

/-- The model that a chain of associations leads to. -/
def Catalog.follow? (catalog : Catalog) : Model → List String → Option Model
  | model, [] => some model
  | model, name :: chain =>
    (catalog.next? model name).bind fun target => follow? catalog target chain

/-- The node at the end of a chain of associations. -/
def IncludeNode.at? : IncludeNode → List String → Option IncludeNode
  | node, [] => some node
  | node, name :: chain => (node.child? name).bind fun child => child.at? chain

/-! ### What a request describes -/

namespace PlanRequest

/-- Whether a request loads the associations of a chain, were it deep enough. -/
def Loads (request : PlanRequest) (chain : List String) : Prop :=
  match request.projection with
  | none => True
  | some (.exclusive _) => True
  | some (.inclusive paths) => ∃ path ∈ paths, chain <+: Path.segments path

/-- The attributes that a request chooses of the model at the end of a chain. -/
def choiceAt (request : PlanRequest) (model : Model) (chain : List String) :
    Option AttributeChoice :=
  match request.projection with
  | none => none
  | some (.inclusive paths) => AttributeChoice.ofNames .these (model.namedBy chain paths)
  | some (.exclusive paths) => AttributeChoice.ofNames .allBut (model.namedBy chain paths)

/-- What a request says of the node of a model at the end of a chain. Its children stand in the
order in which the model declares their associations, and it has no empty list of them. -/
structure Describes (request : PlanRequest) (model : Model) (chain : List String)
    (node : IncludeNode) : Prop where
  association_eq : node.association = chain.getLast?
  attributes_eq : node.attributes = request.choiceAt model chain
  duplicating_eq : node.duplicating = false
  children_eq : (node.children.getD []).map IncludeNode.association =
    (model.associations.filter fun a => (node.child? a.name).isSome).map fun a => some a.name
  children_ne : node.children ≠ some []

/-- What a request says of the whole tree of an entity with a model. -/
structure DescribesTree (request : PlanRequest) (catalog : Catalog) (root : Model)
    (tree : IncludeNode) : Prop where
  isSome_at?_iff : ∀ chain, chain ≠ [] → ((tree.at? chain).isSome = true ↔
    chain.length ≤ max request.depth 1 ∧ (catalog.follow? root chain).isSome = true ∧
      request.Loads chain)
  describes : ∀ chain node, tree.at? chain = some node →
    ∃ model, catalog.follow? root chain = some model ∧ request.Describes model chain node
  /-- The tree is as deep as its longest chain is long. -/
  depth_eq : (∀ chain, (tree.at? chain).isSome = true → chain.length ≤ tree.depth) ∧
    ∃ chain, (tree.at? chain).isSome = true ∧ chain.length = tree.depth

end PlanRequest

/-! ### Nodes and their children -/

namespace IncludeNode

theorem child?_mk_listed (association : Option String) (attributes : Option AttributeChoice)
    (children : List IncludeNode) (duplicating : Bool) (name : String) :
    (mk association attributes (listed children) duplicating).child? name =
      children.find? fun child => child.association == some name := by
  cases children <;> rfl

theorem getD_listed (children : List IncludeNode) : (listed children).getD [] = children := by
  cases children <;> rfl

theorem listed_ne (children : List IncludeNode) : listed children ≠ some [] := by
  cases children with
  | nil => exact Option.some_ne_none _ ∘ Eq.symm
  | cons child children => exact fun h => List.cons_ne_nil _ _ (Option.some.inj h)

theorem depth_le_depthOfEach {node : IncludeNode} {nodes : List IncludeNode} (h : node ∈ nodes) :
    node.depth ≤ depthOfEach nodes := by
  induction nodes with
  | nil => cases h
  | cons first nodes ih =>
    rw [depthOfEach]
    rcases List.mem_cons.1 h with rfl | h
    · exact Nat.le_max_left _ _
    · exact Nat.le_trans (ih h) (Nat.le_max_right _ _)

theorem exists_depth_eq {nodes : List IncludeNode} (h : nodes ≠ []) :
    ∃ node ∈ nodes, node.depth = depthOfEach nodes := by
  induction nodes with
  | nil => exact (h rfl).elim
  | cons first nodes ih =>
    rw [depthOfEach]
    rcases Nat.le_total (depthOfEach nodes) first.depth with hle | hle
    · exact ⟨first, List.mem_cons_self, (Nat.max_eq_left hle).symm⟩
    · rw [Nat.max_eq_right hle]
      cases nodes with
      | nil => exact ⟨first, List.mem_cons_self, Nat.le_antisymm hle (Nat.zero_le _)⟩
      | cons second nodes =>
        obtain ⟨node, hmem, hdepth⟩ := ih (List.cons_ne_nil _ _)
        exact ⟨node, List.mem_cons_of_mem _ hmem, hdepth⟩

theorem depth_child? {node child : IncludeNode} {name : String}
    (h : node.child? name = some child) : child.depth < node.depth := by
  obtain ⟨association, attributes, children, duplicating⟩ := node
  cases children with
  | none => cases h
  | some nodes =>
    rw [depth, Nat.add_comm]
    exact Nat.lt_succ_of_le (depth_le_depthOfEach (List.mem_of_find?_eq_some h))

/-- No chain is longer than the tree is deep. -/
theorem length_le_depth {node found : IncludeNode} {chain : List String}
    (h : node.at? chain = some found) : chain.length ≤ node.depth := by
  induction chain generalizing node with
  | nil => exact Nat.zero_le _
  | cons name chain ih =>
    obtain ⟨child, hchild, hfound⟩ := Option.bind_eq_some_iff.1 h
    exact Nat.lt_of_le_of_lt (ih hfound) (depth_child? hchild)

end IncludeNode

/-! ### One level of planning -/

namespace Catalog

/-- The associations of a model that are loaded with a number of levels left. -/
def loaded (exclusive : Bool) (paths : List String) (model : Model) : Nat → List Association
  | 0 => []
  | _ + 1 => model.associations.filter fun a => loads exclusive paths a.name

/-- The node is planned for a model from paths, with a number of levels left. -/
def Planned (catalog : Catalog) (exclusive : Bool) (levels : Nat) (association : Option String)
    (model : Model) (paths : List String) (node : IncludeNode) : Prop :=
  ∃ parent, catalog.planNode exclusive levels association model parent paths = .ok node

/-- The node that an association leads to, with a number of levels left for both. -/
def PlannedChild (catalog : Catalog) (exclusive : Bool) (levels : Nat) (paths : List String)
    (a : Association) (child : IncludeNode) : Prop :=
  ∃ target, catalog.get? a.target = some target ∧
    catalog.Planned exclusive (levels - 1) (some a.name) target
      (paths.filterMap (Path.behind? a.name)) child

variable {catalog : Catalog} {exclusive : Bool} {levels : Nat} {association : Option String}
  {model : Model} {paths : List String} {node : IncludeNode}

/-- Planning the node that an association leads to, with a number of levels left for both. -/
def planChild (catalog : Catalog) (exclusive : Bool) (levels : Nat) (parent : String)
    (paths : List String) (a : Association) : Except LookupError IncludeNode := do
  let target ← catalog.model a.target
  planNode catalog exclusive (levels - 1) (some a.name) target (Path.join parent a.name)
    (paths.filterMap (Path.behind? a.name))

theorem planNode_of_steps_error {parent : String} {e : LookupError}
    (hsteps : steps model parent paths = .error e) :
    catalog.planNode exclusive levels association model parent paths = .error e := by
  cases levels with
  | zero =>
    rw [planNode, hsteps]
    rfl
  | succ levels =>
    rw [planNode, hsteps]
    rfl

section Level

variable (hmodel : model.members.Nodup)
include hmodel

/-- When every path takes a step, a node is planned by planning the loaded associations. -/
theorem planNode_of_steps {parent : String}
    (hsteps : steps model parent paths = .ok (paths.filterMap (PathStep.ofPath? model))) :
    catalog.planNode exclusive levels association model parent paths =
      ((loaded exclusive paths model levels).mapM
        (catalog.planChild exclusive levels parent paths)).map fun children =>
          .mk association (AttributeChoice.ofNames (if exclusive then .allBut else .these)
            (model.namedBy [] paths)) (IncludeNode.listed children) false := by
  cases levels with
  | zero =>
    rw [planNode, hsteps, ← choice_eq]
    rfl
  | succ levels =>
    have hwanted : (model.associations.filter fun a => exclusive ||
        (paths.filterMap (PathStep.ofPath? model)).any (PathStep.follows a.name)) =
          loaded exclusive paths model (levels + 1) :=
      List.filter_congr fun a ha =>
        any_follows (model.isSome_association? ha) (Model.hasAttribute_of_mem hmodel ha) exclusive
    have hchildren : (loaded exclusive paths model (levels + 1)).mapM
          (catalog.planChild exclusive (levels + 1) parent paths) =
        (loaded exclusive paths model (levels + 1)).mapM (fun a => do
          let target ← catalog.model a.target
          planNode catalog exclusive levels (some a.name) target (Path.join parent a.name)
            ((paths.filterMap (PathStep.ofPath? model)).filterMap (PathStep.restAt? a.name))) :=
      mapM_congr fun a ha => by
        rw [filterMap_restAt? (model.isSome_association? (List.mem_of_mem_filter ha))]
        rfl
    rw [hchildren, ← hwanted, planNode, hsteps, ← choice_eq]
    exact (map_eq_pure_bind (m := Except LookupError) _ _).symm

variable (h : catalog.Planned exclusive levels association model paths node)
include h

/-- A planned node has the attributes that its paths name, and the loaded associations for
children. -/
theorem exists_children_of_planned :
    ∃ children,
      node = .mk association (AttributeChoice.ofNames (if exclusive then .allBut else .these)
        (model.namedBy [] paths)) (IncludeNode.listed children) false ∧
      List.Forall₂ (catalog.PlannedChild exclusive levels paths)
        (loaded exclusive paths model levels) children := by
  obtain ⟨parent, h⟩ := h
  rcases steps_cases model parent paths with ⟨hsteps, -⟩ | ⟨path, -, -, hsteps⟩
  · rw [planNode_of_steps hmodel hsteps] at h
    cases hchildren : (loaded exclusive paths model levels).mapM
        (catalog.planChild exclusive levels parent paths) with
    | error e =>
      rw [hchildren] at h
      cases h
    | ok children =>
      rw [hchildren] at h
      cases h
      refine ⟨children, rfl, forall₂_of_mapM hchildren fun a _ child hchild => ?_⟩
      obtain ⟨target, htarget, hchild⟩ := bind_eq_ok_iff.1 hchild
      exact ⟨target, model_eq_ok_iff.1 htarget, _, hchild⟩
  · rw [planNode_of_steps_error hsteps] at h
    cases h

theorem children_ne_of_planned : node.children ≠ some [] := by
  obtain ⟨children, rfl, -⟩ := exists_children_of_planned hmodel h
  exact IncludeNode.listed_ne children

end Level

/-! ### Children -/

theorem find?_loaded {name : String} :
    (loaded exclusive paths model levels).find? (fun a => a.name == name) =
      if 0 < levels ∧ loads exclusive paths name = true then model.association? name else none := by
  cases levels with
  | zero => rfl
  | succ levels =>
    rw [loaded, List.find?_filter, Model.association?]
    by_cases hloads : loads exclusive paths name = true
    · rw [if_pos ⟨levels.succ_pos, hloads⟩]
      congr 1
      funext a
      rw [Bool.eq_iff_iff, decide_eq_true_iff, beq_iff_eq]
      exact ⟨And.right, fun ha => ⟨ha ▸ hloads, ha⟩⟩
    · rw [if_neg fun h => hloads h.2, List.find?_eq_none]
      rintro a - ha
      rw [decide_eq_true_iff, beq_iff_eq] at ha
      exact hloads (ha.2 ▸ ha.1)

section Planned

variable (hcatalog : catalog.IsWellFormed)
  (hmodel : model.members.Nodup)
  (h : catalog.Planned exclusive levels association model paths node)
include hcatalog

theorem association_of_plannedChild {a : Association} {child : IncludeNode}
    (h : catalog.PlannedChild exclusive levels paths a child) : child.association = some a.name := by
  obtain ⟨target, htarget, hchild⟩ := h
  obtain ⟨children, rfl, -⟩ :=
    exists_children_of_planned (hcatalog.nodup_members _ target htarget) hchild
  rfl

include hmodel h

/-- A planned node has a child for every association that is loaded, which is planned in turn. -/
theorem child?_cases (name : String) :
    (node.child? name = none ∧ ¬(0 < levels ∧ loads exclusive paths name = true ∧
        (model.association? name).isSome = true)) ∨
      ∃ child target, node.child? name = some child ∧ 0 < levels ∧
        loads exclusive paths name = true ∧ catalog.next? model name = some target ∧
        target.members.Nodup ∧ catalog.Planned exclusive (levels - 1) (some name) target
          (paths.filterMap (Path.behind? name)) child := by
  obtain ⟨children, rfl, hchildren⟩ := exists_children_of_planned hmodel h
  rw [IncludeNode.child?_mk_listed]
  have hname (a : Association) (child : IncludeNode)
      (hchild : catalog.PlannedChild exclusive levels paths a child) :
      (child.association == some name) = (a.name == name) := by
    rw [association_of_plannedChild hcatalog hchild]
    rfl
  -- The children are searched as the loaded associations are.
  rcases find?_cases hchildren hname with ⟨hnone, hchild⟩ | ⟨a, child, ha, hchild, hplanned⟩
  · refine .inl ⟨hchild, fun ⟨hlevels, hloads, hassociation⟩ => ?_⟩
    rw [find?_loaded, if_pos ⟨hlevels, hloads⟩] at hnone
    rw [hnone] at hassociation
    cases hassociation
  · rw [find?_loaded] at ha
    split_ifs at ha with hloaded
    obtain rfl : a.name = name := model.name_of_association? ha
    obtain ⟨target, htarget, hplanned⟩ := hplanned
    refine .inr ⟨child, target, hchild, hloaded.1, hloaded.2, ?_,
      hcatalog.nodup_members _ target htarget, hplanned⟩
    rw [next?, ha]
    exact htarget

/-- The node at the end of a chain is planned from what is left of the paths behind it. -/
theorem planned_of_at? {chain : List String} {found : IncludeNode}
    (hat : node.at? chain = some found) :
    ∃ target, catalog.follow? model chain = some target ∧ target.members.Nodup ∧
      catalog.Planned exclusive (levels - chain.length) (chain.getLast?.or association) target
        (Path.behindAll chain paths) found := by
  induction chain generalizing levels association model paths node with
  | nil =>
    cases hat
    exact ⟨model, rfl, hmodel, h⟩
  | cons name chain ih =>
    rcases child?_cases hcatalog hmodel h name with
      ⟨hnone, -⟩ | ⟨child, target, hchild, -, -, hnext, htarget, hplanned⟩
    · rw [IncludeNode.at?, hnone] at hat
      cases hat
    · rw [IncludeNode.at?, hchild] at hat
      obtain ⟨last, hfollow, hlast, hfound⟩ := ih htarget hplanned hat
      -- The first association takes one level, and gives the child its name.
      have hlevels : levels - (name :: chain).length = levels - 1 - chain.length := by
        rw [List.length_cons]
        omega
      have hassociation : (name :: chain).getLast?.or association =
          chain.getLast?.or (some name) := by
        rw [List.getLast?_cons]
        cases chain.getLast? <;> rfl
      refine ⟨last, ?_, hlast, ?_⟩
      · rw [follow?, hnext]
        exact hfollow
      · rw [hlevels, hassociation]
        exact hfound

/-- There is a node at the end of a chain of associations if the chain is loaded and not too long.
-/
theorem isSome_at?_iff {chain : List String} (hchain : chain ≠ []) :
    (node.at? chain).isSome = true ↔ chain.length ≤ levels ∧
      (catalog.follow? model chain).isSome = true ∧ LoadsChain exclusive paths chain := by
  -- The empty chain, which always leads to a node, starts the induction.
  suffices hgeneral : (node.at? chain).isSome = true ↔ chain.length ≤ levels ∧
      (catalog.follow? model chain).isSome = true ∧
        (chain = [] ∨ LoadsChain exclusive paths chain) by
    rw [hgeneral, or_iff_right hchain]
  clear hchain
  induction chain generalizing levels association model paths node with
  | nil => simp [IncludeNode.at?, follow?]
  | cons name chain ih =>
    rw [IncludeNode.at?, follow?, or_iff_right (List.cons_ne_nil name chain), loadsChain_cons]
    rcases child?_cases hcatalog hmodel h name with
      ⟨hnone, hloads⟩ | ⟨child, target, hchild, hlevels, hloads, hnext, htarget, hplanned⟩
    · rw [hnone]
      refine iff_of_false Bool.false_ne_true fun ⟨hlength, hfollow, hname, _⟩ => hloads ?_
      have hassociation : (model.association? name).isSome = true := by
        cases ha : model.association? name with
        | none =>
          rw [next?, ha] at hfollow
          cases hfollow
        | some a => rfl
      exact ⟨Nat.lt_of_lt_of_le (Nat.succ_pos _) hlength, hname, hassociation⟩
    · rw [hchild, hnext, Option.bind_some, Option.bind_some, ih htarget hplanned, hloads,
        List.length_cons]
      have hlength : chain.length ≤ levels - 1 ↔ chain.length + 1 ≤ levels := by omega
      simp [hlength]

/-- The children of a planned node stand in the order of the associations. -/
theorem map_association_children :
    (node.children.getD []).map IncludeNode.association =
      (model.associations.filter fun a => (node.child? a.name).isSome).map
        fun a => some a.name := by
  have hcases := child?_cases hcatalog hmodel h
  obtain ⟨children, rfl, hchildren⟩ := exists_children_of_planned hmodel h
  have hnames : children.map IncludeNode.association =
      (loaded exclusive paths model levels).map fun a => some a.name :=
    map_eq_of_forall₂ hchildren fun _ _ => association_of_plannedChild hcatalog
  rw [IncludeNode.children, IncludeNode.getD_listed, hnames]
  congr 1
  cases levels with
  | zero =>
    refine (List.filter_eq_nil_iff.2 fun a _ hchild => ?_).symm
    rcases hcases a.name with ⟨hnone, -⟩ | ⟨_, _, -, hlevels, -⟩
    · rw [hnone] at hchild
      cases hchild
    · exact Nat.lt_irrefl 0 hlevels
  | succ levels =>
    refine List.filter_congr fun a ha => ?_
    rcases hcases a.name with ⟨hnone, hloads⟩ | ⟨child, _, hchild, -, hloads, -⟩
    · rw [hnone, Bool.eq_false_iff.2 fun hname =>
        hloads ⟨levels.succ_pos, hname, model.isSome_association? ha⟩]
      rfl
    · rw [hchild, hloads]
      rfl

/-- Every child of a planned node is the one for its association. -/
theorem exists_child?_eq {children : List IncludeNode} (hchildren : node.children = some children)
    {child : IncludeNode} (hchild : child ∈ children) : ∃ name, node.child? name = some child := by
  have hnames := map_association_children hcatalog hmodel h
  rw [hchildren, Option.getD_some] at hnames
  have hnodup : (children.map IncludeNode.association).Nodup := by
    obtain ⟨-, hassociations, -⟩ := List.nodup_append.1 hmodel
    have hsome : ((model.associations.map Association.name).map some).Nodup :=
      List.Pairwise.map some (fun _ _ hne he => hne (Option.some.inj he)) hassociations
    rw [List.map_map] at hsome
    rw [hnames]
    exact hsome.sublist (List.filter_sublist.map _)
  have hmem : child.association ∈ children.map IncludeNode.association :=
    List.mem_map_of_mem hchild
  rw [hnames, List.mem_map] at hmem
  obtain ⟨a, -, ha⟩ := hmem
  refine ⟨a.name, ?_⟩
  rw [IncludeNode.child?, hchildren, Option.bind_some, ha]
  exact find?_eq_some_of_nodup hnodup hchild

/-- Some chain is as long as a planned tree is deep. -/
theorem exists_length_eq_depth :
    ∃ chain, (node.at? chain).isSome = true ∧ chain.length = node.depth := by
  -- The induction is on the levels left, which are fewer for every child.
  induction levels using Nat.strongRecOn generalizing association model paths node with
  | ind levels ih =>
    cases hchildren : node.children with
    | none =>
      refine ⟨[], rfl, ?_⟩
      cases node
      cases hchildren
      rfl
    | some children =>
      have hne : children ≠ [] := fun hnil => children_ne_of_planned hmodel h (hnil ▸ hchildren)
      obtain ⟨deepest, hmem, hdepth⟩ := IncludeNode.exists_depth_eq hne
      obtain ⟨name, hname⟩ := exists_child?_eq hcatalog hmodel h hchildren hmem
      rcases child?_cases hcatalog hmodel h name with
        ⟨hnone, -⟩ | ⟨child, target, hchild, hlevels, -, -, htarget, hplanned⟩
      · rw [hname] at hnone
        cases hnone
      · obtain rfl : deepest = child := Option.some.inj (hname.symm.trans hchild)
        have hlt : levels - 1 < levels := Nat.sub_lt hlevels Nat.one_pos
        obtain ⟨chain, hat, hlength⟩ := ih (levels - 1) hlt htarget hplanned
        refine ⟨name :: chain, ?_, ?_⟩
        · rw [IncludeNode.at?, hname]
          exact hat
        · rw [List.length_cons, hlength, hdepth]
          cases node
          cases hchildren
          exact Nat.add_comm _ _

end Planned

end Catalog

/-! ### Requests -/

namespace PlanRequest

variable (request : PlanRequest)

/-- Whether a request loads every association. -/
def loadsAll : Bool := (request.projection.map PlanProjection.isExclusive).getD true

/-- The paths that a request names. -/
def paths : List String := (request.projection.map PlanProjection.paths).getD []

theorem loads_iff {chain : List String} :
    request.Loads chain ↔ Catalog.LoadsChain request.loadsAll request.paths chain := by
  obtain ⟨projection, depth⟩ := request
  rcases projection with _ | paths | paths
  · exact iff_of_true trivial (.inl rfl)
  · exact (or_iff_right Bool.false_ne_true).symm
  · exact iff_of_true trivial (.inl rfl)

theorem choiceAt_eq (model : Model) (chain : List String) :
    request.choiceAt model chain =
      AttributeChoice.ofNames (if request.loadsAll then .allBut else .these)
        (model.namedBy chain request.paths) := by
  obtain ⟨projection, depth⟩ := request
  rcases projection with _ | paths | paths <;> rfl

end PlanRequest

namespace Catalog

theorem planned_of_plan {catalog : Catalog} {entity : String} {root : Model}
    (hroot : catalog.get? entity = some root) {request : PlanRequest} {tree : IncludeNode}
    (h : catalog.plan entity request = .ok tree) :
    catalog.Planned request.loadsAll (max request.depth 1) none root request.paths tree := by
  obtain ⟨model, hmodel, htree⟩ := bind_eq_ok_iff.1 h
  obtain rfl : root = model := Option.some.inj (hroot.symm.trans (model_eq_ok_iff.1 hmodel))
  exact ⟨"", htree⟩

/-- The planned tree of an entity of an accepted catalog is the one that the request describes. -/
theorem plan_describes {models : List Model} {catalog : Catalog}
    (hcatalog : ofModels models = .ok catalog) {entity : String} {root : Model}
    (hroot : catalog.get? entity = some root) {request : PlanRequest} {tree : IncludeNode}
    (h : catalog.plan entity request = .ok tree) : request.DescribesTree catalog root tree := by
  have hmodels := isWellFormed_of_ofModels hcatalog
  have hmembers := hmodels.nodup_members entity root hroot
  have hplanned := planned_of_plan hroot h
  constructor
  · intro chain hchain
    rw [request.loads_iff]
    exact isSome_at?_iff hmodels hmembers hplanned hchain
  · intro chain node hat
    obtain ⟨model, hfollow, hmodel, hnode⟩ := planned_of_at? hmodels hmembers hplanned hat
    obtain ⟨children, hmk, -⟩ := exists_children_of_planned hmodel hnode
    refine ⟨model, hfollow, ?_, ?_, ?_, map_association_children hmodels hmodel hnode,
      children_ne_of_planned hmodel hnode⟩
    · rw [hmk]
      exact Option.or_none
    · rw [hmk, request.choiceAt_eq, ← model.namedBy_behindAll chain]
      rfl
    · rw [hmk]
      rfl
  · constructor
    · intro chain hat
      obtain ⟨found, hfound⟩ := Option.isSome_iff_exists.1 hat
      exact IncludeNode.length_le_depth hfound
    · exact exists_length_eq_depth hmodels hmembers hplanned

/-- People and firms that lead to each other, planned two levels deep. -/
theorem plan_describes_of_staff :
    let person : Model := ⟨"Person", ["name", "age"], [⟨"employer", "Firm"⟩, ⟨"boss", "Person"⟩]⟩
    let firm : Model := ⟨"Firm", ["name"], [⟨"staff", "Person"⟩]⟩
    let catalog : Catalog := ⟨[("Firm", firm), ("Person", person)], ["Person", "Firm"]⟩
    let request : PlanRequest :=
      ⟨some (.inclusive ["name", "employer.staff.age", "employer.name", "name"]), 2⟩
    ofModels [person, firm] = .ok catalog ∧ catalog.get? "Person" = some person ∧
      ∃ tree, catalog.plan "Person" request = .ok tree ∧
        request.DescribesTree catalog person tree := by
  intro person firm catalog request
  have hcatalog : ofModels [person, firm] = .ok catalog := by decide +kernel
  have hroot : catalog.get? "Person" = some person := by decide +kernel
  have hplan : (catalog.plan "Person" request).isOk = true := by decide +kernel
  cases htree : catalog.plan "Person" request with
  | error e =>
    rw [htree] at hplan
    cases hplan
  | ok tree => exact ⟨hcatalog, hroot, tree, rfl, plan_describes hcatalog hroot htree⟩

end Catalog

end RecordGuard
