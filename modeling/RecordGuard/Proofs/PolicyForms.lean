import RecordGuard.Proofs.RuleForms

/-!
# Policies as they are written

A policy holds its roles, and a role its rules, without an order, so that the members of what a
policy is written as may stand in any (`Policy.Writes`). Only the entries of a mask keep theirs.
Whatever the order of the rest, the text is read as the policy itself (`Policy.read_of_writes`),
mask by mask and filter by filter. A policy in which some rule computes its filter is not written
at all (`Policy.toValue_eq_error_iff`).

A policy that has been built or read is well formed (`Policy.isWellFormed_withRole`,
`Policy.isWellFormed_of_read`).
-/

namespace RecordGuard

open Json (Value Tree)

/-! ### Listings -/

/-- The list has each key that has a value once, with this value, in some order. -/
structure Lists {κ α : Type} (listed : List (κ × α)) (get : κ → Option α) : Prop where
  nodup : (listed.map Prod.fst).Nodup
  mem_iff : ∀ key a, (key, a) ∈ listed ↔ get key = some a

theorem Entries.Ordered.lists {α : Type} {entries : Entries α} (h : Entries.Ordered entries) :
    Lists entries (Entries.get? entries) :=
  ⟨h.nodup_keys, fun _ _ => h.mem_iff⟩

theorem Lists.get?_eq {α : Type} {pairs : Entries α} {get : String → Option α}
    (h : Lists pairs get) (key : String) : Entries.get? pairs key = get key := by
  refine Option.ext fun a => ?_
  rw [← h.mem_iff]
  exact ⟨Entries.mem_of_get?, Entries.get?_of_mem h.nodup⟩

/-- A listing of an ordered list is put in order again. -/
theorem Lists.ofList_eq {α : Type} {pairs entries : Entries α}
    (h : Lists pairs (Entries.get? entries)) (ho : Entries.Ordered entries) :
    Entries.ofList pairs = entries :=
  (Entries.ordered_ofList pairs).ext ho fun key =>
    (Entries.get?_ofList h.nodup key).trans (h.get?_eq key)

/-! ### Rules of a role -/

namespace RoleRules

/-- The rules are written as the value: a member for each of them, under the name of its action, in
some order. -/
def Writes (rules : RoleRules) (v : Value) : Prop :=
  ∃ (listed : List (Action × Rule)) (members : List (String × Value)),
    Lists listed rules.rule? ∧
    List.Forall₂ (fun rule member => member.1 = rule.1.name ∧ rule.2.toValue = .ok member.2)
      listed members ∧
    v = .object members

theorem ext_rule? {rules others : RoleRules}
    (h : ∀ action, rules.rule? action = others.rule? action) : rules = others := by
  obtain ⟨create, read, update, delete⟩ := rules
  obtain rfl := h .create
  obtain rfl := h .read
  obtain rfl := h .update
  obtain rfl := h .delete
  rfl

theorem rule?_set (rules : RoleRules) (action other : Action) (rule : Rule) :
    (rules.set action rule).rule? other =
      if action = other then some rule else rules.rule? other := by
  cases action <;> cases other <;> rfl

theorem rule?_foldl_set_of_not_mem {listed : List (Action × Rule)} {action : Action}
    (h : action ∉ listed.map Prod.fst) (rules : RoleRules) :
    (listed.foldl (fun rules rule => rules.set rule.1 rule.2) rules).rule? action =
      rules.rule? action := by
  induction listed generalizing rules with
  | nil => rfl
  | cons rule listed ih =>
    rw [List.map_cons, List.mem_cons, not_or] at h
    rw [List.foldl_cons, ih h.2, rule?_set, if_neg (Ne.symm h.1)]

theorem rule?_foldl_set_of_mem {listed : List (Action × Rule)} (hn : (listed.map Prod.fst).Nodup)
    {action : Action} {rule : Rule} (hm : (action, rule) ∈ listed) (rules : RoleRules) :
    (listed.foldl (fun rules rule => rules.set rule.1 rule.2) rules).rule? action = some rule := by
  induction listed generalizing rules with
  | nil => cases hm
  | cons first listed ih =>
    obtain ⟨hfirst, hrest⟩ := List.nodup_cons.1 hn
    rw [List.foldl_cons]
    rcases List.mem_cons.1 hm with rfl | hm
    · rw [rule?_foldl_set_of_not_mem hfirst, rule?_set, if_pos rfl]
    · exact ih hrest hm _

theorem mem_of_rule?_foldl_set {listed : List (Action × Rule)} {rules : RoleRules}
    {action : Action} {rule : Rule}
    (h : (listed.foldl (fun rules rule => rules.set rule.1 rule.2) rules).rule? action =
      some rule) :
    (action, rule) ∈ listed ∨ rules.rule? action = some rule := by
  induction listed generalizing rules with
  | nil => exact .inr h
  | cons first listed ih =>
    obtain ⟨other, found⟩ := first
    rw [List.foldl_cons] at h
    rcases ih h with hm | hset
    · exact .inl (List.mem_cons_of_mem _ hm)
    · rw [rule?_set] at hset
      split_ifs at hset with heq
      · subst heq
        cases hset
        exact .inl List.mem_cons_self
      · exact .inr hset

theorem isWellFormed_of_ofTree? {t : Tree} {rules : RoleRules} (h : ofTree? t = some rules)
    (action : Action) : ∀ rule ∈ rules.rule? action, rule.IsWellFormed := by
  intro rule hrule
  cases t with
  | object members =>
    obtain ⟨listed, hlisted, heq⟩ := Option.bind_eq_some_iff.1 h
    cases heq
    rcases mem_of_rule?_foldl_set hrule with hm | hempty
    · obtain ⟨member, -, hread⟩ := exists_of_mem_mapM hlisted hm
      obtain ⟨_, -, hread⟩ := Option.bind_eq_some_iff.1 hread
      obtain ⟨found, hfound, heq⟩ := Option.bind_eq_some_iff.1 hread
      cases heq
      exact Rule.isWellFormed_of_ofTree? hfound
    · cases action <;> cases hempty
  | _ => cases h

/-- The rules that a list has, set one after the other. -/
theorem foldl_set_of_lists {listed : List (Action × Rule)} {rules : RoleRules}
    (h : Lists listed rules.rule?) :
    listed.foldl (fun rules rule => rules.set rule.1 rule.2) empty = rules := by
  refine ext_rule? fun action => ?_
  cases hrule : rules.rule? action with
  | some rule => exact rule?_foldl_set_of_mem h.nodup ((h.mem_iff action rule).2 hrule) empty
  | none =>
    refine (rule?_foldl_set_of_not_mem (fun hm => ?_) empty).trans (by cases action <;> rfl)
    obtain ⟨⟨_, rule⟩, hrules, rfl⟩ := List.mem_map.1 hm
    rw [(h.mem_iff _ rule).1 hrules] at hrule
    cases hrule

/-- In whatever order the rules are written, they are read as they are. -/
theorem ofTree?_of_writes {rules : RoleRules}
    (hw : ∀ action, ∀ rule ∈ rules.rule? action, rule.IsWellFormed) {v : Value}
    (h : rules.Writes v) : ofTree? (Tree.ofValue v) = some rules := by
  obtain ⟨listed, members, hlists, hmembers, rfl⟩ := h
  have hlisted : ∀ rule ∈ listed, rule.2.IsWellFormed := fun rule hm =>
    hw rule.1 rule.2 ((hlists.mem_iff _ _).1 hm)
  have hread : (Tree.ofMembers members).mapM (fun member => do
      return (← Action.ofName? member.1, ← Rule.ofTree? member.2)) = some listed := by
    refine mapM_ofMembers (((List.forall₂_and_left listed members).2 ⟨hlisted, hmembers⟩).imp ?_)
    rintro ⟨action, rule⟩ ⟨name, value⟩ ⟨hrule, rfl, hvalue⟩
    rw [Action.ofName?_name, Rule.ofTree?_of_toValue hrule hvalue]
    rfl
  rw [Tree.ofValue, ofTree?, hread]
  exact congrArg some (foldl_set_of_lists hlists)

theorem isLegible_of_writes {rules : RoleRules}
    (hl : ∀ action, ∀ rule ∈ rules.rule? action, ∀ w ∈ rule.literals, w.IsLegible) {v : Value}
    (h : rules.Writes v) : v.IsLegible := by
  obtain ⟨listed, members, hlists, hmembers, rfl⟩ := h
  refine Value.isLegible_object_iff.2 fun member hm => ?_
  obtain ⟨rule, hrule, -, hvalue⟩ := exists_left_of_forall₂ hmembers hm
  exact Rule.isLegible_of_toValue (hl rule.1 rule.2 ((hlists.mem_iff _ _).1 hrule)) hvalue

/-- The rules of a role are written unless one of them is computed. -/
theorem not_isComputed_of_writes {rules : RoleRules} {v : Value} (h : rules.Writes v)
    {action : Action} {rule : Rule} (hrule : rules.rule? action = some rule) :
    ¬ rule.IsComputed := by
  obtain ⟨listed, members, hlists, hmembers, -⟩ := h
  obtain ⟨member, -, -, hvalue⟩ := exists_right_of_forall₂ hmembers ((hlists.mem_iff _ _).2 hrule)
  intro hcomputed
  rw [Rule.toValue_of_isComputed hcomputed] at hvalue
  cases hvalue

/-- The actions that have a rule, each with its rule. -/
def toList (rules : RoleRules) : List (Action × Rule) :=
  Action.all.filterMap fun action => (rules.rule? action).map (action, ·)

theorem lists_toList (rules : RoleRules) : Lists rules.toList rules.rule? where
  nodup := by
    rw [toList, List.map_filterMap]
    refine List.Nodup.filterMap (fun action other name h ho => ?_) (by decide)
    simp only [Option.map_map, Option.mem_def, Option.map_eq_some_iff, Function.comp_apply] at h ho
    obtain ⟨_, -, rfl⟩ := h
    obtain ⟨_, -, rfl⟩ := ho
    rfl
  mem_iff action rule := by
    rw [toList, List.mem_filterMap]
    constructor
    · rintro ⟨other, -, h⟩
      obtain ⟨found, hfound, heq⟩ := Option.map_eq_some_iff.1 h
      cases heq
      exact hfound
    · intro h
      exact ⟨action, by cases action <;> decide, by rw [h]; rfl⟩

theorem writes_of_toValue {rules : RoleRules} {v : Value} (h : rules.toValue = .ok v) :
    rules.Writes v := by
  obtain ⟨parts, hparts, hv⟩ := bind_eq_ok_iff.1 h
  cases hv
  refine ⟨rules.toList, parts.flatten, rules.lists_toList, ?_, rfl⟩
  rw [toList, List.filterMap_eq_flatMap_toList, List.flatMap_def]
  refine List.rel_flatten (List.forall₂_map_left_iff.2 (forall₂_of_mapM hparts ?_))
  intro action _ part hpart
  cases hrule : rules.rule? action with
  | none =>
    rw [hrule] at hpart
    cases hpart
    exact .nil
  | some rule =>
    rw [hrule] at hpart
    obtain ⟨value, hvalue, hpart⟩ := bind_eq_ok_iff.1 hpart
    cases hpart
    exact .cons ⟨rfl, hvalue⟩ .nil

/-- The rules of a role can be written if none of them is computed. -/
theorem exists_toValue {rules : RoleRules}
    (h : ∀ action, ∀ rule ∈ rules.rule? action, ¬ rule.IsComputed) :
    ∃ v, rules.toValue = .ok v := by
  refine (exists_mapM_eq_ok fun action _ => ?_).elim fun parts hparts =>
    ⟨.object parts.flatten, bind_eq_ok_iff.2 ⟨parts, hparts, rfl⟩⟩
  cases hrule : rules.rule? action with
  | none => exact ⟨[], rfl⟩
  | some rule =>
    obtain ⟨value, hvalue⟩ := Rule.exists_toValue (h action rule hrule)
    exact ⟨[(action.name, value)], bind_eq_ok_iff.2 ⟨value, hvalue, rfl⟩⟩

end RoleRules

/-! ### Policies -/

namespace Policy

/-- The policy is written as the value: a member for each role under its name, in some order, and in
it the rules of the role in some order. -/
def Writes (policy : Policy) (v : Value) : Prop :=
  ∃ (listed : Entries RoleRules) (members : List (String × Value)),
    Lists listed (Entries.get? policy.roles) ∧
    List.Forall₂ (fun role member => member.1 = role.1 ∧ role.2.Writes member.2) listed members ∧
    v = .object members

/-- Some rule computes its filter. -/
def HasComputedRows (policy : Policy) : Prop :=
  ∃ role action, ∃ rule ∈ policy.rule? role action, rule.IsComputed

/-- The roles stand in order, and every rule is well formed. -/
structure IsWellFormed (policy : Policy) : Prop where
  ordered : Entries.Ordered policy.roles
  rules : ∀ role action, ∀ rule ∈ policy.rule? role action, rule.IsWellFormed

/-- The literals of every rule are legible. -/
def HasLegibleLiterals (policy : Policy) : Prop :=
  ∀ role action, ∀ rule ∈ policy.rule? role action, ∀ v ∈ rule.literals, v.IsLegible

theorem rule?_of_get? {policy : Policy} {role : String} {rules : RoleRules}
    (h : Entries.get? policy.roles role = some rules) (action : Action) :
    policy.rule? role action = rules.rule? action := by
  rw [rule?, h, Option.bind_some]

/-! ### Well-formed policies -/

theorem isWellFormed_empty : empty.IsWellFormed :=
  ⟨Entries.ordered_nil, fun _ _ _ hrule => by cases hrule⟩

theorem rule?_withRole (policy : Policy) (role other : String) (rules : RoleRules)
    (action : Action) :
    (policy.withRole role rules).rule? other action =
      if role = other then rules.rule? action else policy.rule? other action := by
  rw [rule?, withRole, Entries.get?_insert]
  split_ifs <;> rfl

theorem isWellFormed_withRole {policy : Policy} (h : policy.IsWellFormed) (role : String)
    {rules : RoleRules} (hr : ∀ action, ∀ rule ∈ rules.rule? action, rule.IsWellFormed) :
    (policy.withRole role rules).IsWellFormed := by
  refine ⟨Entries.ordered_insert h.ordered role rules, fun other action rule hrule => ?_⟩
  rw [rule?_withRole] at hrule
  split_ifs at hrule
  · exact hr action rule hrule
  · exact h.rules other action rule hrule

theorem isWellFormed_of_read {text : String} {policy : Policy} (h : read text = .ok policy) :
    policy.IsWellFormed := by
  have hread : ((Tree.read? text).bind ofTree?) = some policy := by
    unfold read at h
    split at h
    · rename_i found hfound
      cases h
      exact hfound
    · cases h
  obtain ⟨t, -, ht⟩ := Option.bind_eq_some_iff.1 hread
  obtain ⟨roles, hroles, rfl⟩ := Option.map_eq_some_iff.1 ht
  cases t with
  | object members =>
    obtain ⟨listed, hlisted, rfl⟩ := Option.map_eq_some_iff.1 hroles
    refine ⟨Entries.ordered_ofList listed, fun role action rule hrule => ?_⟩
    obtain ⟨rules, hrules, hmember⟩ := Option.bind_eq_some_iff.1 hrule
    obtain ⟨member, -, hread⟩ :=
      exists_of_mem_mapM hlisted (Entries.mem_ofList (Entries.mem_of_get? hrules))
    obtain ⟨found, hfound, heq⟩ := Option.map_eq_some_iff.1 hread
    cases heq
    exact RoleRules.isWellFormed_of_ofTree? hfound action rule hmember
  | _ => cases hroles

/-! ### Writing and reading -/

/-- In whatever order a policy is written, it is read as it is. -/
theorem ofTree?_of_writes {policy : Policy} (hw : policy.IsWellFormed) {v : Value}
    (h : policy.Writes v) : ofTree? (Tree.ofValue v) = some policy := by
  obtain ⟨listed, members, hlists, hmembers, rfl⟩ := h
  have hlisted : ∀ role ∈ listed, ∀ action, ∀ rule ∈ role.2.rule? action, rule.IsWellFormed := by
    intro role hm action rule hrule
    refine hw.rules role.1 action rule ?_
    rwa [rule?_of_get? ((hlists.mem_iff _ _).1 hm)]
  have hread : (Tree.ofMembers members).mapM (fun member =>
      (RoleRules.ofTree? member.2).map (member.1, ·)) = some listed := by
    refine mapM_ofMembers (((List.forall₂_and_left listed members).2 ⟨hlisted, hmembers⟩).imp ?_)
    rintro ⟨role, rules⟩ ⟨name, value⟩ ⟨hrules, rfl, hvalue⟩
    rw [RoleRules.ofTree?_of_writes hrules hvalue]
    rfl
  rw [Tree.ofValue, ofTree?, Tree.entries?, hread]
  show some (Policy.mk (Entries.ofList listed)) = some policy
  rw [hlists.ofList_eq hw.ordered]

theorem isLegible_of_writes {policy : Policy} (hl : policy.HasLegibleLiterals) {v : Value}
    (h : policy.Writes v) : v.IsLegible := by
  obtain ⟨listed, members, hlists, hmembers, rfl⟩ := h
  refine Value.isLegible_object_iff.2 fun member hm => ?_
  obtain ⟨role, hrole, -, hvalue⟩ := exists_left_of_forall₂ hmembers hm
  refine RoleRules.isLegible_of_writes (fun action rule hrule => ?_) hvalue
  refine hl role.1 action rule ?_
  rwa [rule?_of_get? ((hlists.mem_iff _ _).1 hrole)]

/-- The text of a policy is read as the policy, in whatever order it was written. -/
theorem read_of_writes {policy : Policy} (hw : policy.IsWellFormed) (hl : policy.HasLegibleLiterals)
    {v : Value} (h : policy.Writes v) (hdepth : v.nesting ≤ Json.Reader.maxDepth) :
    read v.compact = .ok policy := by
  rw [read, Tree.read?_compact (isLegible_of_writes hl h) hdepth, Option.bind_some,
    ofTree?_of_writes hw h]

theorem not_writes {policy : Policy} (h : policy.HasComputedRows) (v : Value) :
    ¬ policy.Writes v := by
  rintro ⟨listed, members, hlists, hmembers, -⟩
  obtain ⟨role, action, rule, hrule, hcomputed⟩ := h
  obtain ⟨rules, hrules, hrule⟩ := Option.bind_eq_some_iff.1 hrule
  obtain ⟨member, -, -, hvalue⟩ := exists_right_of_forall₂ hmembers ((hlists.mem_iff _ _).2 hrules)
  exact RoleRules.not_isComputed_of_writes hvalue hrule hcomputed

theorem writes_of_toValue {policy : Policy} (ho : Entries.Ordered policy.roles) {v : Value}
    (h : policy.toValue = .ok v) : policy.Writes v := by
  obtain ⟨members, hmembers, hv⟩ := bind_eq_ok_iff.1 h
  cases hv
  refine ⟨policy.roles, members, ho.lists, forall₂_of_mapM hmembers ?_, rfl⟩
  rintro ⟨role, rules⟩ - member hmember
  obtain ⟨value, hvalue, heq⟩ := bind_eq_ok_iff.1 hmember
  cases heq
  exact ⟨rfl, RoleRules.writes_of_toValue hvalue⟩

theorem exists_toValue {policy : Policy} (ho : Entries.Ordered policy.roles)
    (h : ¬ policy.HasComputedRows) : ∃ v, policy.toValue = .ok v := by
  refine (exists_mapM_eq_ok fun entry hm => ?_).elim fun members hmembers =>
    ⟨.object members, bind_eq_ok_iff.2 ⟨members, hmembers, rfl⟩⟩
  obtain ⟨role, rules⟩ := entry
  have hrules : ∀ action, ∀ rule ∈ rules.rule? action, ¬ rule.IsComputed :=
    fun action rule hrule hcomputed =>
      h ⟨role, action, rule, by rwa [rule?_of_get? (ho.get?_of_mem hm)], hcomputed⟩
  obtain ⟨value, hvalue⟩ := RoleRules.exists_toValue hrules
  exact ⟨(role, value), bind_eq_ok_iff.2 ⟨value, hvalue, rfl⟩⟩

/-- A policy is not written exactly if some rule computes its filter. -/
theorem toValue_eq_error_iff {policy : Policy} (ho : Entries.Ordered policy.roles) :
    policy.toValue = .error .computedRows ↔ policy.HasComputedRows := by
  constructor
  · intro h
    by_contra hc
    obtain ⟨v, hv⟩ := exists_toValue ho hc
    rw [hv] at h
    cases h
  · intro hc
    cases h : policy.toValue with
    | error e => cases e; rfl
    | ok v => exact absurd (writes_of_toValue ho h) (not_writes hc v)

end Policy

/-- Filters, templates and policies come back from their JSON text. A policy comes back with the
same rule for every role and action, and the entries of every mask in their order, whatever the
order in which its roles and their actions were written; it is the same policy, and so decides alike
about every caller. One that computes a filter is not written at all.

Literals are documents, and policies well formed, however they come about; of the text it is asked
that the numbers in it are legible and that it is not nested too deep. -/
theorem read_of_written :
    (∀ f : Filter, (∀ v ∈ f.literals, v.IsCanonical ∧ v.IsLegible) →
      f.toValue.nesting ≤ Json.Reader.maxDepth → Filter.read? f.toValue.compact = some f) ∧
    (∀ t : Template, (∀ v ∈ t.literals, v.IsCanonical ∧ v.IsLegible) →
      t.toValue.nesting ≤ Json.Reader.maxDepth →
        (Tree.read? t.toValue.compact).bind Template.ofTree? = some t) ∧
    ∀ policy : Policy, policy.IsWellFormed →
      (policy.HasComputedRows →
        policy.toValue = .error .computedRows ∧ ∀ v, ¬ policy.Writes v) ∧
      (¬ policy.HasComputedRows →
        (∃ v, policy.toValue = .ok v ∧ policy.Writes v) ∧
        ∀ v, policy.Writes v → policy.HasLegibleLiterals →
          v.nesting ≤ Json.Reader.maxDepth → Policy.read v.compact = .ok policy) := by
  refine ⟨fun f hf hdepth => ?_, fun t ht hdepth => ?_,
    fun policy hw => ⟨fun hc => ?_, fun hc => ?_⟩⟩
  · exact Filter.read?_compact (fun v hv => (hf v hv).1) (fun v hv => (hf v hv).2) hdepth
  · exact Template.ofTree?_read?_compact (fun v hv => (ht v hv).1) (fun v hv => (ht v hv).2) hdepth
  · exact ⟨(Policy.toValue_eq_error_iff hw.ordered).2 hc, Policy.not_writes hc⟩
  · obtain ⟨v, hv⟩ := Policy.exists_toValue hw.ordered hc
    exact ⟨⟨v, hv, Policy.writes_of_toValue hw.ordered hv⟩,
      fun w hwrites hl hdepth => Policy.read_of_writes hw hl hwrites hdepth⟩

/-- A policy of editors, who see the adults without their salary, and one that computes a filter. -/
theorem read_of_written_of_editors :
    let adults : Filter :=
      .any [.field "age" (.compare .ge (.integer 18)), .field "group" (.oneOf [.string "staff"])]
    let own : Template := .all [.standard adults, .attributeEq "owner" "id"]
    let mask : Mask := ⟨[("salary", false), ("name", true)]⟩
    let rules : RoleRules := ⟨none, some (.scoped ⟨some (.template own), some (.mask mask)⟩),
      some (.scoped ⟨none, some (.compact "-age")⟩), some (.flag false)⟩
    let editors := Policy.empty.withRole "editor" rules
    let owners := Policy.empty.withRole "owner"
      ⟨none, some (.scoped ⟨some (.computed fun _ => adults), none⟩), none, none⟩
    Filter.read? adults.toValue.compact = some adults ∧
      (Tree.read? own.toValue.compact).bind Template.ofTree? = some own ∧
      (∃ v, editors.toValue = .ok v ∧ Policy.read v.compact = .ok editors) ∧
      owners.toValue = .error .computedRows := by
  intro adults own mask rules editors owners
  obtain ⟨hfilter, htemplate, hpolicy⟩ := read_of_written
  have hliterals : ∀ v ∈ [Value.integer 18, .string "staff"], v.IsCanonical ∧ v.IsLegible := by
    intro v hv
    rcases List.mem_cons.1 hv with rfl | hv
    · exact ⟨trivial, fun n hn => by
        rw [List.mem_singleton.1 hn]
        exact Json.Number.isLegible_integer rfl⟩
    · rw [List.mem_singleton.1 hv]
      exact ⟨trivial, fun n hn => (List.not_mem_nil hn).elim⟩
  have hrules : ∀ action, ∀ rule ∈ rules.rule? action, rule.IsWellFormed ∧
      (∀ v ∈ rule.literals, v.IsLegible) ∧ ¬ rule.IsComputed := by
    intro action rule hrule
    cases action with
    | create => cases hrule
    | read =>
      cases hrule
      have hmask : ∀ p ∈ some (Projection.mask mask), p.IsWellFormed := fun p hp => by
        cases hp
        show mask.HasDistinctPaths
        decide
      exact ⟨⟨hmask, fun v hv => (hliterals v hv).1⟩, fun v hv => (hliterals v hv).2,
        fun ⟨_, h⟩ => (by cases h)⟩
    | update =>
      cases hrule
      exact ⟨⟨fun _ h => (by cases h; trivial), fun v hv => (List.not_mem_nil hv).elim⟩,
        fun v hv => (List.not_mem_nil hv).elim, fun ⟨_, h⟩ => (by cases h)⟩
    | delete =>
      cases hrule
      exact ⟨trivial, fun v hv => (List.not_mem_nil hv).elim, id⟩
  have heditors : ∀ role action, ∀ rule ∈ editors.rule? role action, rule.IsWellFormed ∧
      (∀ v ∈ rule.literals, v.IsLegible) ∧ ¬ rule.IsComputed := by
    intro role action rule hrule
    rw [Policy.rule?_withRole] at hrule
    split_ifs at hrule
    · exact hrules action rule hrule
    · cases hrule
  have hwell : editors.IsWellFormed :=
    Policy.isWellFormed_withRole Policy.isWellFormed_empty "editor" fun action rule hrule =>
      (hrules action rule hrule).1
  have howners : owners.IsWellFormed := by
    refine Policy.isWellFormed_withRole Policy.isWellFormed_empty "owner" ?_
    intro action rule hrule
    cases action with
    | read =>
      cases hrule
      exact ⟨fun _ h => (by cases h), fun v hv => (List.not_mem_nil hv).elim⟩
    | _ => cases hrule
  refine ⟨hfilter adults hliterals (by decide), htemplate own hliterals (by decide), ?_, ?_⟩
  · obtain ⟨⟨v, hv, hwrites⟩, hread⟩ := (hpolicy editors hwell).2
      fun ⟨role, action, rule, hrule, hc⟩ => (heditors role action rule hrule).2.2 hc
    refine ⟨v, hv, hread v hwrites (fun role action rule hrule =>
      (heditors role action rule hrule).2.1) ?_⟩
    cases hv
    decide
  · exact ((hpolicy owners howners).1 ⟨"owner", .read, _, rfl, _, rfl⟩).1

end RecordGuard
