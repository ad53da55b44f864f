import RecordGuard.Policy.Basic
import RecordGuard.Proofs.FilterForms
import RecordGuard.Proofs.Masks

/-!
# Rules as they are written

A mask is written with its entries in their order, and read with them in the order in which they
stand (`Mask.ofTree?_toValue`). The two forms of a projection, and a flag and a scope, are told
apart by the kind of value they are written as, so that none is read as the other
(`Projection.ofTree?_toValue`, `Rule.ofTree?_of_toValue`). A rule that computes its filter is not
written (`Rule.toValue_of_isComputed`), every other one is (`Rule.exists_toValue`).

All of it asks that the mask lists no path twice and that the literals are documents; what is read
is so (`Rule.isWellFormed_of_ofTree?`).
-/

namespace RecordGuard

open Json (Value Tree Record)

/-! ### Members -/

/-- What a traversal of written members finds, if it finds something for each of them. -/
theorem mapM_ofMembers {β : Type} {read : String × Tree → Option β} {listed : List β}
    {ms : List (String × Value)}
    (h : List.Forall₂ (fun b m => read (m.1, Tree.ofValue m.2) = some b) listed ms) :
    (Tree.ofMembers ms).mapM read = some listed := by
  induction h with
  | nil => rfl
  | @cons b m listed ms hm _ ih =>
    rw [Tree.ofMembers, List.mapM_cons, hm, ih]
    rfl

theorem Json.Value.mem_numbersOfMembers {ms : List (String × Value)} {n : Json.Number} :
    n ∈ Value.numbersOfMembers ms ↔ ∃ m ∈ ms, n ∈ m.2.numbers := by
  induction ms with
  | nil => simp [Value.numbersOfMembers]
  | cons m ms ih => simp [Value.numbersOfMembers, ih]

theorem Json.Value.isLegible_object_iff {ms : List (String × Value)} :
    (Value.object ms).IsLegible ↔ ∀ m ∈ ms, m.2.IsLegible := by
  constructor
  · exact fun h m hm n hn => h n (Value.mem_numbersOfMembers.2 ⟨m, hm, hn⟩)
  · intro h n hn
    obtain ⟨m, hm, hn⟩ := Value.mem_numbersOfMembers.1 hn
    exact h m hm n hn

theorem Json.Value.isLegible_array_iff {vs : List Value} :
    (Value.array vs).IsLegible ↔ ∀ v ∈ vs, v.IsLegible := by
  rw [IsLegible, numbers, numbersOfItems_eq]
  simp only [IsLegible, List.mem_flatMap]
  exact ⟨fun h v hv n hn => h n ⟨v, hv, hn⟩, fun h n ⟨v, hv, hn⟩ => h v hv n hn⟩

theorem Json.Value.isLegible_string (s : String) : (Value.string s).IsLegible :=
  fun _ hn => (List.not_mem_nil hn).elim

theorem Json.Value.isLegible_bool (b : Bool) : (Value.bool b).IsLegible :=
  fun _ hn => (List.not_mem_nil hn).elim

/-! ### Masks and projections -/

namespace Mask

theorem flag?_integer (included : Bool) :
    flag? (.number (.integer (if included then 1 else 0))) = some included := by
  cases included <;> rfl

/-- What a mask is written as is read as the mask, its entries in their order. -/
theorem ofTree?_toValue {mask : Mask} (h : mask.HasDistinctPaths) :
    ofTree? (Tree.ofValue mask.toValue) = some mask := by
  have hmembers : (Tree.ofMembers (mask.entries.map fun entry =>
      (entry.1, Value.integer (if entry.2 then 1 else 0)))).mapM
        (fun member => (flag? member.2).map (member.1, ·)) = some mask.entries := by
    refine mapM_ofMembers (List.forall₂_map_right_iff.2 (List.forall₂_same.2 ?_))
    rintro ⟨path, included⟩ -
    exact congrArg (Option.map (path, ·)) (flag?_integer included)
  rw [toValue, Tree.ofValue, ofTree?, hmembers, Option.map_some, ofList_entries h]

theorem hasDistinctPaths_of_ofTree? {t : Tree} {mask : Mask} (h : ofTree? t = some mask) :
    mask.HasDistinctPaths := by
  cases t with
  | object members =>
    obtain ⟨flags, -, rfl⟩ := Option.map_eq_some_iff.1 h
    exact hasDistinctPaths_ofList flags
  | _ => cases h

theorem isLegible_toValue (mask : Mask) : mask.toValue.IsLegible := by
  refine Value.isLegible_object_iff.2 fun m hm n hn => ?_
  obtain ⟨⟨path, included⟩, -, rfl⟩ := List.mem_map.1 hm
  obtain rfl := List.mem_singleton.1 hn
  cases included <;> exact Json.Number.isLegible_integer rfl

end Mask

namespace Projection

/-- The mask of a projection that is one lists no path twice. -/
def IsWellFormed : Projection → Prop
  | .compact _ => True
  | .mask entries => entries.HasDistinctPaths

/-- Neither form of a projection is read as the other. -/
theorem ofTree?_toValue {p : Projection} (h : p.IsWellFormed) :
    ofTree? (Tree.ofValue p.toValue) = some p := by
  cases p with
  | compact text => rfl
  | mask entries =>
    show (Mask.ofTree? (Tree.ofValue entries.toValue)).map Projection.mask = _
    rw [Mask.ofTree?_toValue h, Option.map_some]

theorem isWellFormed_of_ofTree? {t : Tree} {p : Projection} (h : ofTree? t = some p) :
    p.IsWellFormed := by
  unfold ofTree? at h
  split at h
  · cases h
    trivial
  · obtain ⟨mask, hmask, rfl⟩ := Option.map_eq_some_iff.1 h
    exact Mask.hasDistinctPaths_of_ofTree? hmask

theorem isLegible_toValue (p : Projection) : p.toValue.IsLegible := by
  cases p with
  | compact text => exact Value.isLegible_string text
  | mask entries => exact entries.isLegible_toValue

end Projection

/-! ### Scopes -/

/-- What an optional field holds has been read. -/
theorem Json.Record.exists_of_optional {α : Type} {r : Record} {name : String}
    {read : Tree → Option α} {a : α} (h : r.optional name read = some (some a)) :
    ∃ t, read t = some a := by
  unfold Record.optional at h
  split at h
  · rename_i t _
    unfold Tree.orNull? at h
    split at h
    · cases h
    · obtain ⟨b, hb, heq⟩ := Option.map_eq_some_iff.1 h
      cases heq
      exact ⟨t, hb⟩
  · cases h

namespace ScopedRule

/-- The filter of the scope is computed. -/
def IsComputed (rule : ScopedRule) : Prop := ∃ filter, rule.rows = some (.computed filter)

/-- The values that the filter of the scope compares with. -/
def literals (rule : ScopedRule) : List Value :=
  match rule.rows with
  | some (.template t) => t.literals
  | _ => []

/-- The mask of the scope lists no path twice, and the literals of its filter are documents. -/
structure IsWellFormed (rule : ScopedRule) : Prop where
  projection : ∀ p ∈ rule.projection, p.IsWellFormed
  literals : ∀ v ∈ rule.literals, v.IsCanonical

/-- The members that a scope is written with: those of its parts that are there. -/
def members (rows : Option Template) (projection : Option Projection) : List (String × Value) :=
  (rows.map fun t => ("where", t.toValue)).toList ++
    (projection.map fun p => ("projection", p.toValue)).toList

theorem toValue_mk (rows : Option Template) (projection : Option Projection) :
    toValue ⟨rows.map .template, projection⟩ = .ok (.object (members rows projection)) := by
  cases rows <;> cases projection <;> rfl

theorem toValue_of_isComputed {rule : ScopedRule} (h : rule.IsComputed) :
    rule.toValue = .error .computedRows := by
  obtain ⟨rows, projection⟩ := rule
  obtain ⟨filter, rfl⟩ := h
  rfl

/-- A scope that is written has a template for its filter, or none. -/
theorem eq_mk_of_not_isComputed {rule : ScopedRule} (h : ¬ rule.IsComputed) :
    ∃ rows : Option Template, rule = ⟨rows.map .template, rule.projection⟩ := by
  obtain ⟨rows, projection⟩ := rule
  rcases rows with _ | (t | filter)
  · exact ⟨none, rfl⟩
  · exact ⟨some t, rfl⟩
  · exact absurd ⟨filter, rfl⟩ h

/-- The filter of a scope, read where it may be missing. -/
theorem orNull?_template {t : Template} (h : ∀ v ∈ t.literals, v.IsCanonical) :
    (Tree.ofValue t.toValue).orNull? (fun t => (Template.ofTree? t).map RowScope.template) =
      some (some (.template t)) := by
  obtain ⟨members, hmembers⟩ := t.exists_ofValue_toValue
  have hread := Template.ofTree?_toValue t h
  rw [hmembers] at hread ⊢
  show ((Template.ofTree? (.object members)).map RowScope.template).map some = _
  rw [hread]
  rfl

/-- The projection of a scope, read where it may be missing. -/
theorem orNull?_projection {p : Projection} (h : p.IsWellFormed) :
    (Tree.ofValue p.toValue).orNull? Projection.ofTree? = some (some p) := by
  have hread := Projection.ofTree?_toValue h
  cases p with
  | compact text => rfl
  | mask entries => exact congrArg (Option.map some) hread

section Members

variable {rows : Option Template} {projection : Option Projection}

theorem optional_rows (h : ∀ t ∈ rows, ∀ v ∈ t.literals, v.IsCanonical) :
    (Record.mk (Tree.ofMembers (members rows projection)) false).optional "where"
      (fun t => (Template.ofTree? t).map RowScope.template) = some (rows.map .template) := by
  cases rows with
  | none => cases projection <;> rfl
  | some t => cases projection <;> exact orNull?_template (h t rfl)

theorem optional_projection (h : ∀ p ∈ projection, p.IsWellFormed) :
    (Record.mk (Tree.ofMembers (members rows projection)) false).optional "projection"
      Projection.ofTree? = some projection := by
  cases projection with
  | none => cases rows <;> rfl
  | some p => cases rows <;> exact orNull?_projection (h p rfl)

/-- The members of a scope are read as the scope. -/
theorem ofTree?_members (hrows : ∀ t ∈ rows, ∀ v ∈ t.literals, v.IsCanonical)
    (hprojection : ∀ p ∈ projection, p.IsWellFormed) :
    ofTree? (Tree.ofValue (.object (members rows projection))) =
      some ⟨rows.map .template, projection⟩ := by
  have hrecord : Record.ofTree? ["where", "projection"]
      (Tree.ofValue (.object (members rows projection))) =
        some ⟨Tree.ofMembers (members rows projection), false⟩ := by
    cases rows <;> cases projection <;> rfl
  rw [ofTree?, hrecord]
  show (Record.optional _ "where" _).bind _ = _
  rw [optional_rows hrows]
  show (Record.optional _ "projection" _).bind _ = _
  rw [optional_projection hprojection]
  rfl

end Members

/-- What is written of a scope says what the scope is. -/
theorem eq_of_toValue {rule : ScopedRule} {v : Value} (h : rule.toValue = .ok v) :
    ∃ rows : Option Template, rule = ⟨rows.map .template, rule.projection⟩ ∧
      v = .object (members rows rule.projection) := by
  have hcomputed : ¬ rule.IsComputed := fun hcomputed => by
    rw [toValue_of_isComputed hcomputed] at h
    cases h
  obtain ⟨rows, heq⟩ := eq_mk_of_not_isComputed hcomputed
  rw [heq, toValue_mk] at h
  cases h
  exact ⟨rows, heq, rfl⟩

/-- What a scope is written as is read as the scope. -/
theorem ofTree?_of_toValue {rule : ScopedRule} (hw : rule.IsWellFormed) {v : Value}
    (h : rule.toValue = .ok v) : ofTree? (Tree.ofValue v) = some rule := by
  obtain ⟨rows, heq, rfl⟩ := eq_of_toValue h
  have hliterals := hw.literals
  rw [heq] at hliterals
  rw [ofTree?_members (fun t ht => ?_) hw.projection, ← heq]
  cases Option.mem_def.1 ht
  exact hliterals

theorem isLegible_of_toValue {rule : ScopedRule} (hl : ∀ w ∈ rule.literals, w.IsLegible) {v : Value}
    (h : rule.toValue = .ok v) : v.IsLegible := by
  obtain ⟨rows, heq, rfl⟩ := eq_of_toValue h
  rw [heq] at hl
  refine Value.isLegible_object_iff.2 fun m hm => ?_
  rcases List.mem_append.1 hm with hm | hm
  · obtain ⟨t, rfl, rfl⟩ := Option.map_eq_some_iff.1 (Option.mem_toList.1 hm)
    exact Template.isLegible_toValue hl
  · obtain ⟨p, -, rfl⟩ := Option.map_eq_some_iff.1 (Option.mem_toList.1 hm)
    exact p.isLegible_toValue

theorem isWellFormed_of_ofTree? {t : Tree} {rule : ScopedRule} (h : ofTree? t = some rule) :
    rule.IsWellFormed := by
  obtain ⟨r, -, h⟩ := Option.bind_eq_some_iff.1 h
  obtain ⟨rows, hrows, h⟩ := Option.bind_eq_some_iff.1 h
  obtain ⟨projection, hprojection, h⟩ := Option.bind_eq_some_iff.1 h
  cases h
  constructor
  · intro p hp
    cases Option.mem_def.1 hp
    obtain ⟨body, hbody⟩ := Record.exists_of_optional hprojection
    exact Projection.isWellFormed_of_ofTree? hbody
  · rcases rows with _ | scope
    · exact fun v hv => (List.not_mem_nil hv).elim
    · obtain ⟨body, hbody⟩ := Record.exists_of_optional hrows
      obtain ⟨t, ht, rfl⟩ := Option.map_eq_some_iff.1 hbody
      exact Template.isCanonical_of_ofTree? body t ht

end ScopedRule

/-! ### Rules -/

namespace Rule

/-- The filter of the rule is computed. -/
def IsComputed : Rule → Prop
  | .flag _ => False
  | .scoped rule => rule.IsComputed

/-- The values that the filter of the rule compares with. -/
def literals : Rule → List Value
  | .flag _ => []
  | .scoped rule => rule.literals

/-- The mask of the rule lists no path twice, and the literals of its filter are documents. -/
def IsWellFormed : Rule → Prop
  | .flag _ => True
  | .scoped rule => rule.IsWellFormed

theorem toValue_of_isComputed {rule : Rule} (h : rule.IsComputed) :
    rule.toValue = .error .computedRows := by
  rcases rule with granted | scope
  · exact h.elim
  · exact ScopedRule.toValue_of_isComputed h

theorem exists_toValue {rule : Rule} (h : ¬ rule.IsComputed) : ∃ v, rule.toValue = .ok v := by
  rcases rule with granted | scope
  · exact ⟨_, rfl⟩
  · obtain ⟨rows, heq⟩ := ScopedRule.eq_mk_of_not_isComputed h
    rw [heq]
    exact ⟨_, ScopedRule.toValue_mk _ _⟩

/-- What a rule is written as is read as the rule: neither of a flag and a scope as the other. -/
theorem ofTree?_of_toValue {rule : Rule} (hw : rule.IsWellFormed) {v : Value}
    (h : rule.toValue = .ok v) : ofTree? (Tree.ofValue v) = some rule := by
  rcases rule with granted | scope
  · cases h
    rfl
  · have hread := ScopedRule.ofTree?_of_toValue hw h
    obtain ⟨rows, -, rfl⟩ := ScopedRule.eq_of_toValue h
    show (if (Tree.ofValue (.object (ScopedRule.members rows scope.projection))).isReadable then
      (ScopedRule.ofTree? _).map Rule.scoped else none) = _
    rw [if_pos (Tree.isReadable_ofValue _), hread]
    rfl

theorem isLegible_of_toValue {rule : Rule} (hl : ∀ w ∈ rule.literals, w.IsLegible) {v : Value}
    (h : rule.toValue = .ok v) : v.IsLegible := by
  rcases rule with granted | scope
  · cases h
    exact Value.isLegible_bool granted
  · exact ScopedRule.isLegible_of_toValue hl h

theorem isWellFormed_of_ofTree? {t : Tree} {rule : Rule} (h : ofTree? t = some rule) :
    rule.IsWellFormed := by
  unfold ofTree? at h
  split at h
  · cases h
    trivial
  · split_ifs at h
    obtain ⟨scope, hscope, rfl⟩ := Option.map_eq_some_iff.1 h
    exact ScopedRule.isWellFormed_of_ofTree? hscope

end Rule

end RecordGuard
