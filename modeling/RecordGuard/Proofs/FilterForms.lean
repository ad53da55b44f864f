import RecordGuard.Proofs.Canonical
import RecordGuard.Proofs.PrintedText
import RecordGuard.Proofs.Results
import RecordGuard.Template

/-!
# Filters and templates as they are written

What a filter or a template is written as is read as the same filter or template
(`Filter.ofTree?_toValue`, `Template.ofTree?_toValue`). Nothing is asked of it but that the literal
values in it are documents, and what is read always has such literals
(`Filter.isCanonical_of_ofTree?`, `Template.isCanonical_of_ofTree?`). The numbers that are written
are those of the literals (`Filter.numbers_toValue`, `Template.numbers_toValue`), so that the text
is read back if each of them is legible and the nesting is within bounds (`Filter.read?_compact`,
`Template.ofTree?_read?_compact`).
-/

namespace RecordGuard

open Json (Value Tree Record)

/-! ### Literal values -/

theorem Json.Tree.value?_ofValue {v : Value} (h : v.IsCanonical) :
    (Tree.ofValue v).value? = some v := by
  rw [Tree.value?, Tree.toValue?_ofValue, Option.map_some, v.canonical_of_isCanonical h]

theorem Json.Tree.list?_ofItems {vs : List Value} (h : ∀ v ∈ vs, v.IsCanonical) :
    Tree.list? Tree.value? (.array (Tree.ofItems vs)) = some vs := by
  show (Tree.ofItems vs).mapM Tree.value? = some vs
  induction vs with
  | nil => rfl
  | cons v vs ih =>
    rw [Tree.ofItems, List.mapM_cons, Tree.value?_ofValue (h v List.mem_cons_self),
      ih fun w hw => h w (List.mem_cons_of_mem _ hw)]
    rfl

theorem Json.Tree.isCanonical_of_value? {t : Tree} {v : Value} (h : t.value? = some v) :
    v.IsCanonical := by
  obtain ⟨w, -, rfl⟩ := Option.map_eq_some_iff.1 h
  exact w.isCanonical_canonical

theorem Json.Tree.isCanonical_of_list? {t : Tree} {vs : List Value}
    (h : Tree.list? Tree.value? t = some vs) : ∀ v ∈ vs, v.IsCanonical := by
  intro v hv
  cases t with
  | array items =>
    obtain ⟨item, -, hitem⟩ := exists_of_mem_mapM h hv
    exact isCanonical_of_value? hitem
  | _ => cases h

/-- Every number in the value is legible. -/
def Json.Value.IsLegible (v : Value) : Prop := ∀ n ∈ v.numbers, n.IsLegible

theorem Json.Value.numbersOfItems_eq (vs : List Value) :
    Value.numbersOfItems vs = vs.flatMap Value.numbers := by
  induction vs with
  | nil => rfl
  | cons v vs ih => rw [Value.numbersOfItems, ih, List.flatMap_cons]

/-- A value without numbers but those of legible values is legible. -/
theorem Json.Value.isLegible_of_numbers_eq {v : Value} {vs : List Value}
    (h : v.numbers = vs.flatMap Value.numbers) (hl : ∀ w ∈ vs, w.IsLegible) : v.IsLegible := by
  intro n hn
  rw [h] at hn
  obtain ⟨w, hw, hn⟩ := List.mem_flatMap.1 hn
  exact hl w hw n hn

/-! ### Tests -/

namespace Test

/-- The values that a test compares with. -/
def literals : Test → List Value
  | .compare _ value => [value]
  | .oneOf values => values
  | .noneOf values => values
  | _ => []

theorem withOperand?_record {α : Type} {key : String} (hkey : key ≠ "field")
    {read : Tree → Option α} (test : α → Test) (path : String) {t : Tree} {a : α}
    (h : read t = some a) :
    withOperand? key read test (.object [("field", .string path), (key, t)]) =
      some (.field path (test a)) := by
  simp [withOperand?, Record.ofTree?, Record.ofMembers?, Record.required, Record.get?,
    Tree.string?, hkey, hkey.symm, h]

theorem withoutOperand?_record (test : Test) (path : String) :
    withoutOperand? test (.object [("field", .string path)]) = some (.field path test) := by
  simp [withoutOperand?, Record.ofTree?, Record.ofMembers?, Record.required, Record.get?,
    Tree.string?]

theorem ofNamed?_comparison (comparison : Comparison) (body : Tree) :
    ofNamed? comparison.name body =
      withOperand? "value" Tree.value? (.compare comparison) body := by
  cases comparison <;> rfl

/-- The record of a test is read as the test of its name. -/
theorem ofNamed?_record (path : String) (test : Test) (h : ∀ v ∈ test.literals, v.IsCanonical) :
    ofNamed? test.name (.object (("field", .string path) :: Tree.ofMembers test.operand)) =
      some (.field path test) := by
  cases test with
  | compare comparison value =>
    have hvalue := Tree.value?_ofValue (h value (List.mem_singleton_self value))
    rw [name, ofNamed?_comparison]
    exact withOperand?_record (by decide) (Test.compare comparison) path hvalue
  | oneOf values => exact withOperand?_record (by decide) .oneOf path (Tree.list?_ofItems h)
  | noneOf values => exact withOperand?_record (by decide) .noneOf path (Tree.list?_ofItems h)
  | isNull => exact withoutOperand?_record .isNull path
  | isNotNull => exact withoutOperand?_record .isNotNull path
  | like pattern => exact withOperand?_record (by decide) .like path rfl
  | likeIgnoringCase pattern => exact withOperand?_record (by decide) .likeIgnoringCase path rfl

theorem numbersOfMembers_operand (test : Test) :
    Value.numbersOfMembers test.operand = test.literals.flatMap Value.numbers := by
  cases test with
  | compare comparison value => rfl
  | oneOf values => exact (List.append_nil _).trans (Value.numbersOfItems_eq values)
  | noneOf values => exact (List.append_nil _).trans (Value.numbersOfItems_eq values)
  | isNull => rfl
  | isNotNull => rfl
  | like pattern => rfl
  | likeIgnoringCase pattern => rfl

theorem exists_of_withOperand? {α : Type} {key : String} {read : Tree → Option α} {test : α → Test}
    {body : Tree} {f : Filter} (h : withOperand? key read test body = some f) :
    ∃ path t a, read t = some a ∧ f = .field path (test a) := by
  obtain ⟨r, -, h⟩ := Option.bind_eq_some_iff.1 h
  obtain ⟨path, -, h⟩ := Option.bind_eq_some_iff.1 h
  obtain ⟨a, ha, h⟩ := Option.bind_eq_some_iff.1 h
  obtain ⟨t, -, ha⟩ := Option.bind_eq_some_iff.1 ha
  cases h
  exact ⟨path, t, a, ha, rfl⟩

theorem exists_of_withoutOperand? {test : Test} {body : Tree} {f : Filter}
    (h : withoutOperand? test body = some f) : ∃ path, f = .field path test := by
  obtain ⟨r, -, h⟩ := Option.bind_eq_some_iff.1 h
  obtain ⟨path, -, h⟩ := Option.bind_eq_some_iff.1 h
  cases h
  exact ⟨path, rfl⟩

end Test

/-! ### Filters -/

namespace Filter

mutual

/-- The values that a filter compares with, in its order. -/
def literals : Filter → List Value
  | .field _ test => test.literals
  | .all filters => literalsOfEach filters
  | .any filters => literalsOfEach filters
termination_by structural f => f

/-- The values that the filters compare with. -/
def literalsOfEach : List Filter → List Value
  | [] => []
  | f :: fs => literals f ++ literalsOfEach fs
termination_by structural fs => fs

end

theorem exists_ofValue_toValue (f : Filter) :
    ∃ members, Tree.ofValue f.toValue = .object members := by
  cases f <;> exact ⟨_, rfl⟩

mutual

/-- What a filter is written as is read as the filter. -/
theorem ofTree?_toValue : (f : Filter) → (∀ v ∈ f.literals, v.IsCanonical) →
    ofTree? (Tree.ofValue f.toValue) = some f
  | .field path test, h => Test.ofNamed?_record path test h
  | .all filters, h => by
    show (ofTrees? (Tree.ofItems (toValues filters))).map Filter.all = _
    rw [ofTrees?_toValues filters h, Option.map_some]
  | .any filters, h => by
    show (ofTrees? (Tree.ofItems (toValues filters))).map Filter.any = _
    rw [ofTrees?_toValues filters h, Option.map_some]

theorem ofTrees?_toValues : (fs : List Filter) → (∀ v ∈ literalsOfEach fs, v.IsCanonical) →
    ofTrees? (Tree.ofItems (toValues fs)) = some fs
  | [], _ => rfl
  | f :: fs, h => by
    rw [toValues, Tree.ofItems, ofTrees?,
      ofTree?_toValue f fun v hv => h v (List.mem_append_left _ hv),
      ofTrees?_toValues fs fun v hv => h v (List.mem_append_right _ hv)]
    rfl

end

mutual

/-- No number is written that is not in a literal. -/
theorem numbers_toValue : (f : Filter) → f.toValue.numbers = f.literals.flatMap Value.numbers
  | .field path test => by
    rw [literals, ← test.numbersOfMembers_operand]
    exact List.append_nil _
  | .all filters => by
    rw [literals, ← numbersOfItems_toValues filters]
    exact List.append_nil _
  | .any filters => by
    rw [literals, ← numbersOfItems_toValues filters]
    exact List.append_nil _

theorem numbersOfItems_toValues : (fs : List Filter) →
    Value.numbersOfItems (toValues fs) = (literalsOfEach fs).flatMap Value.numbers
  | [] => rfl
  | f :: fs => by
    rw [toValues, Value.numbersOfItems, numbers_toValue f, numbersOfItems_toValues fs,
      literalsOfEach, List.flatMap_append]

end

theorem isLegible_toValue {f : Filter} (hl : ∀ v ∈ f.literals, v.IsLegible) :
    f.toValue.IsLegible := Value.isLegible_of_numbers_eq f.numbers_toValue hl

/-- The text of a filter is read as the filter. -/
theorem read?_compact {f : Filter} (hc : ∀ v ∈ f.literals, v.IsCanonical)
    (hl : ∀ v ∈ f.literals, v.IsLegible) (hdepth : f.toValue.nesting ≤ Json.Reader.maxDepth) :
    read? f.toValue.compact = some f := by
  rw [read?, Tree.read?_compact (isLegible_toValue hl) hdepth, Option.bind_some,
    ofTree?_toValue f hc]

/-- The literals of a test that is read are documents. -/
theorem isCanonical_of_ofNamed? {name : String} {body : Tree} {f : Filter}
    (h : Test.ofNamed? name body = some f) : ∀ v ∈ f.literals, v.IsCanonical := by
  unfold Test.ofNamed? at h
  split at h
  · obtain ⟨path, t, value, hvalue, rfl⟩ := Test.exists_of_withOperand? h
    exact List.forall_mem_singleton.2 (Tree.isCanonical_of_value? hvalue)
  · split at h
    · obtain ⟨path, t, values, hvalues, rfl⟩ := Test.exists_of_withOperand? h
      exact Tree.isCanonical_of_list? hvalues
    · obtain ⟨path, t, values, hvalues, rfl⟩ := Test.exists_of_withOperand? h
      exact Tree.isCanonical_of_list? hvalues
    · obtain ⟨path, rfl⟩ := Test.exists_of_withoutOperand? h
      exact fun v hv => (List.not_mem_nil hv).elim
    · obtain ⟨path, rfl⟩ := Test.exists_of_withoutOperand? h
      exact fun v hv => (List.not_mem_nil hv).elim
    · obtain ⟨path, t, pattern, -, rfl⟩ := Test.exists_of_withOperand? h
      exact fun v hv => (List.not_mem_nil hv).elim
    · obtain ⟨path, t, pattern, -, rfl⟩ := Test.exists_of_withOperand? h
      exact fun v hv => (List.not_mem_nil hv).elim
    · cases h

/-- The literals of a filter that is read are documents. -/
theorem isCanonical_of_ofTree? : (t : Tree) → (f : Filter) → ofTree? t = some f →
    ∀ v ∈ f.literals, v.IsCanonical := by
  refine ofTree?.induct
    (fun t => ∀ f, ofTree? t = some f → ∀ v ∈ f.literals, v.IsCanonical)
    (fun ts => ∀ fs, ofTrees? ts = some fs → ∀ v ∈ literalsOfEach fs, v.IsCanonical)
    ?_ ?_ ?_ ?_ ?_ ?_ ?_
  · intro items ih f h
    rw [ofTree?] at h
    obtain ⟨fs, hfs, rfl⟩ := Option.map_eq_some_iff.1 h
    exact ih fs hfs
  · intro items ih f h
    rw [ofTree?] at h
    obtain ⟨fs, hfs, rfl⟩ := Option.map_eq_some_iff.1 h
    exact ih fs hfs
  · intro items name hand hor f h
    rw [ofTree?] at h
    · exact isCanonical_of_ofNamed? h
    · exact hand
    · exact hor
  · intro name body hbody f h
    rw [ofTree?] at h
    · exact isCanonical_of_ofNamed? h
    · exact hbody
  · intro t harray hobject f h
    rw [ofTree?] at h
    · cases h
    · exact harray
    · exact hobject
  · intro fs h
    cases h
    exact fun v hv => (List.not_mem_nil hv).elim
  · intro t ts iht ihts fs h
    rw [ofTrees?] at h
    obtain ⟨g, hg, h⟩ := Option.bind_eq_some_iff.1 h
    obtain ⟨gs, hgs, h⟩ := Option.bind_eq_some_iff.1 h
    cases h
    exact List.forall_mem_append.2 ⟨iht g hg, ihts gs hgs⟩

end Filter

/-! ### Templates -/

namespace Template

mutual

/-- The values that the filters in a template compare with, in its order. -/
def literals : Template → List Value
  | .standard filter => filter.literals
  | .attributeEq _ _ => []
  | .attributeIn _ _ => []
  | .all templates => literalsOfEach templates
  | .any templates => literalsOfEach templates
termination_by structural t => t

/-- The values that the filters in the templates compare with. -/
def literalsOfEach : List Template → List Value
  | [] => []
  | t :: ts => literals t ++ literalsOfEach ts
termination_by structural ts => ts

end

theorem reference?_record (template : String → String → Template) (field name : String) :
    reference? template (.object [("field", .string field), ("attribute", .string name)]) =
      some (template field name) := by
  simp [reference?, Record.ofTree?, Record.ofMembers?, Record.required, Record.get?, Tree.string?]

mutual

/-- What a template is written as is read as the template. -/
theorem ofTree?_toValue : (t : Template) → (∀ v ∈ t.literals, v.IsCanonical) →
    ofTree? (Tree.ofValue t.toValue) = some t
  | .standard filter, h => by
    obtain ⟨members, hmembers⟩ := filter.exists_ofValue_toValue
    have hbody : Filter.ofTree? (.object members) = some filter :=
      hmembers ▸ filter.ofTree?_toValue h
    show ofTree? (.object [("standard", Tree.ofValue filter.toValue)]) = _
    rw [hmembers]
    show (Filter.ofTree? (.object members)).map Template.standard = _
    rw [hbody, Option.map_some]
  | .attributeEq field name, _ => reference?_record .attributeEq field name
  | .attributeIn field name, _ => reference?_record .attributeIn field name
  | .all templates, h => by
    show (ofTrees? (Tree.ofItems (toValues templates))).map Template.all = _
    rw [ofTrees?_toValues templates h, Option.map_some]
  | .any templates, h => by
    show (ofTrees? (Tree.ofItems (toValues templates))).map Template.any = _
    rw [ofTrees?_toValues templates h, Option.map_some]

theorem ofTrees?_toValues : (ts : List Template) → (∀ v ∈ literalsOfEach ts, v.IsCanonical) →
    ofTrees? (Tree.ofItems (toValues ts)) = some ts
  | [], _ => rfl
  | t :: ts, h => by
    rw [toValues, Tree.ofItems, ofTrees?,
      ofTree?_toValue t fun v hv => h v (List.mem_append_left _ hv),
      ofTrees?_toValues ts fun v hv => h v (List.mem_append_right _ hv)]
    rfl

end

theorem exists_ofValue_toValue (t : Template) :
    ∃ members, Tree.ofValue t.toValue = .object members := by
  cases t <;> exact ⟨_, rfl⟩

mutual

/-- No number is written that is not in a literal. -/
theorem numbers_toValue : (t : Template) → t.toValue.numbers = t.literals.flatMap Value.numbers
  | .standard filter => by
    rw [literals, ← filter.numbers_toValue]
    exact List.append_nil _
  | .attributeEq _ _ => rfl
  | .attributeIn _ _ => rfl
  | .all templates => by
    rw [literals, ← numbersOfItems_toValues templates]
    exact List.append_nil _
  | .any templates => by
    rw [literals, ← numbersOfItems_toValues templates]
    exact List.append_nil _

theorem numbersOfItems_toValues : (ts : List Template) →
    Value.numbersOfItems (toValues ts) = (literalsOfEach ts).flatMap Value.numbers
  | [] => rfl
  | t :: ts => by
    rw [toValues, Value.numbersOfItems, numbers_toValue t, numbersOfItems_toValues ts,
      literalsOfEach, List.flatMap_append]

end

theorem isLegible_toValue {t : Template} (hl : ∀ v ∈ t.literals, v.IsLegible) :
    t.toValue.IsLegible := Value.isLegible_of_numbers_eq t.numbers_toValue hl

/-- The text of a template is read as the template. -/
theorem ofTree?_read?_compact {t : Template} (hc : ∀ v ∈ t.literals, v.IsCanonical)
    (hl : ∀ v ∈ t.literals, v.IsLegible) (hdepth : t.toValue.nesting ≤ Json.Reader.maxDepth) :
    (Tree.read? t.toValue.compact).bind ofTree? = some t := by
  rw [Tree.read?_compact (isLegible_toValue hl) hdepth, Option.bind_some, ofTree?_toValue t hc]

theorem exists_of_reference? {template : String → String → Template} {body : Tree} {u : Template}
    (h : reference? template body = some u) : ∃ field name, u = template field name := by
  obtain ⟨r, -, h⟩ := Option.bind_eq_some_iff.1 h
  obtain ⟨field, -, h⟩ := Option.bind_eq_some_iff.1 h
  obtain ⟨name, -, h⟩ := Option.bind_eq_some_iff.1 h
  cases h
  exact ⟨field, name, rfl⟩

theorem isCanonical_of_ofNamed? {name : String} {body : Tree} {u : Template}
    (h : ofNamed? name body = some u) : ∀ v ∈ u.literals, v.IsCanonical := by
  unfold ofNamed? at h
  split at h
  · obtain ⟨f, hf, rfl⟩ := Option.map_eq_some_iff.1 h
    exact Filter.isCanonical_of_ofTree? body f hf
  · obtain ⟨field, key, rfl⟩ := exists_of_reference? h
    exact fun v hv => (List.not_mem_nil hv).elim
  · obtain ⟨field, key, rfl⟩ := exists_of_reference? h
    exact fun v hv => (List.not_mem_nil hv).elim
  · cases h

/-- The literals of a template that is read are documents. -/
theorem isCanonical_of_ofTree? : (t : Tree) → (u : Template) → ofTree? t = some u →
    ∀ v ∈ u.literals, v.IsCanonical := by
  refine ofTree?.induct
    (fun t => ∀ u, ofTree? t = some u → ∀ v ∈ u.literals, v.IsCanonical)
    (fun ts => ∀ us, ofTrees? ts = some us → ∀ v ∈ literalsOfEach us, v.IsCanonical)
    ?_ ?_ ?_ ?_ ?_ ?_ ?_
  · intro items ih u h
    rw [ofTree?] at h
    obtain ⟨us, hus, rfl⟩ := Option.map_eq_some_iff.1 h
    exact ih us hus
  · intro items ih u h
    rw [ofTree?] at h
    obtain ⟨us, hus, rfl⟩ := Option.map_eq_some_iff.1 h
    exact ih us hus
  · intro items name hand hor u h
    rw [ofTree?] at h
    · exact isCanonical_of_ofNamed? h
    · exact hand
    · exact hor
  · intro name body hbody u h
    rw [ofTree?] at h
    · exact isCanonical_of_ofNamed? h
    · exact hbody
  · intro t harray hobject u h
    rw [ofTree?] at h
    · cases h
    · exact harray
    · exact hobject
  · intro us h
    cases h
    exact fun v hv => (List.not_mem_nil hv).elim
  · intro t ts iht ihts us h
    rw [ofTrees?] at h
    obtain ⟨w, hw, h⟩ := Option.bind_eq_some_iff.1 h
    obtain ⟨ws, hws, h⟩ := Option.bind_eq_some_iff.1 h
    cases h
    exact List.forall_mem_append.2 ⟨iht w hw, ihts ws hws⟩

end Template

end RecordGuard
