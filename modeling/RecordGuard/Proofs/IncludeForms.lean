import RecordGuard.Include.Cascade
import RecordGuard.Include.Tree
import RecordGuard.Proofs.RuleForms

/-!
# Include trees and cascades as they are written

A node of an include tree is written as an object of the members it has, its children in their
order, and whatever the order of the members it is read as the same node
(`IncludeNode.ofTree?_of_writes`); an empty list of children is written and a missing one is not.
The same holds of a cascade (`CascadeInclude.ofTrees?_of_writesEach`). The form of a cascade for
the store is written as the declared one is with two of its keys renamed
(`CascadeField.toValue_toInclude`).
-/

namespace RecordGuard

open Json (Value Tree Record)

/-! ### Members in any order -/

namespace Json

/-- The value is an object of the given members, in some order. -/
def Value.HasMembers (v : Value) (members : List (String × Value)) : Prop :=
  ∃ listed, v = .object listed ∧ listed.Perm members

theorem Value.hasMembers_object (members : List (String × Value)) :
    (Value.object members).HasMembers members := ⟨members, rfl, .refl members⟩

theorem Value.HasMembers.isLegible {v : Value} {members : List (String × Value)}
    (h : v.HasMembers members) (hl : ∀ m ∈ members, m.2.IsLegible) : v.IsLegible := by
  obtain ⟨listed, rfl, hperm⟩ := h
  exact Value.isLegible_object_iff.2 fun m hm => hl m (hperm.mem_iff.1 hm)

theorem Tree.get?_ofMembers (members : List (String × Value)) (key : String) :
    Entries.get? (Tree.ofMembers members) key = (Entries.get? members key).map Tree.ofValue := by
  induction members with
  | nil => rfl
  | cons member members ih =>
    rw [Tree.ofMembers, Entries.get?, Entries.get?, ih]
    split_ifs <;> rfl

theorem Tree.keys_ofMembers (members : List (String × Value)) :
    Entries.keys (Tree.ofMembers members) = Entries.keys members := by
  induction members with
  | nil => rfl
  | cons member members ih => exact congrArg (member.1 :: ·) ih

/-- The strings of an array are read as they are. -/
theorem Tree.list?_strings (names : List String) :
    Tree.list? Tree.string? (Tree.ofValue (.array (names.map Value.string))) = some names := by
  show (Tree.ofItems (names.map Value.string)).mapM Tree.string? = some names
  induction names with
  | nil => rfl
  | cons name names ih =>
    rw [List.map_cons, Tree.ofItems, List.mapM_cons, ih]
    rfl

namespace Record

theorem get?_eq (r : Record) (name : String) : r.get? name = Entries.get? r.fields name := by
  obtain ⟨fields, positional⟩ := r
  rw [get?]
  induction fields with
  | nil => rfl
  | cons field fields ih =>
    rw [Entries.get?]
    split_ifs with h
    · simp [h]
    · simpa [h] using ih

/-- The record of an object says of each of its fields what the object has for it. -/
theorem exists_ofMembers? (names : List String) {members : Entries Tree}
    (h : (Entries.keys members).Nodup) :
    ∃ r, ofMembers? names members = some r ∧
      ∀ name ∈ names, r.get? name = Entries.get? members name := by
  have hknown : ((members.filter fun member => names.contains member.1).map Prod.fst).Nodup :=
    h.sublist (List.filter_sublist.map Prod.fst)
  refine ⟨_, if_pos hknown, fun name hname => ?_⟩
  rw [get?_eq, Entries.get?_filter, if_pos (List.contains_iff_mem.2 hname)]

/-- An optional field is read if each value it can have is. -/
theorem optional_of_get? {α : Type} {r : Record} {name : String} {read : Tree → Option α}
    (write : α → Value) {a : Option α} (h : r.get? name = (a.map write).map Tree.ofValue)
    (hread : ∀ b, (Tree.ofValue (write b)).orNull? read = some (some b)) :
    r.optional name read = some a := by
  rw [optional, h]
  cases a with
  | none => rfl
  | some b => exact hread b

end Record

/-- What is read of an object that has the members: its record, and each look-up. -/
theorem Value.HasMembers.exists_record {v : Value} {members : List (String × Value)}
    (h : v.HasMembers members) (hn : (Entries.keys members).Nodup) (names : List String) :
    ∃ listed r, Tree.ofValue v = .object listed ∧ Record.ofMembers? names listed = some r ∧
      (∀ name ∈ names, r.get? name = (Entries.get? members name).map Tree.ofValue) ∧
      ∀ key, Entries.get? listed key = (Entries.get? members key).map Tree.ofValue := by
  obtain ⟨listed, rfl, hperm⟩ := h
  have hkeys : (Entries.keys (Tree.ofMembers listed)).Nodup := by
    rw [Tree.keys_ofMembers]
    exact (hperm.map Prod.fst).nodup_iff.2 hn
  have hget (key : String) : Entries.get? (Tree.ofMembers listed) key =
      (Entries.get? members key).map Tree.ofValue := by
    rw [Tree.get?_ofMembers, Entries.get?_eq_of_perm hperm hn]
  obtain ⟨r, hr, hfields⟩ := Record.exists_ofMembers? names hkeys
  exact ⟨_, r, rfl, hr, fun name hname => (hfields name hname).trans (hget name), hget⟩

end Json

/-! ### Nodes of an include tree -/

namespace AttributeChoice

theorem ofTree?_toValue (choice : AttributeChoice) :
    ofTree? (Tree.ofValue choice.toValue) = some choice := by
  cases choice with
  | these names =>
    show (Tree.list? Tree.string? (Tree.ofValue (.array (names.map Value.string)))).map these = _
    rw [Tree.list?_strings, Option.map_some]
  | allBut names =>
    show (Tree.list? Tree.string? (Tree.ofValue (.array (names.map Value.string)))).bind
      (fun names => if (Tree.ofValue _).isReadable then some (allBut names) else none) = _
    rw [Tree.list?_strings, Option.bind_some, if_pos (Tree.isReadable_ofValue _)]

theorem orNull?_toValue (choice : AttributeChoice) :
    (Tree.ofValue choice.toValue).orNull? ofTree? = some (some choice) := by
  cases choice with
  | these names => exact congrArg (Option.map some) (ofTree?_toValue (.these names))
  | allBut names => exact congrArg (Option.map some) (ofTree?_toValue (.allBut names))

theorem isLegible_toValue (choice : AttributeChoice) : choice.toValue.IsLegible := by
  have hnames (names : List String) : (Value.array (names.map Value.string)).IsLegible := by
    refine Value.isLegible_array_iff.2 fun v hv => ?_
    obtain ⟨name, -, rfl⟩ := List.mem_map.1 hv
    exact Value.isLegible_string name
  cases choice with
  | these names => exact hnames names
  | allBut names =>
    refine Value.isLegible_object_iff.2 fun m hm => ?_
    obtain rfl := List.mem_singleton.1 hm
    exact hnames names

end AttributeChoice

namespace IncludeNode

/-- The members that a node is written with: those of its parts that are there. -/
def members (association : Option String) (attributes : Option AttributeChoice) (duplicating : Bool)
    (children : Option Value) : Entries Value :=
  (association.map fun name => ("association", .string name)).toList ++
    (attributes.map fun choice => ("attributes", choice.toValue)).toList ++
    [("duplicating", .bool duplicating)] ++
    (children.map fun v => ("include", v)).toList

mutual

/-- The node is written as the value: an object of its members in some order, with its children, if
it has a list of them, in their order. -/
def Writes : IncludeNode → Value → Prop
  | .mk association attributes none duplicating, v =>
    v.HasMembers (members association attributes duplicating none)
  | .mk association attributes (some nodes) duplicating, v =>
    ∃ items, WritesEach nodes items ∧
      v.HasMembers (members association attributes duplicating (some (.array items)))
termination_by structural node => node

/-- Each of the nodes is written as the value in its place. -/
def WritesEach : List IncludeNode → List Value → Prop
  | [], [] => True
  | n :: ns, v :: vs => Writes n v ∧ WritesEach ns vs
  | _, _ => False
termination_by structural ns => ns

end

mutual

theorem writes_toValue : (node : IncludeNode) → node.Writes node.toValue
  | .mk association attributes none duplicating => by
    cases association <;> cases attributes <;> exact Value.hasMembers_object _
  | .mk association attributes (some nodes) duplicating => by
    refine ⟨toValues nodes, writesEach_toValues nodes, ?_⟩
    cases association <;> cases attributes <;> exact Value.hasMembers_object _

theorem writesEach_toValues : (nodes : List IncludeNode) → WritesEach nodes (toValues nodes)
  | [] => trivial
  | n :: ns => ⟨writes_toValue n, writesEach_toValues ns⟩

end

section Members

variable (association : Option String) (attributes : Option AttributeChoice) (duplicating : Bool)
  (children : Option Value)

theorem nodup_keys_members :
    (Entries.keys (members association attributes duplicating children)).Nodup := by
  cases association <;> cases attributes <;> cases children <;>
    simp [members, Entries.keys]

theorem get?_association :
    Entries.get? (members association attributes duplicating children) "association" =
      association.map Value.string := by
  cases association <;> cases attributes <;> cases children <;> rfl

theorem get?_attributes :
    Entries.get? (members association attributes duplicating children) "attributes" =
      attributes.map AttributeChoice.toValue := by
  cases association <;> cases attributes <;> cases children <;> rfl

theorem get?_duplicating :
    Entries.get? (members association attributes duplicating children) "duplicating" =
      some (.bool duplicating) := by
  cases association <;> cases attributes <;> cases children <;> rfl

theorem get?_include :
    Entries.get? (members association attributes duplicating children) "include" = children := by
  cases association <;> cases attributes <;> cases children <;> rfl

variable {association attributes duplicating children}

theorem isLegible_of_mem_members (hl : ∀ v ∈ children, v.IsLegible) :
    ∀ m ∈ members association attributes duplicating children, m.2.IsLegible := by
  intro m hm
  simp only [members, List.mem_append, Option.mem_toList, Option.map_eq_some_iff,
    List.mem_singleton] at hm
  obtain ((⟨name, -, rfl⟩ | ⟨choice, -, rfl⟩) | rfl) | ⟨v, hv, rfl⟩ := hm
  · exact Value.isLegible_string name
  · exact choice.isLegible_toValue
  · exact Value.isLegible_bool duplicating
  · exact hl v hv

end Members

/-- The children stand under the first key that is theirs. -/
theorem childrenIn?_eq (members : List (String × Tree)) :
    childrenIn? members = ((Entries.get? members "include").map children?).getD (some none) := by
  induction members with
  | nil => rfl
  | cons member members ih =>
    obtain ⟨key, t⟩ := member
    rw [childrenIn?, Entries.get?, ih]
    split_ifs <;> rfl

/-- What a node says of itself is read from its members, in whatever order they stand. -/
theorem ofTree?_of_hasMembers {association : Option String} {attributes : Option AttributeChoice}
    {duplicating : Bool} {children : Option Value} {v : Value}
    (h : v.HasMembers (members association attributes duplicating children)) :
    ofTree? (Tree.ofValue v) =
      ((children.map fun items => children? (Tree.ofValue items)).getD (some none)).map
        (mk association attributes · duplicating) := by
  obtain ⟨listed, r, htree, hrecord, hfields, hget⟩ :=
    h.exists_record (nodup_keys_members _ _ _ _) fieldNames
  have hassociation : r.optional "association" Tree.string? = some association := by
    refine Record.optional_of_get? Value.string ?_ fun name => rfl
    rw [hfields _ (by decide), get?_association]
  have hattributes : r.optional "attributes" AttributeChoice.ofTree? = some attributes := by
    refine Record.optional_of_get? AttributeChoice.toValue ?_ AttributeChoice.orNull?_toValue
    rw [hfields _ (by decide), get?_attributes]
  have hduplicating : r.required "duplicating" Tree.bool? = some duplicating := by
    rw [Record.required, hfields _ (by decide), get?_duplicating]
    rfl
  have hchildren : childrenIn? listed =
      (children.map fun items => children? (Tree.ofValue items)).getD (some none) := by
    rw [childrenIn?_eq, hget, get?_include, Option.map_map]
    rfl
  rw [htree, ofTree?, hrecord, Option.bind_eq_bind, Option.bind_some, hchildren]
  generalize (children.map fun items => children? (Tree.ofValue items)).getD (some none) = found
  cases found with
  | none => rfl
  | some nodes =>
    simp only [Option.bind_eq_bind, Option.bind_some, Option.map_some, ofRecord?, hassociation,
      hattributes, hduplicating]
    rfl

mutual

/-- Whatever the order of its members, a node is read as it is. -/
theorem ofTree?_of_writes : (node : IncludeNode) → {v : Value} → node.Writes v →
    ofTree? (Tree.ofValue v) = some node
  | .mk _ _ none _, _, h => ofTree?_of_hasMembers h
  | .mk _ _ (some nodes) _, _, ⟨items, hitems, h⟩ => by
    rw [ofTree?_of_hasMembers h]
    show (((ofTrees? (Tree.ofItems items)).map some).map _) = _
    rw [ofTrees?_of_writesEach nodes hitems]
    rfl

theorem ofTrees?_of_writesEach : (nodes : List IncludeNode) → {vs : List Value} →
    WritesEach nodes vs → ofTrees? (Tree.ofItems vs) = some nodes
  | [], [], _ => rfl
  | n :: ns, _ :: _, ⟨hn, hns⟩ => by
    rw [Tree.ofItems, ofTrees?, ofTree?_of_writes n hn, ofTrees?_of_writesEach ns hns]
    rfl

end

mutual

theorem isLegible_of_writes : (node : IncludeNode) → {v : Value} → node.Writes v → v.IsLegible
  | .mk _ _ none _, _, h => h.isLegible (isLegible_of_mem_members fun _ hv => by cases hv)
  | .mk _ _ (some nodes) _, _, ⟨items, hitems, h⟩ => by
    refine h.isLegible (isLegible_of_mem_members fun v hv => ?_)
    cases Option.mem_def.1 hv
    exact Value.isLegible_array_iff.2 (isLegible_of_writesEach nodes hitems)

theorem isLegible_of_writesEach : (nodes : List IncludeNode) → {vs : List Value} →
    WritesEach nodes vs → ∀ v ∈ vs, v.IsLegible
  | [], [], _ => fun _ hv => (List.not_mem_nil hv).elim
  | n :: ns, _ :: _, ⟨hn, hns⟩ =>
    List.forall_mem_cons.2 ⟨isLegible_of_writes n hn, isLegible_of_writesEach ns hns⟩

end

theorem read?_of_writes {node : IncludeNode} {v : Value} (h : node.Writes v)
    (hdepth : v.nesting ≤ Json.Reader.maxDepth) : read? v.compact = some node := by
  rw [read?, Tree.read?_compact (isLegible_of_writes node h) hdepth, Option.bind_some,
    ofTree?_of_writes node h]

end IncludeNode

/-! ### Cascades as a store takes them -/

namespace CascadeInclude

mutual

/-- The association is written as the value: its bare name, or an object of its members in some
order, with the nested list, if there is one, in its order. -/
def Writes : CascadeInclude → Value → Prop
  | .name association, v => v = .string association
  | .nested association none, v => v.HasMembers [("association", .string association)]
  | .nested association (some includes), v =>
    ∃ items, WritesEach includes items ∧
      v.HasMembers [("association", .string association), ("include", .array items)]
termination_by structural i => i

/-- Each of the associations is written as the value in its place. -/
def WritesEach : List CascadeInclude → List Value → Prop
  | [], [] => True
  | i :: is, v :: vs => Writes i v ∧ WritesEach is vs
  | _, _ => False
termination_by structural is => is

end

mutual

theorem writes_toValue : (i : CascadeInclude) → i.Writes i.toValue
  | .name _ => rfl
  | .nested _ none => Value.hasMembers_object _
  | .nested _ (some includes) =>
    ⟨toValues includes, writesEach_toValues includes, Value.hasMembers_object _⟩

theorem writesEach_toValues : (is : List CascadeInclude) → WritesEach is (toValues is)
  | [] => trivial
  | i :: is => ⟨writes_toValue i, writesEach_toValues is⟩

end

/-- The nested list stands under the first key that is its own. -/
theorem includesIn?_eq (members : List (String × Tree)) :
    includesIn? members = ((Entries.get? members "include").map includes?).getD (some none) := by
  induction members with
  | nil => rfl
  | cons member members ih =>
    obtain ⟨key, t⟩ := member
    rw [includesIn?, Entries.get?, ih]
    split_ifs <;> rfl

/-- An object with the name of an association is read as the association, with the nested list that
it has. -/
theorem ofTree?_of_hasMembers {association : String} {members : Entries Value} {v : Value}
    (h : v.HasMembers members) (hn : (Entries.keys members).Nodup)
    (hname : Entries.get? members "association" = some (.string association)) :
    ofTree? (Tree.ofValue v) =
      (((Entries.get? members "include").map fun items =>
        includes? (Tree.ofValue items)).getD (some none)).map (nested association) := by
  obtain ⟨listed, r, htree, hrecord, hfields, hget⟩ :=
    h.exists_record hn ["association", "include"]
  have hassociation : r.required "association" Tree.string? = some association := by
    rw [Record.required, hfields _ (by decide), hname]
    rfl
  have hincludes : includesIn? listed = ((Entries.get? members "include").map fun items =>
      includes? (Tree.ofValue items)).getD (some none) := by
    rw [includesIn?_eq, hget, Option.map_map]
    rfl
  have hreadable : (Tree.object listed).isReadable = true := htree ▸ Tree.isReadable_ofValue v
  rw [htree, ofTree?, hrecord, Option.bind_eq_bind, Option.bind_some, hassociation,
    Option.bind_eq_bind, Option.bind_some, hincludes]
  simp only [hreadable, if_true]
  exact Option.map_eq_bind.symm

mutual

/-- Whatever the order of its members, an association is read as it is. -/
theorem ofTree?_of_writes : (i : CascadeInclude) → {v : Value} → i.Writes v →
    ofTree? (Tree.ofValue v) = some i
  | .name _, _, rfl => rfl
  | .nested _ none, _, h => ofTree?_of_hasMembers h (by simp [Entries.keys]) rfl
  | .nested association (some includes), _, ⟨items, hitems, h⟩ => by
    rw [ofTree?_of_hasMembers h (by simp [Entries.keys]) rfl]
    show ((ofTrees? (Tree.ofItems items)).map some).map (nested association) = _
    rw [ofTrees?_of_writesEach includes hitems]
    rfl

theorem ofTrees?_of_writesEach : (is : List CascadeInclude) → {vs : List Value} →
    WritesEach is vs → ofTrees? (Tree.ofItems vs) = some is
  | [], [], _ => rfl
  | i :: is, _ :: _, ⟨hi, his⟩ => by
    rw [Tree.ofItems, ofTrees?, ofTree?_of_writes i hi, ofTrees?_of_writesEach is his]
    rfl

end

mutual

theorem isLegible_of_writes : (i : CascadeInclude) → {v : Value} → i.Writes v → v.IsLegible
  | .name association, _, rfl => Value.isLegible_string association
  | .nested association none, _, h => by
    refine h.isLegible fun m hm => ?_
    obtain rfl := List.mem_singleton.1 hm
    exact Value.isLegible_string association
  | .nested association (some includes), _, ⟨items, hitems, h⟩ => by
    have hlist := Value.isLegible_array_iff.2 (isLegible_of_writesEach includes hitems)
    refine h.isLegible (List.forall_mem_cons.2 ⟨Value.isLegible_string association, fun m hm => ?_⟩)
    obtain rfl := List.mem_singleton.1 hm
    exact hlist

theorem isLegible_of_writesEach : (is : List CascadeInclude) → {vs : List Value} →
    WritesEach is vs → ∀ v ∈ vs, v.IsLegible
  | [], [], _ => fun _ hv => (List.not_mem_nil hv).elim
  | i :: is, _ :: _, ⟨hi, his⟩ =>
    List.forall_mem_cons.2 ⟨isLegible_of_writes i hi, isLegible_of_writesEach is his⟩

end

theorem read?_of_writesEach {is : List CascadeInclude} {vs : List Value} (h : WritesEach is vs)
    (hdepth : (Value.array vs).nesting ≤ Json.Reader.maxDepth) :
    read? (Value.array vs).compact = some is := by
  have hlegible := Value.isLegible_array_iff.2 (isLegible_of_writesEach is h)
  rw [read?, Tree.read?_compact hlegible hdepth]
  exact ofTrees?_of_writesEach is h

end CascadeInclude

/-! ### Declared cascades -/

namespace Json.Value

mutual

/-- The value with every key of an object in it replaced. -/
def mapKeys (f : String → String) : Value → Value
  | .array items => .array (mapKeysOfItems f items)
  | .object members => .object (mapKeysOfMembers f members)
  | v => v
termination_by structural v => v

/-- The items with every key in them replaced. -/
def mapKeysOfItems (f : String → String) : List Value → List Value
  | [] => []
  | v :: vs => mapKeys f v :: mapKeysOfItems f vs
termination_by structural vs => vs

/-- The members with their keys, and every key in their values, replaced. -/
def mapKeysOfMembers (f : String → String) : List (String × Value) → List (String × Value)
  | [] => []
  | (k, v) :: ms => (f k, mapKeys f v) :: mapKeysOfMembers f ms
termination_by structural ms => ms

end

end Json.Value

namespace CascadeField

/-- The keys of a declared cascade as a store calls them. -/
def storeKey : String → String
  | "field" => "association"
  | "cascadeFields" => "include"
  | key => key

/-- Under their new names the two members of a declaration change places. -/
theorem ofList_renamed (items name : Value) :
    Entries.ofList [(storeKey "cascadeFields", items), (storeKey "field", name)] =
      [("association", name), ("include", items)] := by
  have hfields : storeKey "cascadeFields" = "include" := by decide
  have hfield : storeKey "field" = "association" := by decide
  have hne : "include" ≠ "association" := by decide
  have hlt : "association" < "include" := by decide
  rw [hfields, hfield, Entries.ofList, List.foldl_cons, List.foldl_cons, List.foldl_nil,
    Entries.insert, Entries.insert, if_neg hne, if_pos hlt]

mutual

/-- The form for the store is written as the declaration with its keys renamed. -/
theorem toValue_toInclude :
    (f : CascadeField) → f.toInclude.toValue = (f.toValue.mapKeys storeKey).canonical
  | .name _ => rfl
  | .nested _ none => rfl
  | .nested field (some fields) => by
    rw [toInclude, CascadeInclude.toValue, toValues_toIncludes fields]
    exact congrArg Value.object (ofList_renamed _ _).symm

theorem toValues_toIncludes : (fs : List CascadeField) →
    CascadeInclude.toValues (toIncludes fs) =
      Value.canonicalItems (Value.mapKeysOfItems storeKey (toValues fs))
  | [] => rfl
  | f :: fs => by
    rw [toIncludes, CascadeInclude.toValues, toValue_toInclude f, toValues_toIncludes fs]
    rfl

end

end CascadeField

/-- A node of an include tree is read as it has been written, at any depth and with its members in
any order, and so is a list of associations; their texts are read so too if they are not nested too
deep. The forms that a list of declarations has for the store are written as the declarations are,
with the two keys renamed throughout. -/
theorem include_forms_round_trip :
    (∀ node : IncludeNode,
      IncludeNode.ofTree? (Tree.ofValue node.toValue) = some node ∧
      node.Writes node.toValue ∧
      ∀ v, node.Writes v → IncludeNode.ofTree? (Tree.ofValue v) = some node ∧
        (v.nesting ≤ Json.Reader.maxDepth → IncludeNode.read? v.compact = some node)) ∧
    (∀ includes : List CascadeInclude,
      CascadeInclude.listOfTree? (Tree.ofValue (.array (CascadeInclude.toValues includes))) =
        some includes ∧
      CascadeInclude.WritesEach includes (CascadeInclude.toValues includes) ∧
      ∀ vs, CascadeInclude.WritesEach includes vs →
        CascadeInclude.listOfTree? (Tree.ofValue (.array vs)) = some includes ∧
        ((Value.array vs).nesting ≤ Json.Reader.maxDepth →
          CascadeInclude.read? (Value.array vs).compact = some includes)) ∧
    ∀ fields : List CascadeField,
      Value.array (CascadeInclude.toValues (CascadeField.toIncludes fields)) =
        ((Value.array (CascadeField.toValues fields)).mapKeys CascadeField.storeKey).canonical := by
  refine ⟨fun node => ⟨?_, node.writes_toValue, fun v h => ?_⟩,
    fun includes => ⟨?_, CascadeInclude.writesEach_toValues includes, fun vs h => ?_⟩,
    fun fields => ?_⟩
  · exact node.ofTree?_of_writes node.writes_toValue
  · exact ⟨node.ofTree?_of_writes h, IncludeNode.read?_of_writes h⟩
  · exact CascadeInclude.ofTrees?_of_writesEach includes
      (CascadeInclude.writesEach_toValues includes)
  · exact ⟨CascadeInclude.ofTrees?_of_writesEach includes h, CascadeInclude.read?_of_writesEach h⟩
  · exact congrArg Value.array (CascadeField.toValues_toIncludes fields)

/-- A company with its staff, written with the children before the flag, and a cascade that lists an
association called `field`, one with nothing further and one with an empty list. -/
theorem include_forms_round_trip_of_staff :
    let staff : IncludeNode := .mk (some "staff") (some (.these ["name"])) (some []) true
    let writtenStaff : Value := .object [("association", .string "staff"),
      ("attributes", .array [.string "name"]), ("include", .array []), ("duplicating", .bool true)]
    let node : IncludeNode := .mk (some "company") (some (.allBut ["tax"])) (some [staff]) false
    let written : Value := .object [("association", .string "company"),
      ("attributes", .object [("exclude", .array [.string "tax"])]),
      ("include", .array [writtenStaff]), ("duplicating", .bool false)]
    let fields : List CascadeField :=
      [.nested "staff" (some [.name "field", .nested "home" none]), .nested "tax" (some [])]
    let includes := CascadeField.toIncludes fields
    IncludeNode.read? written.compact = some node ∧
      CascadeInclude.read? (Value.array (CascadeInclude.toValues includes)).compact =
        some includes := by
  intro staff writtenStaff node written fields includes
  obtain ⟨hnodes, hincludes, -⟩ := include_forms_round_trip
  have hstaff : staff.Writes writtenStaff :=
    ⟨[], trivial, _, rfl, .cons _ (.cons _ (.swap _ _ _))⟩
  have hnode : node.Writes written :=
    ⟨[writtenStaff], ⟨hstaff, trivial⟩, _, rfl, .cons _ (.cons _ (.swap _ _ _))⟩
  exact ⟨((hnodes node).2.2 written hnode).2 (by decide),
    ((hincludes includes).2.2 _ (hincludes includes).2.1).2 (by decide)⟩

end RecordGuard
