import RecordGuard.Entries
import RecordGuard.Json.Number

/-!
# JSON values

A value is a tree of scalars, arrays and objects. A *document* value is canonical: the members of
every object stand in the order of their keys and no key stands twice, so that two documents with
the same content are the same tree. `canonical` brings any value into this form
(`isCanonical_canonical`), the last of several members with one key winning. Values that are only
written, such as a mask in the order of its entries, need not be canonical.

`same` is the equality of values. It differs from the equality of trees in one point: the two zeros
of doubles are the same.
-/

namespace RecordGuard.Json

/-- A JSON value. -/
inductive Value where
  | null
  | bool (b : Bool)
  | number (n : Number)
  | string (s : String)
  | array (items : List Value)
  | object (members : List (String × Value))

instance : Inhabited Value := ⟨.null⟩

namespace Value

/-- An integer value. -/
def integer (n : Int) : Value := .number (.integer n)

def isNull : Value → Bool
  | .null => true
  | _ => false

def isArray : Value → Bool
  | .array _ => true
  | _ => false

def isObject : Value → Bool
  | .object _ => true
  | _ => false

/-- Whether the value can hold other values. -/
def isContainer (v : Value) : Bool := v.isArray || v.isObject

/-- The members of an object. -/
def members? : Value → Option (Entries Value)
  | .object members => some members
  | _ => none

/-- The items of an array. -/
def items? : Value → Option (List Value)
  | .array items => some items
  | _ => none

/-- The member of an object under a key. -/
def member? (v : Value) (key : String) : Option Value :=
  v.members?.bind fun members => Entries.get? members key

mutual

/-- Equality of values: member by member, item by item, numbers of one kind by what they denote. -/
def same : Value → Value → Bool
  | .null, .null => true
  | .bool a, .bool b => a == b
  | .number a, .number b => a.beq b
  | .string a, .string b => a == b
  | .array a, .array b => sameItems a b
  | .object a, .object b => sameMembers a b
  | _, _ => false
termination_by structural v => v

/-- Equality of lists of items. -/
def sameItems : List Value → List Value → Bool
  | [], [] => true
  | v :: vs, w :: ws => same v w && sameItems vs ws
  | _, _ => false
termination_by structural vs => vs

/-- Equality of lists of members. -/
def sameMembers : List (String × Value) → List (String × Value) → Bool
  | [], [] => true
  | (k, v) :: ms, (l, w) :: ns => k == l && same v w && sameMembers ms ns
  | _, _ => false
termination_by structural ms => ms

end

instance : BEq Value := ⟨same⟩

mutual

/-- The same content with the members of every object in the order of their keys. -/
def canonical : Value → Value
  | .array items => .array (canonicalItems items)
  | .object members => .object (Entries.ofList (canonicalMembers members))
  | v => v
termination_by structural v => v

/-- Brings every item into canonical form. -/
def canonicalItems : List Value → List Value
  | [] => []
  | v :: vs => canonical v :: canonicalItems vs
termination_by structural vs => vs

/-- Brings the value of every member into canonical form. -/
def canonicalMembers : List (String × Value) → List (String × Value)
  | [] => []
  | (k, v) :: ms => (k, canonical v) :: canonicalMembers ms
termination_by structural ms => ms

end

mutual

/-- Every object in the value has its members in strictly increasing order of keys. -/
def IsCanonical : Value → Prop
  | .array items => ItemsCanonical items
  | .object members => Entries.Ordered members ∧ MembersCanonical members
  | _ => True
termination_by structural v => v

/-- Every item is canonical. -/
def ItemsCanonical : List Value → Prop
  | [] => True
  | v :: vs => IsCanonical v ∧ ItemsCanonical vs
termination_by structural vs => vs

/-- The value of every member is canonical. -/
def MembersCanonical : List (String × Value) → Prop
  | [] => True
  | (_, v) :: ms => IsCanonical v ∧ MembersCanonical ms
termination_by structural ms => ms

end

theorem membersCanonical_iff {members : List (String × Value)} :
    MembersCanonical members ↔ ∀ member ∈ members, IsCanonical member.2 := by
  induction members with
  | nil => simp [MembersCanonical]
  | cons member members ih => simp [MembersCanonical, ih]

mutual

theorem isCanonical_canonical : (v : Value) → IsCanonical v.canonical
  | .null => trivial
  | .bool _ => trivial
  | .number _ => trivial
  | .string _ => trivial
  | .array items => itemsCanonical_canonicalItems items
  | .object members =>
    ⟨Entries.ordered_ofList _, membersCanonical_iff.2 fun _ h =>
      membersCanonical_iff.1 (membersCanonical_canonicalMembers members) _ (Entries.mem_ofList h)⟩

theorem itemsCanonical_canonicalItems : (vs : List Value) → ItemsCanonical (canonicalItems vs)
  | [] => trivial
  | v :: vs => ⟨isCanonical_canonical v, itemsCanonical_canonicalItems vs⟩

theorem membersCanonical_canonicalMembers :
    (ms : List (String × Value)) → MembersCanonical (canonicalMembers ms)
  | [] => trivial
  | (_, v) :: ms => ⟨isCanonical_canonical v, membersCanonical_canonicalMembers ms⟩

end

end Value

end RecordGuard.Json
