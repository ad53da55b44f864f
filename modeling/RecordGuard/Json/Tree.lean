import RecordGuard.Json.Value

/-!
# JSON as written

A tree is what a JSON text says before anything is made of it: members in the order in which they
are written, repeated keys included. A part that is well formed but stands for no value is
`unreadable`: a number beyond the doubles, text with half a surrogate pair, or a container nested
too deep. Such a part does no harm where nobody asks for it.

`value?` makes a document value of a tree, `ofValue` gives back the tree of a value.
-/

namespace RecordGuard.Json

/-- A JSON text, parsed. -/
inductive Tree where
  | null
  | bool (b : Bool)
  | number (n : Number)
  | string (s : String)
  | array (items : List Tree)
  | object (members : List (String × Tree))
  | unreadable

instance : Inhabited Tree := ⟨.null⟩

namespace Tree

mutual

/-- The value that a tree denotes, member for member; none if a part of it is unreadable. -/
def toValue? : Tree → Option Value
  | .null => some .null
  | .bool b => some (.bool b)
  | .number n => some (.number n)
  | .string s => some (.string s)
  | .array items => (toItems? items).map .array
  | .object members => (toMembers? members).map .object
  | .unreadable => none
termination_by structural t => t

/-- The values of all items. -/
def toItems? : List Tree → Option (List Value)
  | [] => some []
  | t :: ts => do return (← toValue? t) :: (← toItems? ts)
termination_by structural ts => ts

/-- The values of all members. -/
def toMembers? : List (String × Tree) → Option (List (String × Value))
  | [] => some []
  | (k, t) :: ms => do return (k, ← toValue? t) :: (← toMembers? ms)
termination_by structural ms => ms

end

/-- The document value of a tree. -/
def value? (t : Tree) : Option Value := t.toValue?.map Value.canonical

/-- Whether no part of the tree is unreadable. -/
def isReadable (t : Tree) : Bool := t.toValue?.isSome

mutual

/-- A value as it is written. -/
def ofValue : Value → Tree
  | .null => .null
  | .bool b => .bool b
  | .number n => .number n
  | .string s => .string s
  | .array items => .array (ofItems items)
  | .object members => .object (ofMembers members)
termination_by structural v => v

/-- Items as they are written. -/
def ofItems : List Value → List Tree
  | [] => []
  | v :: vs => ofValue v :: ofItems vs
termination_by structural vs => vs

/-- Members as they are written. -/
def ofMembers : List (String × Value) → List (String × Tree)
  | [] => []
  | (k, v) :: ms => (k, ofValue v) :: ofMembers ms
termination_by structural ms => ms

end

mutual

theorem toValue?_ofValue : (v : Value) → toValue? (ofValue v) = some v
  | .null => rfl
  | .bool _ => rfl
  | .number _ => rfl
  | .string _ => rfl
  | .array items => by simp [ofValue, toValue?, toItems?_ofItems items]
  | .object members => by simp [ofValue, toValue?, toMembers?_ofMembers members]

theorem toItems?_ofItems : (vs : List Value) → toItems? (ofItems vs) = some vs
  | [] => rfl
  | v :: vs => by simp [ofItems, toItems?, toValue?_ofValue v, toItems?_ofItems vs]

theorem toMembers?_ofMembers :
    (ms : List (String × Value)) → toMembers? (ofMembers ms) = some ms
  | [] => rfl
  | (k, v) :: ms => by simp [ofMembers, toMembers?, toValue?_ofValue v, toMembers?_ofMembers ms]

end

theorem isReadable_ofValue (v : Value) : (ofValue v).isReadable = true := by
  rw [isReadable, toValue?_ofValue]
  rfl

end Tree

end RecordGuard.Json
