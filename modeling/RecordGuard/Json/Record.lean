import RecordGuard.Json.Tree

/-!
# Records in JSON

A record is written as an object that names its fields, where unknown members are ignored and a
known one may stand once only, or as an array of its fields in the order of their declaration,
where fields at the end may be left out if they have a default.

`Record` holds the fields that are there; `required`, `withDefault`, `optional` and `nullable` read
one of them, each with its own rule for a field that is missing.
-/

namespace RecordGuard.Json

namespace Tree

def string? : Tree → Option String
  | .string s => some s
  | _ => none

def bool? : Tree → Option Bool
  | .bool b => some b
  | _ => none

/-- An integer from 0 up to, but not including, `limit`. -/
def natBelow? (limit : Nat) : Tree → Option Nat
  | .number n => n.toNat?.filter (fun k => decide (k < limit))
  | _ => none

/-- The items of an array, each read by `read`. -/
def list? {α : Type} (read : Tree → Option α) : Tree → Option (List α)
  | .array items => items.mapM read
  | _ => none

/-- The members of an object, each value read by `read`; of members with one key the last stays. -/
def entries? {α : Type} (read : Tree → Option α) : Tree → Option (Entries α)
  | .object members =>
    (members.mapM fun member => (read member.2).map (member.1, ·)).map Entries.ofList
  | _ => none

/-- The only member of an object. -/
def tagged? : Tree → Option (String × Tree)
  | .object [member] => some member
  | _ => none

/-- A name on its own: as text, or as the only key of an object that holds null. -/
def name? : Tree → Option String
  | .string s => some s
  | .object [(s, .null)] => some s
  | _ => none

/-- What `read` makes of the tree, and nothing for null. -/
def orNull? {α : Type} (read : Tree → Option α) : Tree → Option (Option α)
  | .null => some none
  | t => (read t).map some

end Tree

/-- The fields of a record as they stand in a tree. -/
structure Record where
  fields : List (String × Tree)
  /-- The fields were told apart by their place. -/
  positional : Bool

namespace Record

/-- The named fields among the members of an object; none if one of them stands twice. -/
def ofMembers? (names : List String) (members : List (String × Tree)) : Option Record :=
  let known := members.filter fun member => names.contains member.1
  if (known.map Prod.fst).Nodup then some ⟨known, false⟩ else none

/-- A record that is written as an object. -/
def ofObject? (names : List String) : Tree → Option Record
  | .object members => ofMembers? names members
  | _ => none

/-- A record that is written as an object or as an array. -/
def ofTree? (names : List String) : Tree → Option Record
  | .object members => ofMembers? names members
  | .array items => if items.length ≤ names.length then some ⟨names.zip items, true⟩ else none
  | _ => none

/-- The field of a name, if it is there. -/
def get? (r : Record) (name : String) : Option Tree :=
  (r.fields.find? fun field => field.1 == name).map Prod.snd

variable {α : Type}

/-- A field that has to be there. -/
def required (r : Record) (name : String) (read : Tree → Option α) : Option α :=
  (r.get? name).bind read

/-- A field that stands for `fallback` when it is missing. -/
def withDefault (r : Record) (name : String) (fallback : α) (read : Tree → Option α) : Option α :=
  match r.get? name with
  | some t => read t
  | none => some fallback

/-- A field that may be null or missing. -/
def optional (r : Record) (name : String) (read : Tree → Option α) : Option (Option α) :=
  match r.get? name with
  | some t => t.orNull? read
  | none => some none

/-- A field that may be null, and missing from an object but not from an array. -/
def nullable (r : Record) (name : String) (read : Tree → Option α) : Option (Option α) :=
  match r.get? name with
  | some t => t.orNull? read
  | none => if r.positional then none else some none

end Record

end RecordGuard.Json
