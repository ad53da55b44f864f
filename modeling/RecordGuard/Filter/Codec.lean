import RecordGuard.Filter.Basic
import RecordGuard.Json.Reader
import RecordGuard.Json.Record

/-!
# Filters in JSON

A filter is written as an object with one member: the name of the test over a record of its field
and what the field is tested for, or `and` or `or` over a list of filters. `toValue` writes a
filter, `ofTree?` reads one.
-/

namespace RecordGuard

open Json (Value Tree Record)

namespace Comparison

/-- The name of a comparison in JSON. -/
def name : Comparison → String
  | .eq => "eq"
  | .ne => "ne"
  | .lt => "lt"
  | .le => "le"
  | .gt => "gt"
  | .ge => "ge"

/-- The comparison of a name. -/
def ofName? : String → Option Comparison
  | "eq" => some .eq
  | "ne" => some .ne
  | "lt" => some .lt
  | "le" => some .le
  | "gt" => some .gt
  | "ge" => some .ge
  | _ => none

theorem ofName?_name (c : Comparison) : ofName? c.name = some c := by
  cases c <;> rfl

end Comparison

namespace Test

/-- The name of a test in JSON. -/
def name : Test → String
  | .compare comparison _ => comparison.name
  | .oneOf _ => "in"
  | .noneOf _ => "not_in"
  | .isNull => "is_null"
  | .isNotNull => "is_not_null"
  | .like _ => "like"
  | .likeIgnoringCase _ => "i_like"

/-- The member of a test's record beside its field. -/
def operand : Test → List (String × Value)
  | .compare _ value => [("value", value)]
  | .oneOf values => [("values", .array values)]
  | .noneOf values => [("values", .array values)]
  | .isNull => []
  | .isNotNull => []
  | .like pattern => [("pattern", .string pattern)]
  | .likeIgnoringCase pattern => [("pattern", .string pattern)]

/-- Reads a record of a field and an operand of the given name. -/
def withOperand? {α : Type} (key : String) (read : Tree → Option α) (test : α → Test)
    (body : Tree) : Option Filter := do
  let r ← Record.ofTree? ["field", key] body
  let path ← r.required "field" Tree.string?
  let operand ← r.required key read
  return .field path (test operand)

/-- Reads a record of a field alone. -/
def withoutOperand? (test : Test) (body : Tree) : Option Filter := do
  let r ← Record.ofTree? ["field"] body
  let path ← r.required "field" Tree.string?
  return .field path test

/-- Reads the test of a name. -/
def ofNamed? (name : String) (body : Tree) : Option Filter :=
  match Comparison.ofName? name with
  | some comparison => withOperand? "value" Tree.value? (.compare comparison) body
  | none =>
    match name with
    | "in" => withOperand? "values" (Tree.list? Tree.value?) .oneOf body
    | "not_in" => withOperand? "values" (Tree.list? Tree.value?) .noneOf body
    | "is_null" => withoutOperand? .isNull body
    | "is_not_null" => withoutOperand? .isNotNull body
    | "like" => withOperand? "pattern" Tree.string? .like body
    | "i_like" => withOperand? "pattern" Tree.string? .likeIgnoringCase body
    | _ => none

end Test

namespace Filter

mutual

/-- A filter in JSON. -/
def toValue : Filter → Value
  | .field path test => .object [(test.name, .object (("field", .string path) :: test.operand))]
  | .all filters => .object [("and", .array (toValues filters))]
  | .any filters => .object [("or", .array (toValues filters))]
termination_by structural f => f

/-- Filters in JSON. -/
def toValues : List Filter → List Value
  | [] => []
  | f :: fs => toValue f :: toValues fs
termination_by structural fs => fs

end

mutual

/-- Reads a filter. -/
def ofTree? : Tree → Option Filter
  | .object [(name, .array items)] =>
    match name with
    | "and" => (ofTrees? items).map .all
    | "or" => (ofTrees? items).map .any
    | name => Test.ofNamed? name (.array items)
  | .object [(name, body)] => Test.ofNamed? name body
  | _ => none
termination_by structural t => t

/-- Reads each filter of a list. -/
def ofTrees? : List Tree → Option (List Filter)
  | [] => some []
  | t :: ts => do return (← ofTree? t) :: (← ofTrees? ts)
termination_by structural ts => ts

end

/-- Reads the text of a filter. -/
def read? (text : String) : Option Filter := (Tree.read? text).bind ofTree?

end Filter

end RecordGuard
