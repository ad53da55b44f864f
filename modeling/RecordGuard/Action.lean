/-!
# Actions

The four things that a caller may be allowed to do with the records of an entity.
-/

namespace RecordGuard

/-- What a permission is about. -/
inductive Action where
  | create
  | read
  | update
  | delete
  deriving DecidableEq

namespace Action

/-- Every action, in the order in which permissions are listed. -/
def all : List Action := [.create, .read, .update, .delete]

/-- The name of an action. -/
def name : Action → String
  | .create => "create"
  | .read => "read"
  | .update => "update"
  | .delete => "delete"

/-- The action of a name. -/
def ofName? : String → Option Action
  | "create" => some .create
  | "read" => some .read
  | "update" => some .update
  | "delete" => some .delete
  | _ => none

theorem ofName?_name (a : Action) : ofName? a.name = some a := by
  cases a <;> rfl

end Action

end RecordGuard
