import RecordGuard.Policy.Basic
import RecordGuard.Settings

/-!
# Permissions

A permission is what a caller may do under one action: everything, nothing, or what lies in a scope
of filters and a mask. `Permission.resolve` combines the rules of the caller's roles in their order:
a role that grants ends the matter, a role without a rule throws away what came before it, and a
scoped role widens the scope by its filter and merges its mask. A scoped role without a filter
leaves no filter in the scope. Without a caller the call is trusted.
-/

namespace RecordGuard

open Json (Value)

/-- A restriction to records that match one of the filters, if there are any, and to the fields of
a mask. -/
structure Scope where
  filters : List Filter
  projection : Option Mask

/-- What a caller may do under one action. -/
inductive Permission where
  | granted
  | denied
  | scoped (scope : Scope)

namespace Permission

/-- The word for the kind of a permission. -/
def kind : Permission → String
  | .granted => "granted"
  | .denied => "denied"
  | .scoped _ => "scoped"

/-- The filters of the scope. -/
def filters : Permission → List Filter
  | .scoped scope => scope.filters
  | _ => []

/-- The condition on records. -/
def filter (p : Permission) : Option Filter := Filter.anyOf p.filters

/-- The mask of the scope; a mask without entries counts as none. -/
def projection : Permission → Option Mask
  | .scoped scope => scope.projection.filter fun mask => !mask.isEmpty
  | _ => none

/-- A permission in JSON. -/
def toValue : Permission → Value
  | .granted => .bool true
  | .denied => .bool false
  | .scoped scope =>
    .object (
      (match scope.projection with
        | some mask => [("projection", mask.toValue)]
        | none => []) ++
      (if scope.filters.isEmpty then []
        else [("where", .array (scope.filters.map Filter.toValue))]))

/-- The scope collected so far. -/
def scope : Permission → Scope
  | .scoped scope => scope
  | _ => ⟨[], none⟩

/-- The scope with a scoped rule added to it. -/
def addScope (p : Permission) (rule : ScopedRule) (identity : Identity) :
    Except GuardError Permission := do
  let filters ←
    match rule.rows with
    | some rows => do pure (p.scope.filters ++ [← rows.resolve identity])
    | none => pure []
  let before := p.scope.projection.getD Mask.empty
  let mask :=
    match rule.projection with
    | some projection => before.merge projection.decode
    | none => before
  return .scoped ⟨filters, if mask.isEmpty then none else some mask⟩

/-- Whether a reserved role grants an action. -/
def isReservedGrant (reserved : ReservedRoles) (action : Action) (role : String) : Bool :=
  role == reserved.admin || (action == .read && role == reserved.readAdmin)

/-- What a role makes of the permission of the roles before it. -/
def addRole (policy : Option Policy) (reserved : ReservedRoles) (identity : Identity)
    (action : Action) (p : Permission) (role : String) : Except GuardError Permission :=
  match p with
  | .granted => .ok .granted
  | p =>
    if isReservedGrant reserved action role then .ok .granted
    else
      match policy.bind fun policy => policy.rule? role action with
      | some (.flag true) => .ok .granted
      | some (.flag false) => .ok .denied
      | none => .ok .denied
      | some (.scoped rule) => p.addScope rule identity

/-- The permission of a caller for an action. -/
def resolve (policy : Option Policy) (reserved : ReservedRoles) (identity : Option Identity)
    (action : Action) : Except GuardError Permission :=
  match identity with
  | none => .ok .granted
  | some identity => identity.roles.foldlM (addRole policy reserved identity action) .denied

end Permission

/-- The permissions of a caller for every action. -/
structure PermissionSet where
  create : Permission
  read : Permission
  update : Permission
  delete : Permission

/-- The permission for an action. -/
def PermissionSet.get (permissions : PermissionSet) : Action → Permission
  | .create => permissions.create
  | .read => permissions.read
  | .update => permissions.update
  | .delete => permissions.delete

/-- The policy of one entity and the roles that stand above it. -/
structure Resolver where
  entity : String
  policy : Option Policy
  reserved : ReservedRoles

namespace Resolver

variable (resolver : Resolver)

/-- The permission of a caller for an action. -/
def resolve (identity : Option Identity) (action : Action) : Except GuardError Permission :=
  Permission.resolve resolver.policy resolver.reserved identity action

/-- The permission of a caller for an action; a denial is a refusal. -/
def require (identity : Option Identity) (action : Action) : Except GuardError Permission := do
  match ← resolver.resolve identity action with
  | .denied => throw (.accessDenied resolver.entity action)
  | permission => return permission

/-- The permissions of a caller for every action. -/
def resolveAll (identity : Option Identity) : Except GuardError PermissionSet := do
  let create ← resolver.resolve identity .create
  let read ← resolver.resolve identity .read
  let update ← resolver.resolve identity .update
  let delete ← resolver.resolve identity .delete
  return ⟨create, read, update, delete⟩

end Resolver

end RecordGuard
