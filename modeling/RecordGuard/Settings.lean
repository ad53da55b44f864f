import RecordGuard.Json.Record

/-!
# Settings of the guard

The names of the roles that stand above every policy, and the text that reserved keys start with.
-/

namespace RecordGuard

open Json (Value Tree Record)

/-- Roles whose access no policy restricts. -/
structure ReservedRoles where
  /-- The role that may do everything. -/
  admin : String := "ADMIN"
  /-- The role that may read everything. -/
  readAdmin : String := "ADMIN_READ"
  deriving DecidableEq

/-- Settings for every entity. -/
structure GuardSettings where
  /-- Keys that start with this text are never redacted or restored. -/
  reserved : String := "_"
  roles : ReservedRoles := {}
  deriving DecidableEq

namespace ReservedRoles

/-- Reserved roles in JSON. -/
def toValue (roles : ReservedRoles) : Value :=
  .object [("admin", .string roles.admin), ("read_admin", .string roles.readAdmin)]

/-- Reads reserved roles. -/
def ofTree? (t : Tree) : Option ReservedRoles := do
  let r ← Record.ofTree? ["admin", "read_admin"] t
  let default : ReservedRoles := {}
  let admin ← r.withDefault "admin" default.admin Tree.string?
  let readAdmin ← r.withDefault "read_admin" default.readAdmin Tree.string?
  return ⟨admin, readAdmin⟩

end ReservedRoles

namespace GuardSettings

/-- Settings in JSON. -/
def toValue (settings : GuardSettings) : Value :=
  .object [("reserved_prefix", .string settings.reserved),
    ("reserved_roles", settings.roles.toValue)]

/-- Reads settings. -/
def ofTree? (t : Tree) : Option GuardSettings := do
  let r ← Record.ofTree? ["reserved_prefix", "reserved_roles"] t
  let default : GuardSettings := {}
  let reserved ← r.withDefault "reserved_prefix" default.reserved Tree.string?
  let roles ← r.withDefault "reserved_roles" default.roles ReservedRoles.ofTree?
  return ⟨reserved, roles⟩

end GuardSettings

end RecordGuard
