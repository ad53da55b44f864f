import RecordGuard.Mask.Codec
import RecordGuard.Template

/-!
# Policies

A policy gives each role a rule for each action: a flag, or a scope that restricts which records
and which of their fields the role may touch. A rule that is missing is the same as one that says
false.

`toValue` writes a policy in JSON, as far as no scope computes its filter in code, and `read` reads
the text of one.
-/

namespace RecordGuard

open Json (Value Tree Record)

/-- Which records a scope covers. -/
inductive RowScope where
  | template (t : Template)
  /-- The filter is computed from the caller. -/
  | computed (filter : Identity → Filter)

/-- The filter of a row scope for a caller. -/
def RowScope.resolve (identity : Identity) : RowScope → Except GuardError Filter
  | .template t => t.resolve identity
  | .computed filter => .ok (filter identity)

/-- A restriction to records and fields. -/
structure ScopedRule where
  rows : Option RowScope
  projection : Option Projection

/-- What a role may do under one action. -/
inductive Rule where
  | flag (granted : Bool)
  | scoped (rule : ScopedRule)

/-- The rules of a role. -/
structure RoleRules where
  create : Option Rule
  read : Option Rule
  update : Option Rule
  delete : Option Rule

namespace RoleRules

/-- No rule for any action. -/
def empty : RoleRules := ⟨none, none, none, none⟩

/-- The rule for an action. -/
def rule? (rules : RoleRules) : Action → Option Rule
  | .create => rules.create
  | .read => rules.read
  | .update => rules.update
  | .delete => rules.delete

/-- Sets the rule for an action. -/
def set (rules : RoleRules) (action : Action) (rule : Rule) : RoleRules :=
  match action with
  | .create => { rules with create := some rule }
  | .read => { rules with read := some rule }
  | .update => { rules with update := some rule }
  | .delete => { rules with delete := some rule }

end RoleRules

/-- The rules of every role. -/
structure Policy where
  roles : Entries RoleRules

namespace Policy

/-- A policy without roles. -/
def empty : Policy := ⟨[]⟩

/-- Sets the rules of a role. -/
def withRole (policy : Policy) (role : String) (rules : RoleRules) : Policy :=
  ⟨Entries.insert policy.roles role rules⟩

/-- The rule of a role for an action. -/
def rule? (policy : Policy) (role : String) (action : Action) : Option Rule :=
  (Entries.get? policy.roles role).bind fun rules => rules.rule? action

end Policy

/-! ## In JSON -/

/-- Why a policy cannot be written. -/
inductive PolicyWriteError where
  | computedRows
  deriving DecidableEq

def PolicyWriteError.message : PolicyWriteError → String
  | .computedRows => "dynamic where clauses cannot be serialized"

namespace ScopedRule

/-- A scope in JSON. -/
def toValue (rule : ScopedRule) : Except PolicyWriteError Value := do
  let rows ←
    match rule.rows with
    | none => pure []
    | some (.template t) => pure [("where", t.toValue)]
    | some (.computed _) => throw .computedRows
  let projection :=
    match rule.projection with
    | none => []
    | some p => [("projection", p.toValue)]
  return .object (rows ++ projection)

/-- Reads a scope. -/
def ofTree? (t : Tree) : Option ScopedRule := do
  let r ← Record.ofTree? ["where", "projection"] t
  let rows ← r.optional "where" fun t => (Template.ofTree? t).map .template
  let projection ← r.optional "projection" Projection.ofTree?
  return ⟨rows, projection⟩

end ScopedRule

namespace Rule

/-- A rule in JSON. -/
def toValue : Rule → Except PolicyWriteError Value
  | .flag granted => .ok (.bool granted)
  | .scoped rule => rule.toValue

/-- Reads a rule. All of it has to be readable, also what is not asked for. -/
def ofTree? : Tree → Option Rule
  | .bool granted => some (.flag granted)
  | t => if t.isReadable then (ScopedRule.ofTree? t).map .scoped else none

end Rule

namespace RoleRules

/-- The rules of a role in JSON. -/
def toValue (rules : RoleRules) : Except PolicyWriteError Value := do
  let members ← Action.all.mapM fun action =>
    match rules.rule? action with
    | none => pure []
    | some rule => do return [(action.name, ← rule.toValue)]
  return .object members.flatten

/-- Reads the rules of a role. -/
def ofTree? : Tree → Option RoleRules
  | .object members => do
    let rules ← members.mapM fun member => do
      return (← Action.ofName? member.1, ← Rule.ofTree? member.2)
    return rules.foldl (fun rules rule => rules.set rule.1 rule.2) empty
  | _ => none

end RoleRules

namespace Policy

/-- A policy in JSON. -/
def toValue (policy : Policy) : Except PolicyWriteError Value := do
  let members ← policy.roles.mapM fun role => do return (role.1, ← role.2.toValue)
  return .object members

/-- Reads a policy. -/
def ofTree? (t : Tree) : Option Policy :=
  (t.entries? RoleRules.ofTree?).map Policy.mk

/-- Reads the text of a policy. -/
def read (text : String) : Except GuardError Policy :=
  match (Tree.read? text).bind ofTree? with
  | some policy => .ok policy
  | none => .error .malformedPolicy

end Policy

end RecordGuard
