import RecordGuard.Action

/-!
# Refusals

Why a guarded operation is not carried out, and how each cause is reported.
-/

namespace RecordGuard

/-- The cause of a refusal. -/
inductive GuardError where
  /-- The caller's roles grant nothing for the action. -/
  | accessDenied (entity : String) (action : Action)
  /-- A policy refers to an attribute that the caller does not have. -/
  | missingAttribute (name : String)
  /-- A text is the name of no action. -/
  | unknownAction (text : String)
  /-- A text is no policy. -/
  | malformedPolicy
  /-- The stored record could not be read back. -/
  | unreadable (reason : String)
  deriving DecidableEq

namespace GuardError

/-- The report of a refusal, where it has one of its own. -/
def message? : GuardError → Option String
  | .accessDenied entity action =>
    some ("Access is denied: cannot " ++ action.name ++ " " ++ entity)
  | .missingAttribute name =>
    some ("policy compilation error: missing identity attribute: " ++ name)
  | .unknownAction text => some ("invalid policy: unknown action: " ++ text)
  | .malformedPolicy => none
  | .unreadable reason => some ("store error: " ++ reason)

end GuardError

/-- The action that a text names in upper or lower case. -/
def Action.ofText (text : String) : Except GuardError Action :=
  let lower := String.ofList (text.toList.map Char.toLower)
  match Action.ofName? lower with
  | some action => .ok action
  | none => .error (.unknownAction lower)

end RecordGuard
