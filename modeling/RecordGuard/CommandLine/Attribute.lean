import RecordGuard.Json.Reader

/-!
# Attributes on the command line

An attribute of the caller is given as `key=value`. The value is read as JSON where it is JSON, and
is text otherwise.
-/

namespace RecordGuard.CommandLine

open Json (Value)

/-- Why a text is no attribute. -/
inductive AttributeError where
  | missingEquals (text : String)
  | emptyKey (text : String)
  deriving DecidableEq

/-- The report of an error. -/
def AttributeError.message : AttributeError → String
  | .missingEquals text => "invalid attribute '" ++ text ++ "': expected key=value"
  | .emptyKey text => "invalid attribute '" ++ text ++ "': empty key"

/-- Reads an attribute. -/
def readAttribute (text : String) : Except AttributeError (String × Value) :=
  match text.toList.dropWhile (· ≠ '=') with
  | [] => .error (.missingEquals text)
  | _ :: value =>
    match text.toList.takeWhile (· ≠ '=') with
    | [] => .error (.emptyKey text)
    | key =>
      let value := String.ofList value
      .ok (String.ofList key, (Value.read? value).getD (.string value))

end RecordGuard.CommandLine
