import RecordGuard.Json.Printer
import RecordGuard.Json.Reader
import RecordGuard.Json.Record
import RecordGuard.Mask.Basic

/-!
# Masks in JSON

A mask is written as an object from paths to 0 or 1, in the order of its entries, and read from one
whose flags are 0, 1, true or false. A projection as a policy states it is the compact text of a
mask or such an object.

When a mask is read from text, each flag is judged as soon as it has been read: `read` reports the
first bad flag even when the text breaks off behind it.
-/

namespace RecordGuard

open Json (Value Tree Number)

namespace Mask

/-- Why a value is no flag. -/
inductive FlagError where
  | number (n : Number)
  | value (v : Value)

namespace FlagError

def message : FlagError → String
  | .number n => "mask value must be 0 or 1, got " ++ String.ofList n.text
  | .value v => "mask value must be 0, 1, true or false, got " ++ v.compact

end FlagError

/-- The flag that a value stands for. -/
def flag : Value → Except FlagError Bool
  | .bool b => .ok b
  | .number n =>
    match n.toInt64? with
    | some 0 => .ok false
    | some 1 => .ok true
    | _ => .error (.number n)
  | v => .error (.value v)

/-- A mask in JSON, in the order of its entries. -/
def toValue (mask : Mask) : Value :=
  .object (mask.entries.map fun entry => (entry.1, .integer (if entry.2 then 1 else 0)))

/-- The flag that a tree stands for. -/
def flag? (t : Tree) : Option Bool :=
  t.value?.bind fun v => (flag v).toOption

/-- Reads a mask. -/
def ofTree? : Tree → Option Mask
  | .object members =>
    (members.mapM fun member => (flag? member.2).map (member.1, ·)).map ofList
  | _ => none

/-- Why a text is no mask. -/
inductive ReadError where
  | malformed
  | flag (e : FlagError)

/-- The message of an error, where it has one of its own. -/
def ReadError.message? : ReadError → Option String
  | .malformed => none
  | .flag e => some e.message

/-- Judges members in the order in which they were read. -/
def ofMembers : List (Option String × Tree) → Except ReadError (List (String × Bool))
  | [] => .ok []
  | (key, t) :: rest =>
    match key, t.value? with
    | some key, some v =>
      match flag v with
      | .error e => .error (.flag e)
      | .ok included => (ofMembers rest).map fun flags => (key, included) :: flags
    | _, _ => .error .malformed

/-- Reads the text of a mask. -/
def read (text : String) : Except ReadError Mask :=
  match Json.Reader.skipBlanks text.toList with
  | '{' :: cs => do
    let members := Json.Reader.members (Json.Reader.steps cs) (Json.Reader.maxDepth - 1) cs
    let flags ← ofMembers members.found
    match members.rest with
    | some rest => if Json.Reader.isEnd rest then .ok (ofList flags) else .error .malformed
    | none => .error .malformed
  | _ => .error .malformed

end Mask

/-- A projection as a policy states it. -/
inductive Projection where
  | compact (text : String)
  | mask (entries : Mask)
  deriving DecidableEq

namespace Projection

/-- The mask of a projection. -/
def decode : Projection → Mask
  | .compact text => Mask.decode text
  | .mask entries => entries

/-- A projection in JSON. -/
def toValue : Projection → Value
  | .compact text => .string text
  | .mask entries => entries.toValue

/-- Reads a projection. -/
def ofTree? : Tree → Option Projection
  | .string text => some (.compact text)
  | t => (Mask.ofTree? t).map .mask

end Projection

end RecordGuard
