import RecordGuard.Word

/-!
# Identifiers

A generated identifier is the time of its generation and a running number, sixteen hexadecimal
digits each, so that identifiers sort in the order of their generation as long as the clock does not
go back.
-/

namespace RecordGuard

/-- The member that holds a document's identifier, unless the settings name another one. -/
def defaultIdField : String := "_id"

/-- Sixteen hexadecimal digits of a number. -/
def hexWord (n : Nat) : List Char :=
  let digits := Nat.toDigits 16 (n % Word.limit64)
  List.replicate (16 - digits.length) '0' ++ digits

/-- A source of identifiers. -/
structure IdSource where
  /-- The time at which the identifier of each running number is generated, in nanoseconds. -/
  clock : Nat → Nat
  /-- How many identifiers have been generated. -/
  drawn : Nat

namespace IdSource

/-- A source that has generated nothing yet, with a clock that stands still. -/
def still (time : Nat) : IdSource := ⟨fun _ => time, 0⟩

/-- The identifier with the given running number. -/
def nth (source : IdSource) (n : Nat) : String :=
  String.ofList (hexWord (source.clock n) ++ hexWord n)

/-- The next identifier. -/
def next (source : IdSource) : String := source.nth source.drawn

/-- The source after one identifier has been taken. -/
def advance (source : IdSource) : IdSource := { source with drawn := source.drawn + 1 }

end IdSource

end RecordGuard
