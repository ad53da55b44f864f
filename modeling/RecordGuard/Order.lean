import RecordGuard.Filter.Comparison
import RecordGuard.Path
import RecordGuard.Sorting

/-!
# Sorting documents

Documents are compared by one key after the other until one tells them apart. Under a key, a
missing value comes before any other and values without an order tie; a descending key reverses all
of this. Ties with what has no order make the comparison intransitive on some documents, and on
these a sorter may give up.
-/

namespace RecordGuard

open Json (Value)

/-- Which way a key sorts. -/
inductive Direction where
  | ascending
  | descending
  deriving DecidableEq

/-- A key to sort by. -/
structure SortKey where
  field : String
  direction : Direction
  deriving DecidableEq

namespace SortKey

/-- The order of two values under a key, before its direction. -/
def compareFound : Option Value → Option Value → Ordering
  | some a, some b => (a.order? b).getD .eq
  | none, some _ => .lt
  | some _, none => .gt
  | none, none => .eq

/-- The order of two documents by one key. -/
protected def compare (key : SortKey) (a b : Value) : Ordering :=
  let ordering := compareFound (Path.get? a key.field) (Path.get? b key.field)
  match key.direction with
  | .ascending => ordering
  | .descending => ordering.swap

/-- The order of two documents by a list of keys. -/
def compareAll : List SortKey → Value → Value → Ordering
  | [], _, _ => .eq
  | key :: keys, a, b => (key.compare a b).then (compareAll keys a b)

/-- The documents in the order of the keys; none if the sorter gives up. -/
def sort (sorter : Sorter Value) (keys : List SortKey) (documents : List Value) :
    Option (List Value) :=
  match keys with
  | [] => some documents
  | keys => sorter.sort (compareAll keys) documents

/-- Sorting rearranges the documents. -/
theorem perm_sort {sorter : Sorter Value} {keys : List SortKey} {documents sorted : List Value}
    (h : sort sorter keys documents = some sorted) : sorted.Perm documents := by
  cases keys with
  | nil =>
    cases h
    exact .refl _
  | cons key keys => exact sorter.perm h

end SortKey

end RecordGuard
