import RecordGuard.Filter.Basic
import RecordGuard.Filter.Comparison
import RecordGuard.Filter.Like
import RecordGuard.Text.Lowercase

/-!
# Which documents a filter matches

A test looks only at what stands at its path (`Test.holds`). A comparison with a value that is no
array also holds of an array if it holds of one of its items. What is missing equals nothing, so
that the tests for inequality hold of it and the others do not; a missing value counts as null.
-/

namespace RecordGuard

open Json (Value)

/-- Whether the value that was found, or one of its items if it is an array and `value` is not,
compares with `value` as `test` says. -/
def someFound (test : Value → Value → Bool) (found : Option Value) (value : Value) : Bool :=
  match found with
  | none => false
  | some (.array items) =>
    if value.isArray then test (.array items) value else items.any fun item => test item value
  | some v => test v value

namespace Comparison

/-- Whether two values that have an order stand in it as `allowed` says. -/
def ordered (allowed : Ordering → Bool) (a b : Value) : Bool :=
  ((a.order? b).map allowed).getD false

/-- Whether the comparison holds of what was found. -/
def holds (found : Option Value) (value : Value) : Comparison → Bool
  | .eq => someFound Value.isEqual found value
  | .ne => !someFound Value.isEqual found value
  | .lt => someFound (ordered Ordering.isLT) found value
  | .le => someFound (ordered Ordering.isLE) found value
  | .gt => someFound (ordered Ordering.isGT) found value
  | .ge => someFound (ordered Ordering.isGE) found value

end Comparison

namespace Test

/-- Whether what was found is missing or null. -/
def isAbsent : Option Value → Bool
  | none => true
  | some v => v.isNull

/-- Whether the test holds of what stands at its path. -/
def holds (found : Option Value) : Test → Bool
  | .compare comparison value => comparison.holds found value
  | .oneOf values => values.any fun value => someFound Value.isEqual found value
  | .noneOf values => !values.any fun value => someFound Value.isEqual found value
  | .isNull => isAbsent found
  | .isNotNull => !isAbsent found
  | .like pattern =>
    match found with
    | some (.string s) => Like.isMatch pattern.toList s.toList
    | _ => false
  | .likeIgnoringCase pattern =>
    match found with
    | some (.string s) => Like.isMatch (Text.lowercase pattern.toList) (Text.lowercase s.toList)
    | _ => false

end Test

namespace Filter

mutual

/-- Whether the filter matches a document. -/
def isMatch (document : Value) : Filter → Bool
  | .field path test => test.holds (Path.get? document path)
  | .all filters => allMatch document filters
  | .any filters => anyMatch document filters
termination_by structural f => f

/-- Whether every filter matches. -/
def allMatch (document : Value) : List Filter → Bool
  | [] => true
  | f :: fs => isMatch document f && allMatch document fs
termination_by structural fs => fs

/-- Whether at least one filter matches. -/
def anyMatch (document : Value) : List Filter → Bool
  | [] => false
  | f :: fs => isMatch document f || anyMatch document fs
termination_by structural fs => fs

end

theorem allMatch_eq_all (document : Value) (fs : List Filter) :
    allMatch document fs = fs.all (isMatch document) := by
  induction fs with
  | nil => rfl
  | cons f fs ih => simp [allMatch, ih]

theorem anyMatch_eq_any (document : Value) (fs : List Filter) :
    anyMatch document fs = fs.any (isMatch document) := by
  induction fs with
  | nil => rfl
  | cons f fs ih => simp [anyMatch, ih]

/-- Whether a filter matches, if there is one; no filter matches every document. -/
def accepts (filter : Option Filter) (document : Value) : Bool :=
  match filter with
  | none => true
  | some f => f.isMatch document

end Filter

end RecordGuard
