import RecordGuard.Path

/-!
# Filters

A filter is a condition on a document: a test of the value at one dotted path, or a list of filters
of which all, or at least one, have to hold. Filters of callers and of permissions are of one type
and are put together with `anyOf`, `allOf` and `conjoin`, which add no list around a single filter.
-/

namespace RecordGuard

open Json (Value)

/-- How a value is compared with a fixed one. -/
inductive Comparison where
  | eq
  | ne
  | lt
  | le
  | gt
  | ge
  deriving DecidableEq

/-- A test of what stands at a path. -/
inductive Test where
  | compare (comparison : Comparison) (value : Value)
  | oneOf (values : List Value)
  | noneOf (values : List Value)
  | isNull
  | isNotNull
  | like (pattern : String)
  | likeIgnoringCase (pattern : String)

/-- A condition on documents. -/
inductive Filter where
  | field (path : String) (test : Test)
  | all (filters : List Filter)
  | any (filters : List Filter)

namespace Filter

/-- The field has the value. -/
def eq (path : String) (value : Value) : Filter := .field path (.compare .eq value)

/-- At least one of the filters; none for no filter at all. -/
def anyOf : List Filter → Option Filter
  | [] => none
  | [f] => some f
  | f :: g :: fs => some (.any (f :: g :: fs))

/-- All of the filters; none for no filter at all. -/
def allOf : List Filter → Option Filter
  | [] => none
  | [f] => some f
  | f :: g :: fs => some (.all (f :: g :: fs))

/-- Both filters, as far as they are there. -/
def conjoin : Option Filter → Option Filter → Option Filter
  | some f, some g => some (.all [f, g])
  | some f, none => some f
  | none, g => g

mutual

/-- Moves every path that is `source`, or lies below it, to `target`. -/
def rename (source target : String) : Filter → Filter
  | .field path test => .field (Path.rename source target path) test
  | .all filters => .all (renameEach source target filters)
  | .any filters => .any (renameEach source target filters)
termination_by structural f => f

/-- Renames in each of the filters. -/
def renameEach (source target : String) : List Filter → List Filter
  | [] => []
  | f :: fs => rename source target f :: renameEach source target fs
termination_by structural fs => fs

end

mutual

/-- The paths that the filter tests, as they are mentioned. -/
def mentions : Filter → List String
  | .field path _ => [path]
  | .all filters => mentionsOfEach filters
  | .any filters => mentionsOfEach filters
termination_by structural f => f

/-- The paths that the filters test, as they are mentioned. -/
def mentionsOfEach : List Filter → List String
  | [] => []
  | f :: fs => mentions f ++ mentionsOfEach fs
termination_by structural fs => fs

end

/-- The paths that the filter tests, in order and without repeats. -/
def fields (f : Filter) : List String :=
  Entries.keys (Entries.ofList (f.mentions.map fun path => (path, ())))

end Filter

end RecordGuard
