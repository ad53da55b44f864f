import RecordGuard.Filter.Evaluation
import RecordGuard.Proofs.ExternalNames
import RecordGuard.Proofs.Rounding

/-!
# The paths that a filter tests

A filter looks at a document under the paths of its tests and nowhere else: two documents with equal
values there are both matched or both not (`isMatch_congr`). A test cannot tell equal values apart,
also where it orders them (`order?_congr`).

`Path.Moves` is the map of paths that a renaming stands for and `Filter.IsMoved` says that two
filters differ in their paths alone. A renamed filter is the one filter whose paths are moved
(`isMoved_iff`), so that its fields are the moved fields (`mem_fields_rename`).
-/

namespace RecordGuard

open Json (Number Value)
open Json.Value (agree)

/-! ### Tests of equal values -/

namespace Json

theorem Double.compare_congr {a b : Double} (h : a.compare b = .eq) (d : Double) :
    a.compare d = b.compare d := by
  rw [compare_eq, compare_eq_iff_eq] at h
  rw [compare_eq, compare_eq, h]

theorem Number.compare_congr {m n : Number} (h : m.beq n = true) (l : Number) :
    m.compare l = n.compare l := by
  cases m <;> cases n <;> simp only [Number.beq, beq_iff_eq, Bool.false_eq_true] at h
  · rw [h]
  · exact Double.compare_congr h l.toDouble

namespace Value

variable {v w : Value}

/-- Values that are equal but not one tree are numbers, arrays or objects. -/
theorem same_cases (h : v.same w = true) :
    v = w ∨ (∃ m n, v = .number m ∧ w = .number n ∧ m.beq n = true) ∨
      (∃ items others, v = .array items ∧ w = .array others ∧ sameItems items others = true) ∨
      ∃ members others, v = .object members ∧ w = .object others := by
  cases v <;> cases w <;> try cases h
  case null => exact Or.inl rfl
  case bool b c => exact Or.inl (congrArg Value.bool (beq_iff_eq.1 h))
  case number m n => exact Or.inr (Or.inl ⟨m, n, rfl, rfl, h⟩)
  case string s t => exact Or.inl (congrArg Value.string (beq_iff_eq.1 h))
  case array items others => exact Or.inr (Or.inr (Or.inl ⟨items, others, rfl, rfl, h⟩))
  case object members others => exact Or.inr (Or.inr (Or.inr ⟨members, others, rfl, rfl⟩))

theorem same_congr (h : v.same w = true) (u : Value) : v.same u = w.same u :=
  Bool.eq_iff_iff.2 ⟨same_trans (same_symm h), same_trans h⟩

theorem order?_congr (h : v.same w = true) (u : Value) : v.order? u = w.order? u := by
  obtain rfl | ⟨m, n, rfl, rfl, hmn⟩ | ⟨_, _, rfl, rfl, -⟩ | ⟨_, _, rfl, rfl⟩ := same_cases h
  · rfl
  · cases u with
    | number l => rw [order?, order?, Number.compare_congr hmn]
    | _ => rfl
  · rfl
  · rfl

theorem isEqual_congr (h : v.same w = true) (u : Value) : v.isEqual u = w.isEqual u := by
  obtain rfl | ⟨m, n, rfl, rfl, hmn⟩ | ⟨_, _, rfl, rfl, -⟩ | ⟨_, _, rfl, rfl⟩ := same_cases h
  · rfl
  · cases u with
    | number l => rw [isEqual, isEqual, Number.compare_congr hmn]
    | _ => rfl
  · exact same_congr h u
  · exact same_congr h u

theorem isNull_congr (h : v.same w = true) : v.isNull = w.isNull := by
  obtain rfl | ⟨_, _, rfl, rfl, -⟩ | ⟨_, _, rfl, rfl, -⟩ | ⟨_, _, rfl, rfl⟩ := same_cases h <;> rfl

/-- What holds alike of equal items holds of an item in two lists of equal items alike. -/
theorem any_congr {p : Value → Bool} (hp : ∀ v w, v.same w = true → p v = p w)
    {vs ws : List Value} (h : sameItems vs ws = true) : vs.any p = ws.any p := by
  induction vs generalizing ws with
  | nil =>
    cases ws with
    | nil => rfl
    | cons w ws => cases h
  | cons v vs ih =>
    cases ws with
    | nil => cases h
    | cons w ws =>
      rw [sameItems, Bool.and_eq_true] at h
      rw [List.any_cons, List.any_cons, hp v w h.1, ih h.2]

end Value

end Json

section Tests

variable {v w : Value}

theorem Comparison.ordered_congr (allowed : Ordering → Bool) (h : v.same w = true) (u : Value) :
    ordered allowed v u = ordered allowed w u := by
  rw [ordered, ordered, Value.order?_congr h]

theorem someFound_congr {test : Value → Value → Bool}
    (htest : ∀ v w, v.same w = true → ∀ u, test v u = test w u) (h : v.same w = true) (u : Value) :
    someFound test (some v) u = someFound test (some w) u := by
  obtain rfl | ⟨_, _, rfl, rfl, -⟩ | ⟨_, _, rfl, rfl, hitems⟩ | ⟨_, _, rfl, rfl⟩ :=
    Value.same_cases h
  · rfl
  · exact htest _ _ h u
  · rw [someFound, someFound, htest _ _ h,
      Value.any_congr (fun v w hvw => htest v w hvw u) hitems]
  · exact htest _ _ h u

theorem Comparison.holds_congr (h : v.same w = true) (u : Value) (c : Comparison) :
    c.holds (some v) u = c.holds (some w) u := by
  have hequal := someFound_congr (fun _ _ => Value.isEqual_congr) h u
  have hordered (allowed : Ordering → Bool) :=
    someFound_congr (fun _ _ => ordered_congr allowed) h u
  cases c with
  | eq => exact hequal
  | ne => rw [holds, holds, hequal]
  | lt => exact hordered _
  | le => exact hordered _
  | gt => exact hordered _
  | ge => exact hordered _

namespace Test

theorem holds_congr_some (h : v.same w = true) (test : Test) :
    test.holds (some v) = test.holds (some w) := by
  have hequal (u : Value) := someFound_congr (fun _ _ => Value.isEqual_congr) h u
  cases test with
  | compare c value => exact Comparison.holds_congr h value c
  | oneOf values => simp only [holds, hequal]
  | noneOf values => simp only [holds, hequal]
  | isNull => exact Value.isNull_congr h
  | isNotNull => exact congrArg (!·) (Value.isNull_congr h)
  | like pattern =>
    obtain rfl | ⟨_, _, rfl, rfl, -⟩ | ⟨_, _, rfl, rfl, -⟩ | ⟨_, _, rfl, rfl⟩ :=
      Value.same_cases h <;> rfl
  | likeIgnoringCase pattern =>
    obtain rfl | ⟨_, _, rfl, rfl, -⟩ | ⟨_, _, rfl, rfl, -⟩ | ⟨_, _, rfl, rfl⟩ :=
      Value.same_cases h <;> rfl

/-- A test cannot tell equal values apart. -/
theorem holds_congr {found other : Option Value} (h : agree found other = true) (test : Test) :
    test.holds found = test.holds other := by
  cases found with
  | none =>
    cases other with
    | none => rfl
    | some w => cases h
  | some v =>
    obtain ⟨w, rfl, hsame⟩ := Value.agree_some_left h
    exact holds_congr_some hsame test

end Test

end Tests

/-! ### The fields of a filter -/

namespace Filter

theorem mem_fields_iff {f : Filter} {path : String} : path ∈ f.fields ↔ path ∈ f.mentions := by
  rw [fields, Entries.mem_keys_ofList, Entries.keys, List.map_map]
  exact iff_of_eq (congrArg (path ∈ ·) (List.map_id f.mentions))

variable {document other : Value}

mutual

/-- Documents with equal values under the paths that a filter mentions are matched alike. -/
theorem isMatch_congr :
    (f : Filter) →
      (∀ path ∈ f.mentions,
        agree (Path.get? document path) (Path.get? other path) = true) →
      f.isMatch document = f.isMatch other
  | .field path test, h => Test.holds_congr (h path List.mem_cons_self) test
  | .all filters, h => allMatch_congr filters h
  | .any filters, h => anyMatch_congr filters h

theorem allMatch_congr :
    (fs : List Filter) →
      (∀ path ∈ mentionsOfEach fs,
        agree (Path.get? document path) (Path.get? other path) = true) →
      allMatch document fs = allMatch other fs
  | [], _ => rfl
  | f :: fs, h => by
    obtain ⟨hf, hfs⟩ := List.forall_mem_append.1 h
    rw [allMatch, allMatch, isMatch_congr f hf, allMatch_congr fs hfs]

theorem anyMatch_congr :
    (fs : List Filter) →
      (∀ path ∈ mentionsOfEach fs,
        agree (Path.get? document path) (Path.get? other path) = true) →
      anyMatch document fs = anyMatch other fs
  | [], _ => rfl
  | f :: fs, h => by
    obtain ⟨hf, hfs⟩ := List.forall_mem_append.1 h
    rw [anyMatch, anyMatch, isMatch_congr f hf, anyMatch_congr fs hfs]

end

end Filter

/-! ### Moved paths -/

/-- The map of paths that takes the source to the target and keeps what is behind it. -/
inductive Path.Moves (source target : String) : String → String → Prop
  | itself : Moves source target source target
  | below (rest : String) : Moves source target (source ++ "." ++ rest) (target ++ "." ++ rest)
  | apart {path : String} :
    path ≠ source → (∀ rest, path ≠ source ++ "." ++ rest) → Moves source target path path

/-- Renaming a path is what the map does. -/
theorem Path.moves_iff {source target path moved : String} :
    Moves source target path moved ↔ rename source target path = moved := by
  constructor
  · rintro (_ | rest | ⟨hne, hapart⟩)
    · exact rename_self source target
    · exact rename_append source target rest
    · refine rename_of_apart hne (fun hbelow => ?_) target
      obtain ⟨rest, hrest⟩ := isBelow_iff_append.1 hbelow
      exact hapart rest hrest
  · rintro rfl
    by_cases heq : path = source
    · subst heq
      rw [rename_self]
      exact .itself
    by_cases hbelow : isBelow path source = true
    · obtain ⟨rest, rfl⟩ := isBelow_iff_append.1 hbelow
      rw [rename_append]
      exact .below rest
    · rw [rename_of_apart heq hbelow]
      exact .apart heq fun rest hrest => hbelow (isBelow_iff_append.2 ⟨rest, hrest⟩)

namespace Filter

/-- Two filters of one shape and with the same tests, with the paths of the one taken to the paths
of the other. -/
inductive IsMoved (moves : String → String → Prop) : Filter → Filter → Prop
  | field {path moved : String} (test : Test) :
    moves path moved → IsMoved moves (.field path test) (.field moved test)
  | all {filters others : List Filter} :
    List.Forall₂ (IsMoved moves) filters others → IsMoved moves (.all filters) (.all others)
  | any {filters others : List Filter} :
    List.Forall₂ (IsMoved moves) filters others → IsMoved moves (.any filters) (.any others)

variable {source target : String}

mutual

theorem isMoved_rename :
    (f : Filter) → IsMoved (Path.Moves source target) f (f.rename source target)
  | .field _ test => .field test (Path.moves_iff.2 rfl)
  | .all filters => .all (isMoved_renameEach filters)
  | .any filters => .any (isMoved_renameEach filters)

theorem isMoved_renameEach :
    (fs : List Filter) →
      List.Forall₂ (IsMoved (Path.Moves source target)) fs (renameEach source target fs)
  | [] => .nil
  | f :: fs => .cons (isMoved_rename f) (isMoved_renameEach fs)

end

mutual

theorem rename_eq_of_isMoved :
    (f : Filter) → {g : Filter} → IsMoved (Path.Moves source target) f g →
      f.rename source target = g
  | .field _ _, _, .field _ hmoves => by rw [rename, Path.moves_iff.1 hmoves]
  | .all filters, _, .all h => by rw [rename, renameEach_eq_of_isMoved filters h]
  | .any filters, _, .any h => by rw [rename, renameEach_eq_of_isMoved filters h]

theorem renameEach_eq_of_isMoved :
    (fs : List Filter) → {gs : List Filter} →
      List.Forall₂ (IsMoved (Path.Moves source target)) fs gs → renameEach source target fs = gs
  | [], _, .nil => rfl
  | f :: fs, _, .cons h hs => by
    rw [renameEach, rename_eq_of_isMoved f h, renameEach_eq_of_isMoved fs hs]

end

/-- The renamed filter is the filter of the same shape and the same tests with the paths moved. -/
theorem isMoved_iff {f g : Filter} :
    IsMoved (Path.Moves source target) f g ↔ f.rename source target = g :=
  ⟨rename_eq_of_isMoved f, fun h => h ▸ isMoved_rename f⟩

mutual

theorem mentions_rename :
    (f : Filter) → (f.rename source target).mentions = f.mentions.map (Path.rename source target)
  | .field _ _ => rfl
  | .all filters => mentionsOfEach_renameEach filters
  | .any filters => mentionsOfEach_renameEach filters

theorem mentionsOfEach_renameEach :
    (fs : List Filter) →
      mentionsOfEach (renameEach source target fs) =
        (mentionsOfEach fs).map (Path.rename source target)
  | [] => rfl
  | f :: fs => by
    rw [renameEach, mentionsOfEach, mentionsOfEach, List.map_append, mentions_rename f,
      mentionsOfEach_renameEach fs]

end

theorem mem_fields_rename {f : Filter} {moved : String} :
    moved ∈ (f.rename source target).fields ↔
      ∃ path ∈ f.fields, Path.Moves source target path moved := by
  rw [mem_fields_iff, mentions_rename, List.mem_map]
  simp only [mem_fields_iff, Path.moves_iff]

/-- Documents with equal values under the fields of a filter are both matched by it or both not.
Renaming takes every path to one path: the source to the target, with what is behind it kept, and
each other path to itself. The fields of the renamed filter are what its fields are taken to, and
nothing else about the filter changes. -/
theorem fields_support_and_move (f : Filter) :
    (∀ document other : Value,
      (∀ path ∈ f.fields, agree (Path.get? document path) (Path.get? other path) = true) →
        f.isMatch document = f.isMatch other) ∧
    ∀ source target : String,
      (∀ path, ∃! moved, Path.Moves source target path moved) ∧
      (∀ moved, moved ∈ (f.rename source target).fields ↔
        ∃ path ∈ f.fields, Path.Moves source target path moved) ∧
      ∀ g, IsMoved (Path.Moves source target) f g ↔ f.rename source target = g := by
  refine ⟨fun document other h => ?_, fun source target => ⟨fun path => ?_, fun moved => ?_,
    fun g => isMoved_iff⟩⟩
  · exact isMatch_congr f fun path hpath => h path (mem_fields_iff.2 hpath)
  · exact ⟨_, Path.moves_iff.2 rfl, fun moved hmoves => (Path.moves_iff.1 hmoves).symm⟩
  · exact mem_fields_rename

/-- Two documents that differ in a name, which no test looks at, are matched alike. Where the store
calls the identifier `_id`, the test below it is moved along. -/
theorem fields_support_and_move_of_identifier :
    let f : Filter := .all [.eq "id" (.integer 7),
      .any [.eq "id" (.integer 8), .eq "identity" (.integer 1)], .field "id.sub" .isNull]
    let anna : Value := .object
      [("id", .integer 7), ("identity", .integer 1), ("name", .string "Anna")]
    let bill : Value := .object
      [("id", .integer 7), ("identity", .integer 1), ("name", .string "Bill")]
    f.isMatch anna = f.isMatch bill ∧ f.isMatch anna = true ∧
      "_id.sub" ∈ (f.rename "id" "_id").fields := by
  intro f anna bill
  refine ⟨(fields_support_and_move f).1 anna bill (by decide +kernel), by decide +kernel, ?_⟩
  exact (((fields_support_and_move f).2 "id" "_id").2.1 "_id.sub").2
    ⟨"id.sub", by decide +kernel, .below "sub"⟩

end Filter

end RecordGuard
