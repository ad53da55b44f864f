import RecordGuard.Json.Reader

/-!
# Values read back from their text

A value that is kept as text comes back by reading the text. Everything comes back as it was except
doubles: the reader rounds the significand of a decimal and then its scaling by a power of ten, so
that a double can come back as one of its neighbours, and once more when it is written and read
again. `readBack` is what comes back, if the text can be read. It changes no key, so a canonical
value stays canonical (`isCanonical_readBack`).
-/

namespace RecordGuard.Json

/-- What the text of a number is read as; none if the number is too large. -/
def Number.reread? (n : Number) : Option Number :=
  (Reader.numberText n.text).bind fun read => read.1.value?

/-- What comes back when the text of a number is read. -/
def Number.readBack (n : Number) : Number := n.reread?.getD n

namespace Value

/-- Whatever is read is canonical. -/
theorem isCanonical_of_read? {text : String} {v : Value} (h : read? text = some v) :
    v.IsCanonical := by
  obtain ⟨t, -, hv⟩ := Option.bind_eq_some_iff.1 h
  obtain ⟨w, -, rfl⟩ := Option.map_eq_some_iff.1 hv
  exact isCanonical_canonical w

mutual

/-- What comes back when the text of a value is read, if it can be read. -/
def readBack : Value → Value
  | .number n => .number n.readBack
  | .array items => .array (readBackItems items)
  | .object members => .object (readBackMembers members)
  | v => v
termination_by structural v => v

/-- What comes back of every item. -/
def readBackItems : List Value → List Value
  | [] => []
  | v :: vs => readBack v :: readBackItems vs
termination_by structural vs => vs

/-- What comes back of every member, under its key. -/
def readBackMembers : List (String × Value) → List (String × Value)
  | [] => []
  | (k, v) :: ms => (k, readBack v) :: readBackMembers ms
termination_by structural ms => ms

end

theorem readBackMembers_eq_map (ms : List (String × Value)) :
    readBackMembers ms = ms.map fun m => (m.1, m.2.readBack) := by
  induction ms with
  | nil => rfl
  | cons m ms ih => simp [readBackMembers, ih]

theorem ordered_readBackMembers {ms : List (String × Value)} (h : Entries.Ordered ms) :
    Entries.Ordered (readBackMembers ms) := by
  rw [readBackMembers_eq_map]
  exact List.pairwise_map.2 h

mutual

theorem isCanonical_readBack : (v : Value) → IsCanonical v → IsCanonical v.readBack
  | .null, _ => trivial
  | .bool _, _ => trivial
  | .number _, _ => trivial
  | .string _, _ => trivial
  | .array items, h => itemsCanonical_readBackItems items h
  | .object members, h =>
    ⟨ordered_readBackMembers h.1, membersCanonical_readBackMembers members h.2⟩

theorem itemsCanonical_readBackItems :
    (vs : List Value) → ItemsCanonical vs → ItemsCanonical (readBackItems vs)
  | [], _ => trivial
  | v :: vs, h => ⟨isCanonical_readBack v h.1, itemsCanonical_readBackItems vs h.2⟩

theorem membersCanonical_readBackMembers :
    (ms : List (String × Value)) → MembersCanonical ms → MembersCanonical (readBackMembers ms)
  | [], _ => trivial
  | (_, v) :: ms, h => ⟨isCanonical_readBack v h.1, membersCanonical_readBackMembers ms h.2⟩

end

end Value

end RecordGuard.Json
