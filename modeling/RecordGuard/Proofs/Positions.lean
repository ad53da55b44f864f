import RecordGuard.Proofs.Canonical
import RecordGuard.Proofs.Equality

/-!
# Positions in a value

A position leads from a value to a value inside it: by the keys of members and the places of items.
`Value.at?` follows it, and equal values have equal values at every position (`agree_at?`). Only the
keys make the path of a position, so that all items of an array share the path of the array.
-/

namespace RecordGuard

/-- A step from a value to a value directly inside it. -/
inductive Step where
  /-- To the member under a key. -/
  | member (key : String)
  /-- To the item at a place. -/
  | item (place : Nat)
  deriving DecidableEq

/-- The steps from a value to a value inside it. -/
abbrev Position := List Step

namespace Position

/-- The keys on the way. -/
def keys : Position → List String
  | [] => []
  | .member key :: rest => key :: keys rest
  | .item _ :: rest => keys rest

@[simp] theorem keys_append (front back : Position) :
    keys (front ++ back) = keys front ++ keys back := by
  induction front with
  | nil => rfl
  | cons step front ih => cases step <;> simp [keys, ih]

/-- The last step is to a member. -/
def EndsInKey (position : Position) : Prop := ∃ front key, position = front ++ [.member key]

theorem not_endsInKey_nil : ¬EndsInKey [] := by
  rintro ⟨front, key, h⟩
  simp at h

theorem endsInKey_cons_iff {step : Step} {rest : Position} :
    EndsInKey (step :: rest) ↔ (rest = [] ∧ ∃ key, step = .member key) ∨ EndsInKey rest := by
  constructor
  · rintro ⟨front, key, h⟩
    cases front with
    | nil =>
      obtain ⟨rfl, rfl⟩ := List.cons.inj h
      exact Or.inl ⟨rfl, key, rfl⟩
    | cons first front => exact Or.inr ⟨front, key, (List.cons.inj h).2⟩
  · rintro (⟨rfl, key, rfl⟩ | ⟨front, key, rfl⟩)
    · exact ⟨[], key, rfl⟩
    · exact ⟨step :: front, key, rfl⟩

/-- The way along the first keys of a position is a first part of the position. -/
theorem exists_prefix_of_keys {position : Position} {front : List String}
    (h : front <+: position.keys) : ∃ part : Position, part <+: position ∧ part.keys = front := by
  induction position generalizing front with
  | nil => exact ⟨[], List.prefix_refl _, (List.prefix_nil.1 h).symm⟩
  | cons step rest ih =>
    cases step with
    | member key =>
      cases front with
      | nil => exact ⟨[], List.nil_prefix, rfl⟩
      | cons k front =>
        obtain ⟨rfl, hfront⟩ := List.cons_prefix_cons.1 h
        obtain ⟨part, hpart, rfl⟩ := ih hfront
        exact ⟨.member k :: part, (List.prefix_cons_inj _).2 hpart, rfl⟩
    | item place =>
      obtain ⟨part, hpart, rfl⟩ := ih h
      exact ⟨.item place :: part, (List.prefix_cons_inj _).2 hpart, rfl⟩

end Position

namespace Json.Value

/-- The item of an array at a place. -/
def item? (v : Value) (place : Nat) : Option Value :=
  v.items?.bind fun items => items[place]?

/-- The value at a position. -/
def at? : Value → Position → Option Value
  | v, [] => some v
  | v, .member key :: rest => (v.member? key).bind fun child => at? child rest
  | v, .item place :: rest => (v.item? place).bind fun child => at? child rest

@[simp] theorem at?_nil (v : Value) : v.at? [] = some v := rfl

theorem at?_member (v : Value) (key : String) (rest : Position) :
    v.at? (.member key :: rest) = (v.member? key).bind fun child => child.at? rest := rfl

theorem at?_item (v : Value) (place : Nat) (rest : Position) :
    v.at? (.item place :: rest) = (v.item? place).bind fun child => child.at? rest := rfl

theorem at?_append (v : Value) (front back : Position) :
    v.at? (front ++ back) = (v.at? front).bind fun found => found.at? back := by
  induction front generalizing v with
  | nil => rfl
  | cons step front ih =>
    cases step with
    | member key =>
      rw [List.cons_append, at?_member, at?_member, Option.bind_assoc]
      exact congrArg (Option.bind (v.member? key)) (funext ih)
    | item place =>
      rw [List.cons_append, at?_item, at?_item, Option.bind_assoc]
      exact congrArg (Option.bind (v.item? place)) (funext ih)

theorem isSome_at?_of_prefix {v : Value} {part position : Position} (h : part <+: position)
    (hv : (v.at? position).isSome) : (v.at? part).isSome := by
  obtain ⟨rest, rfl⟩ := h
  rw [at?_append] at hv
  exact Option.isSome_of_isSome_bind hv

theorem isCanonical_of_getElem? {vs : List Value} (h : ItemsCanonical vs) {place : Nat} {v : Value}
    (hv : vs[place]? = some v) : v.IsCanonical := by
  induction vs generalizing place with
  | nil => cases hv
  | cons w ws ih =>
    cases place with
    | zero =>
      cases hv
      exact h.1
    | succ place => exact ih h.2 hv

theorem IsCanonical.item? {v : Value} (h : v.IsCanonical) {place : Nat} {child : Value}
    (hchild : v.item? place = some child) : child.IsCanonical := by
  cases v with
  | array items => exact isCanonical_of_getElem? h hchild
  | _ => cases hchild

/-- Only objects and arrays have something inside them. -/
theorem isContainer_of_at? {v w : Value} {step : Step} {rest : Position}
    (h : v.at? (step :: rest) = some w) : v.isContainer = true := by
  cases v <;> cases step <;> first | rfl | cases h

/-- Two values are of one shape: the same scalar, arrays of one length, or objects. -/
def SameShape : Value → Value → Prop
  | .array items, w => ∃ others, w = .array others ∧ others.length = items.length
  | .object _, w => ∃ members, w = .object members
  | v, w => w = v

theorem sameShape_refl (v : Value) : v.SameShape v := by
  cases v with
  | array items => exact ⟨items, rfl, rfl⟩
  | object members => exact ⟨members, rfl⟩
  | _ => rfl

/-! ### Equal values -/

theorem agree_getElem?_of_sameItems {vs ws : List Value} (h : sameItems vs ws = true)
    (place : Nat) : agree vs[place]? ws[place]? = true := by
  induction vs generalizing ws place with
  | nil =>
    cases ws with
    | nil => rfl
    | cons w ws => cases h
  | cons v vs ih =>
    cases ws with
    | nil => cases h
    | cons w ws =>
      rw [sameItems, Bool.and_eq_true] at h
      cases place with
      | zero => exact h.1
      | succ place => exact ih h.2 place

theorem agree_item? {v w : Value} (h : v.same w = true) (place : Nat) :
    agree (v.item? place) (w.item? place) = true := by
  cases v <;> cases w <;> first | rfl | exact agree_getElem?_of_sameItems h place | cases h

/-- Equal values have equal values at every position. -/
theorem agree_at? {v w : Value} (h : v.same w = true) (position : Position) :
    agree (v.at? position) (w.at? position) = true := by
  induction position generalizing v w with
  | nil => exact h
  | cons step rest ih =>
    cases step with
    | member key => exact agree_bind (agree_member? h key) fun v w hsame => ih hsame
    | item place => exact agree_bind (agree_item? h place) fun v w hsame => ih hsame

end Json.Value

end RecordGuard
