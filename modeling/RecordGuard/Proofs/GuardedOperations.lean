import RecordGuard.Guarded
import RecordGuard.Proofs.Masks

/-!
# What guarded operations do

The rows of a permission are the records it `covers`; a hook conjoins this condition to the
caller's filter, so that an operation acts on the records that both accept (`accepts_conjoin`,
`accepts_filter`, `accepts_narrowed`). `after_scopeQuery`, `after_beforeSave` and
`after_beforeUpdate` say what a hook makes of the pending operation, and `find_eq`, `findOne_eq`,
`update_eq`, `remove_eq` and `save_eq` what the operation behind it then does.
-/

namespace RecordGuard

open Json (Value)

/-! ### Conditions put together -/

namespace Filter

theorem accepts_conjoin (f g : Option Filter) (document : Value) :
    accepts (conjoin f g) document = (accepts f document && accepts g document) := by
  cases f with
  | none => cases g <;> rfl
  | some f =>
    cases g with
    | none => exact (Bool.and_true _).symm
    | some g => simp [conjoin, accepts, isMatch, allMatch]

theorem accepts_anyOf (filters : List Filter) (document : Value) :
    accepts (anyOf filters) document =
      (filters.isEmpty || filters.any fun f => f.isMatch document) := by
  cases filters with
  | nil => rfl
  | cons f rest =>
    cases rest with
    | nil => simp [anyOf, accepts]
    | cons g fs => simp [anyOf, accepts, isMatch, anyMatch_eq_any]

theorem conjoin_none_right (f : Option Filter) : conjoin f none = f := by cases f <;> rfl

end Filter

namespace Permission

/-- Whether a record lies in the rows of a permission: it matches one of the filters, if there are
any. -/
def covers (permission : Permission) (document : Value) : Bool :=
  permission.filters.isEmpty || permission.filters.any fun f => f.isMatch document

theorem accepts_filter (permission : Permission) (document : Value) :
    Filter.accepts permission.filter document = permission.covers document :=
  Filter.accepts_anyOf permission.filters document

/-- A mask of a scope that has entries is its projection. -/
theorem projection_of_isEmpty {scope : Scope} {mask : Mask} (h : scope.projection = some mask)
    (hne : mask.isEmpty = false) : (Permission.scoped scope).projection = some mask := by
  rw [projection, h, Option.filter_some, hne]
  rfl

theorem projection_scoped {scope : Scope} {mask : Mask} (h : scope.projection = some mask)
    (hx : mask.isExclusive) : (Permission.scoped scope).projection = some mask :=
  projection_of_isEmpty h (Mask.isEmpty_eq_false hx)

theorem isEmpty_of_projection {permission : Permission} {mask : Mask}
    (h : permission.projection = some mask) : mask.isEmpty = false := by
  rcases permission with _ | _ | scope
  · cases h
  · cases h
  · simpa using (Option.filter_eq_some_iff.1 h).2

end Permission

theorem Resolver.require_eq_ok_iff {resolver : Resolver} {identity : Option Identity}
    {action : Action} {permission : Permission} :
    resolver.require identity action = .ok permission ↔
      resolver.resolve identity action = .ok permission ∧ permission ≠ .denied := by
  rw [require]
  cases resolver.resolve identity action with
  | error e =>
    constructor
    · intro h
      cases h
    · rintro ⟨h, -⟩
      cases h
  | ok found =>
    cases found with
    | denied =>
      constructor
      · intro h
        cases h
      · rintro ⟨h, hne⟩
        cases h
        exact absurd rfl hne
    | _ =>
      constructor
      · intro h
        cases h
        exact ⟨rfl, Permission.noConfusion⟩
      · exact fun h => h.1

/-! ### Hooks -/

namespace Hooks

theorem filter_narrowed (permission : Permission) (query : Query) :
    (narrowed permission query).filter = Filter.conjoin query.filter permission.filter := by
  have hrestrict : (query.restrict permission.filters).filter =
      Filter.conjoin query.filter permission.filter := by
    rw [Query.restrict, Permission.filter]
    cases Filter.anyOf permission.filters with
    | none => exact (Filter.conjoin_none_right _).symm
    | some f => rfl
  rw [← hrestrict, narrowed]
  cases permission.projection <;> rfl

theorem accepts_narrowed (permission : Permission) (query : Query) (document : Value) :
    Filter.accepts (narrowed permission query).filter document =
      (Filter.accepts query.filter document && permission.covers document) := by
  rw [filter_narrowed, Filter.accepts_conjoin, Permission.accepts_filter]

theorem selection_narrowed (permission : Permission) (filter : Option Filter) :
    (narrowed permission ⟨filter, none⟩).selection = permission.projection.map .ofMask := by
  have hrestrict : ((⟨filter, none⟩ : Query).restrict permission.filters).selection = none := by
    rw [Query.restrict]
    cases Filter.anyOf permission.filters <;> rfl
  rw [narrowed]
  cases permission.projection with
  | none => exact hrestrict
  | some mask =>
    dsimp only [Query.select]
    rw [hrestrict]
    rfl

/-- A hook that asks for a permission goes on with it, or is refused before it has changed
anything. -/
theorem run_permit_bind (hooks : Hooks Id) (identity : Option Identity) (action : Action)
    {σ α : Type} (f : Permission → HookM Id σ α) (pending : σ) :
    (hooks.permit identity action >>= f).run.run pending =
      match hooks.resolver.require identity action with
      | .ok permission => (f permission).run.run pending
      | .error e => (.error e, pending) := by
  rw [permit]
  cases hooks.resolver.require identity action <;> rfl

theorem run_readBack_bind (hooks : Hooks Id) (filter : Option Filter) {σ α : Type}
    (f : Option Value → HookM Id σ α) (pending : σ) :
    (hooks.readBack filter >>= f).run.run pending =
      match hooks.reader filter with
      | .ok stored => (f stored).run.run pending
      | .error e => (.error e, pending) := by
  have hrun : (hooks.readBack filter >>= f).run.run pending =
      (ExceptT.bindCont f (hooks.reader filter)).run pending := rfl
  rw [hrun]
  cases hooks.reader filter <;> rfl

/-- An update with its filter narrowed to a permission and its payload restored from the record
that is read back, if anything has to be restored. -/
theorem run_beforeUpdate (hooks : Hooks Id) (identity : Option Identity) (filter : Option Filter)
    (update : Value) :
    (hooks.beforeUpdate identity).run.run ⟨filter, update⟩ =
      match hooks.resolver.require identity .update with
      | .ok permission =>
        match permission.projection with
        | none => (.ok (), ⟨Filter.conjoin filter permission.filter, update⟩)
        | some mask =>
          match hooks.reader filter with
          | .ok stored => (.ok (), ⟨Filter.conjoin filter permission.filter,
              (mask.restore hooks.reserved update stored).1⟩)
          | .error e => (.error e, ⟨Filter.conjoin filter permission.filter, update⟩)
      | .error e => (.error e, ⟨filter, update⟩) := by
  rw [beforeUpdate, run_permit_bind]
  cases hooks.resolver.require identity .update with
  | error e => rfl
  | ok permission =>
    dsimp only
    cases permission.projection with
    | none =>
      cases permission.filter with
      | none =>
        rw [Filter.conjoin_none_right]
        rfl
      | some f => rfl
    | some mask =>
      -- what is left to do once the filter has been narrowed
      let rest : Option Value → HookM Id UpdateQuery Unit := fun stored => modify fun query =>
        { query with update := (mask.restore hooks.reserved query.update stored).1 }
      refine Eq.trans (b := (hooks.readBack filter >>= rest).run.run
        ⟨Filter.conjoin filter permission.filter, update⟩) ?_ ?_
      · cases permission.filter with
        | none =>
          rw [Filter.conjoin_none_right]
          rfl
        | some f => rfl
      · rw [run_readBack_bind]
        cases hooks.reader filter <;> rfl

end Hooks

/-- The record that is read back for an update. None is read if nothing has to be restored. -/
def Collection.recordFor (c : Collection) (permission : Permission) (filter : Option Filter) :
    Except CollectionError (Option Value) :=
  match permission.projection with
  | some _ => c.findOne filter none
  | none => .ok none

theorem Collection.recordFor_cases {c : Collection} {permission : Permission}
    {filter : Option Filter} {stored : Option Value}
    (h : c.recordFor permission filter = .ok stored) :
    permission.projection = none ∧ stored = none ∨ c.findOne filter none = .ok stored := by
  rw [recordFor] at h
  cases hmask : permission.projection with
  | none =>
    rw [hmask] at h
    cases h
    exact Or.inl ⟨rfl, rfl⟩
  | some mask =>
    rw [hmask] at h
    exact Or.inr h

namespace Guard

variable (guard : Guard) (c : Collection) (identity : Option Identity)

theorem after_scopeQuery (action : Action) (query : Query) :
    after ((guard.hooks c).scopeQuery identity action) query =
      match guard.resolver.require identity action with
      | .ok permission => .ok (Hooks.narrowed permission query)
      | .error e => .error (.guard e) := by
  rw [after, Hooks.scopeQuery, Hooks.run_permit_bind, hooks]
  cases guard.resolver.require identity action <;> rfl

/-- A new document as it is after its hook. -/
def creatable (permission : Permission) (document : Value) : Value :=
  match permission.projection with
  | some mask => mask.redact guard.reserved document
  | none => document

theorem creatable_eq {permission : Permission} {mask : Mask}
    (h : permission.projection = some mask) (document : Value) :
    guard.creatable permission document = mask.stripValue guard.reserved "" document := by
  rw [creatable, h]
  dsimp only
  rw [Mask.redact, Mask.strip, Permission.isEmpty_of_projection h, if_neg Bool.false_ne_true]

theorem after_beforeSave (document : Value) :
    after ((guard.hooks c).beforeSave identity) document =
      match guard.resolver.require identity .create with
      | .ok permission => .ok (guard.creatable permission document)
      | .error e => .error (.guard e) := by
  rw [after, Hooks.beforeSave, Hooks.run_permit_bind, hooks]
  dsimp only
  cases guard.resolver.require identity .create with
  | error e => rfl
  | ok permission =>
    dsimp only
    rw [creatable]
    cases permission.projection <;> rfl

/-- A payload as it is after its hook, with the record that is read back for it. -/
def writable (permission : Permission) (stored : Option Value) (payload : Value) : Value :=
  match permission.projection with
  | some mask => (mask.restore guard.reserved payload stored).1
  | none => payload

theorem writable_eq {permission : Permission} {mask : Mask}
    (h : permission.projection = some mask) (stored : Option Value) (payload : Value) :
    guard.writable permission stored payload =
      mask.restoreValue guard.reserved "" stored payload := by
  rw [writable, h]
  dsimp only
  rw [Mask.restore, Permission.isEmpty_of_projection h, if_neg Bool.false_ne_true]

theorem after_beforeUpdate (query : UpdateQuery) :
    after ((guard.hooks c).beforeUpdate identity) query =
      match guard.resolver.require identity .update with
      | .ok permission =>
        match c.recordFor permission query.filter with
        | .ok stored => .ok ⟨Filter.conjoin query.filter permission.filter,
            guard.writable permission stored query.update⟩
        | .error e => .error (.guard (.unreadable e.message))
      | .error e => .error (.guard e) := by
  obtain ⟨filter, update⟩ := query
  rw [after, Hooks.run_beforeUpdate, hooks]
  dsimp only
  cases guard.resolver.require identity .update with
  | error e => rfl
  | ok permission =>
    dsimp only [Collection.recordFor, writable]
    cases permission.projection with
    | none => rfl
    | some mask => cases c.findOne filter none <;> rfl

/-! ### Operations -/

/-- The guard of an entity whose policy has one role, under the default settings. -/
def ofRole (entity role : String) (rules : RoleRules) : Guard :=
  ofSettings entity (some (Policy.empty.withRole role rules)) {}

theorem find_eq (filter : Option Filter) (sort : List SortKey) (limit : Option Nat) :
    guard.find c identity filter sort limit =
      match guard.resolver.require identity .read with
      | .ok permission =>
        let query := Hooks.narrowed permission ⟨filter, none⟩
        (c.find query.filter
          { selection := query.selection, sort := sort, limit := limit }).mapError .collection
      | .error e => .error (.guard e) := by
  rw [find, Hooks.beforeFind, after_scopeQuery]
  cases guard.resolver.require identity .read <;> rfl

theorem findOne_eq (filter : Option Filter) (selection : Option Selection) :
    guard.findOne c identity filter selection =
      match guard.resolver.require identity .read with
      | .ok permission =>
        let query := Hooks.narrowed permission ⟨filter, selection⟩
        (c.findOne query.filter query.selection).mapError .collection
      | .error e => .error (.guard e) := by
  rw [findOne, Hooks.beforeFind, after_scopeQuery]
  cases guard.resolver.require identity .read <;> rfl

theorem update_eq (filter : Option Filter) (payload : Value) :
    guard.update c identity filter payload =
      match guard.resolver.require identity .update with
      | .ok permission =>
        match c.recordFor permission filter with
        | .ok stored =>
          (c.updateOne (Filter.conjoin filter permission.filter)
            (guard.writable permission stored payload)).mapError .collection
        | .error e => .error (.guard (.unreadable e.message))
      | .error e => .error (.guard e) := by
  rw [update, after_beforeUpdate]
  cases guard.resolver.require identity .update with
  | error e => rfl
  | ok permission =>
    dsimp only
    cases c.recordFor permission filter <;> rfl

theorem remove_eq (filter : Option Filter) :
    guard.remove c identity filter =
      match guard.resolver.require identity .delete with
      | .ok permission =>
        (c.deleteOne (Filter.conjoin filter permission.filter)).mapError .collection
      | .error e => .error (.guard e) := by
  rw [remove, Hooks.beforeDelete, after_scopeQuery]
  cases guard.resolver.require identity .delete with
  | error e => rfl
  | ok permission =>
    show (c.deleteOne (Hooks.narrowed permission ⟨filter, none⟩).filter).mapError _ = _
    rw [Hooks.filter_narrowed]

theorem save_eq (document : Value) :
    guard.save c identity document =
      match guard.resolver.require identity .create with
      | .ok permission =>
        (c.insert (guard.creatable permission document)).mapError .collection
      | .error e => .error (.guard e) := by
  rw [save, after_beforeSave]
  cases guard.resolver.require identity .create <;> rfl

end Guard

end RecordGuard
