import RecordGuard.Proofs.GuardedOperations

/-!
# What a failed hook leaves behind

A hook works on the pending operation in place. The hooks of searching, removing and saving are
atomic, as nothing in them can fail after the permission is known. The hook of updating narrows the
filter before it reads the stored record back: when the reading fails, the filter stays narrowed
(`failed_beforeUpdate_iff`), whereas the payload is untouched.

The reader is any function of a world that it may change, so that it can fail at one time and
succeed at another.
-/

namespace RecordGuard

open Json (Value)

namespace Filter

/-- A condition put to a filter is never lost in it. -/
theorem conjoin_eq_left_iff (f g : Option Filter) : conjoin f g = f ↔ g = none := by
  constructor
  · intro h
    cases g with
    | none => rfl
    | some g =>
      cases f with
      | none => cases h
      | some f =>
        have hsize : sizeOf (Filter.all [f, g]) = sizeOf f := congrArg sizeOf (Option.some.inj h)
        simp only [Filter.all.sizeOf_spec, List.cons.sizeOf_spec] at hsize
        omega
  · rintro rfl
    exact conjoin_none_right f

end Filter

namespace Hooks

variable {World : Type}

/-- A hook on a pending operation in a world. -/
def outcome {σ : Type} (hook : HookM (StateM World) σ Unit) (pending : σ) (world : World) :
    (Except GuardError Unit × σ) × World :=
  (hook.run.run pending).run world

/-- When the hook fails, the pending operation is as it was. -/
def IsAtomic {σ : Type} (hook : HookM (StateM World) σ Unit) : Prop :=
  ∀ pending world error pending' world',
    outcome hook pending world = ((.error error, pending'), world') → pending' = pending

variable (hooks : Hooks (StateM World)) (identity : Option Identity)

/-- A hook that asks for a permission goes on with it, or is refused before it has changed
anything. -/
theorem outcome_permit_bind {σ : Type} (action : Action)
    (f : Permission → HookM (StateM World) σ Unit) (pending : σ) (world : World) :
    outcome (hooks.permit identity action >>= f) pending world =
      match hooks.resolver.require identity action with
      | .ok permission => outcome (f permission) pending world
      | .error e => ((.error e, pending), world) := by
  rw [permit]
  cases hooks.resolver.require identity action <;> rfl

/-- A hook that reads a record back goes on with it, or fails with the pending operation as it is at
this point. -/
theorem outcome_readBack_bind {σ : Type} (filter : Option Filter)
    (f : Option Value → HookM (StateM World) σ Unit) (pending : σ) (world : World) :
    outcome (hooks.readBack filter >>= f) pending world =
      match (hooks.reader filter).run world with
      | (.ok stored, world') => outcome (f stored) pending world'
      | (.error e, world') => ((.error e, pending), world') := by
  have hrun : outcome (hooks.readBack filter >>= f) pending world =
      (((ExceptT.bindCont f ((hooks.reader filter).run world).1).run pending).run
        ((hooks.reader filter).run world).2) := rfl
  rw [hrun]
  rcases (hooks.reader filter).run world with ⟨_ | _, world'⟩ <;> rfl

/-- A hook that cannot fail once it has its permission is atomic. -/
theorem isAtomic_permit_bind {σ : Type} (action : Action)
    {f : Permission → HookM (StateM World) σ Unit}
    (hf : ∀ permission pending world, (outcome (f permission) pending world).1.1 = .ok ()) :
    IsAtomic (hooks.permit identity action >>= f) := by
  intro pending world error pending' world' h
  rw [outcome_permit_bind] at h
  cases hrequire : hooks.resolver.require identity action with
  | error e =>
    rw [hrequire] at h
    cases h
    rfl
  | ok permission =>
    rw [hrequire] at h
    have hok := hf permission pending world
    dsimp only at h
    rw [h] at hok
    cases hok

theorem isAtomic_scopeQuery (action : Action) : IsAtomic (hooks.scopeQuery identity action) :=
  hooks.isAtomic_permit_bind identity action fun _ _ _ => rfl

theorem isAtomic_beforeSave : IsAtomic (hooks.beforeSave identity) := by
  refine hooks.isAtomic_permit_bind identity .create fun permission pending world => ?_
  cases permission.projection <;> rfl

/-- The pending update with its filter narrowed to a permission. -/
def narrowedUpdate (permission : Permission) (pending : UpdateQuery) : UpdateQuery :=
  { pending with filter := Filter.conjoin pending.filter permission.filter }

/-- All ways through the hook of updating. -/
theorem outcome_beforeUpdate (pending : UpdateQuery) (world : World) :
    outcome (hooks.beforeUpdate identity) pending world =
      match hooks.resolver.require identity .update with
      | .error e => ((.error e, pending), world)
      | .ok permission =>
        match permission.projection with
        | none => ((.ok (), narrowedUpdate permission pending), world)
        | some mask =>
          match (hooks.reader pending.filter).run world with
          | (.error e, world') => ((.error e, narrowedUpdate permission pending), world')
          | (.ok stored, world') =>
            ((.ok (), { narrowedUpdate permission pending with
              update := (mask.restore hooks.reserved pending.update stored).1 }), world') := by
  rw [beforeUpdate, outcome_permit_bind]
  cases hooks.resolver.require identity .update with
  | error e => rfl
  | ok permission =>
    obtain ⟨filter, update⟩ := pending
    dsimp only [narrowedUpdate]
    cases permission.projection with
    | none =>
      cases permission.filter with
      | none =>
        rw [Filter.conjoin_none_right]
        rfl
      | some f => rfl
    | some mask =>
      -- what is left to do once the filter has been narrowed
      refine Eq.trans (b := outcome (hooks.readBack filter >>= fun stored => modify fun query =>
        { query with update := (mask.restore hooks.reserved query.update stored).1 })
        (UpdateQuery.mk (Filter.conjoin filter permission.filter) update) world) ?_ ?_
      · cases permission.filter with
        | none =>
          rw [Filter.conjoin_none_right]
          rfl
        | some f => rfl
      · rw [outcome_readBack_bind]
        rcases (hooks.reader filter).run world with ⟨_ | _, world'⟩ <;> rfl

/-- How an update fails in its hook: it is refused, and nothing has happened, or the record cannot
be read back, and the filter has been narrowed to the permission. -/
theorem failed_beforeUpdate_iff {pending pending' : UpdateQuery} {world world' : World}
    {error : GuardError} :
    outcome (hooks.beforeUpdate identity) pending world = ((.error error, pending'), world') ↔
      (hooks.resolver.require identity .update = .error error ∧ pending' = pending ∧
          world' = world) ∨
        ∃ permission mask, hooks.resolver.require identity .update = .ok permission ∧
          permission.projection = some mask ∧
          (hooks.reader pending.filter).run world = (.error error, world') ∧
          pending' = narrowedUpdate permission pending := by
  rw [outcome_beforeUpdate]
  constructor
  · intro h
    cases hrequire : hooks.resolver.require identity .update with
    | error e =>
      rw [hrequire] at h
      cases h
      exact Or.inl ⟨rfl, rfl, rfl⟩
    | ok permission =>
      rw [hrequire] at h
      dsimp only at h
      cases hmask : permission.projection with
      | none =>
        rw [hmask] at h
        cases h
      | some mask =>
        rw [hmask] at h
        dsimp only at h
        rcases hread : (hooks.reader pending.filter).run world with ⟨e | stored, after⟩
        · rw [hread] at h
          cases h
          exact Or.inr ⟨permission, mask, rfl, hmask, rfl, rfl⟩
        · rw [hread] at h
          cases h
  · rintro (⟨hrequire, rfl, rfl⟩ | ⟨permission, mask, hrequire, hmask, hread, rfl⟩)
    · rw [hrequire]
    · simp only [hrequire, hmask, hread]

/-- What a failed hook leaves behind. A search, a removal and a new document are left as they were,
and so is an update that is refused. Of an update whose record cannot be read back the payload is
left as it was, and the filter is narrowed to the permission; it is another filter than before
exactly if the permission has one. -/
theorem pending_of_failure :
    IsAtomic (hooks.beforeFind identity) ∧ IsAtomic (hooks.beforeDelete identity) ∧
      IsAtomic (hooks.beforeSave identity) ∧
      ∀ pending world error pending' world',
        outcome (hooks.beforeUpdate identity) pending world = ((.error error, pending'), world') →
        match hooks.resolver.require identity .update with
        | .error _ => pending' = pending
        | .ok permission =>
          (∃ mask, permission.projection = some mask) ∧
            (hooks.reader pending.filter).run world = (.error error, world') ∧
            pending'.update = pending.update ∧
            (∀ document, Filter.accepts pending'.filter document =
              (Filter.accepts pending.filter document && permission.covers document)) ∧
            (pending' = pending ↔ permission.filter = none) := by
  refine ⟨hooks.isAtomic_scopeQuery identity .read, hooks.isAtomic_scopeQuery identity .delete,
    hooks.isAtomic_beforeSave identity, fun pending world error pending' world' h => ?_⟩
  rcases (hooks.failed_beforeUpdate_iff identity).1 h with
    ⟨hrequire, heq, -⟩ | ⟨permission, mask, hrequire, hmask, hread, rfl⟩
  · rw [hrequire]
    exact heq
  · rw [hrequire]
    refine ⟨⟨mask, hmask⟩, hread, rfl, fun document => ?_, ?_⟩
    · rw [narrowedUpdate, Filter.accepts_conjoin, Permission.accepts_filter]
    · rw [← Filter.conjoin_eq_left_iff pending.filter, narrowedUpdate]
      exact ⟨fun heq => congrArg UpdateQuery.filter heq, fun heq => by rw [heq]⟩

/-! ### An outage -/

/-- The hooks of users who may update their own notes but for the secret in them. The reader fails
the first time. -/
def ofOutage : Hooks (StateM Nat) where
  resolver := (Guard.ofRole "Note" "USER" ⟨none, none, some (.scoped
    ⟨some (.template (.standard (.eq "owner" (.string "ann")))), some (.compact "-secret")⟩),
    none⟩).resolver
  reserved := "_"
  reader _ := do
    let calls ← get
    set (calls + 1)
    return if calls = 0 then .error (.unreadable "reader failure") else .ok none

/-- A new name for a note. -/
def newName : UpdateQuery :=
  ⟨some (.eq "name" (.string "x")), .object [("name", .string "y"), ("secret", .string "s")]⟩

theorem outcome_ofOutage :
    outcome (ofOutage.beforeUpdate (some (.ofRoles ["USER"]))) newName 0 =
      ((.error (.unreadable "reader failure"), { newName with
        filter := some (.all [.eq "name" (.string "x"), .eq "owner" (.string "ann")]) }), 1) := rfl

theorem pending_of_outage :
    let narrowed : UpdateQuery := { newName with
      filter := some (.all [.eq "name" (.string "x"), .eq "owner" (.string "ann")]) }
    outcome (ofOutage.beforeUpdate (some (.ofRoles ["USER"]))) newName 0 =
        ((.error (.unreadable "reader failure"), narrowed), 1) ∧
      narrowed.update = newName.update ∧ narrowed ≠ newName := by
  obtain ⟨-, -, -, hupdate⟩ := pending_of_failure ofOutage (some (.ofRoles ["USER"]))
  obtain ⟨-, -, hpayload, -, hsame⟩ := hupdate _ _ _ _ _ outcome_ofOutage
  exact ⟨outcome_ofOutage, hpayload, fun heq => by cases hsame.1 heq⟩

/-- An update that fails in the outage is left with a filter that the caller has not asked for. -/
theorem not_isAtomic_of_outage :
    ¬ IsAtomic (ofOutage.beforeUpdate (some (.ofRoles ["USER"]))) := by
  intro h
  have hfilter := congrArg UpdateQuery.filter (h _ _ _ _ _ outcome_ofOutage)
  exact Filter.noConfusion (Option.some.inj hfilter)

end Hooks

end RecordGuard
