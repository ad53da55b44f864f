import Mathlib.Data.List.Induction
import Mathlib.Data.List.TakeWhile
import Mathlib.Tactic.SplitIfs
import RecordGuard.Permission

/-!
# What the roles of a caller decide together

A role alone has a verdict on an action (`Permission.verdict`): it grants, it denies, or it scopes.
`Permission.Decides` reads a list of verdicts by positions. The scopes in front of the first grant
have to be evaluated, and the first of them that cannot be is the failure; a grant decides the
rest; without one the last verdict denies, or leaves a scope of the filters since the last verdict
that denies or has no filter, and of the masks since the last denial.

`Permission.decides_foldlM` is this law for the combination of any list of verdicts, by induction
from its end: the roles before the last one leave a permission whose scope is read off their own
positions (`Permission.scope_left`), and `addVerdict` says what the last one makes of it.

A reserved role grants, so that a caller who has one is granted the action unless a scope in front
of the first grant cannot be evaluated (`Permission.resolve_of_reserved`).
-/

namespace RecordGuard

/-! ### Positions -/

section Positions

variable {α : Type} (p : α → Bool) (l : List α) (a : α)

/-- The position of the first element with a property, counted from 1; the one behind the end if
there is none. -/
def firstPosition : Nat := l.findIdx p + 1

/-- The position of the last element with a property, counted from 1; 0 if there is none. -/
def lastPosition : Nat := l.length - l.reverse.findIdx p

theorem lastPosition_nil : lastPosition p [] = 0 := rfl

theorem lastPosition_append_singleton :
    lastPosition p (l ++ [a]) = if p a then l.length + 1 else lastPosition p l := by
  rw [lastPosition, lastPosition, List.reverse_append, List.reverse_singleton,
    List.singleton_append, List.findIdx_cons, List.length_append, List.length_singleton]
  cases p a with
  | true => rfl
  | false => exact Nat.add_sub_add_right _ _ _

theorem lastPosition_le_length : lastPosition p l ≤ l.length := Nat.sub_le _ _

variable {p l}

theorem firstPosition_le_length_iff : firstPosition p l ≤ l.length ↔ ∃ a ∈ l, p a = true :=
  List.findIdx_lt_length

theorem take_firstPosition : l.take (firstPosition p l - 1) = l.takeWhile fun a => !p a := by
  rw [List.takeWhile_eq_take_findIdx_not, firstPosition, Nat.add_sub_cancel]
  simp only [Bool.not_not]

/-- The last position is the end where the last element has the property, or where there is no
element. -/
theorem lastPosition_eq_length_iff :
    lastPosition p l = l.length ↔ l.length = 0 ∨ l.getLast?.any p = true := by
  rcases List.eq_nil_or_concat l with rfl | ⟨init, last, rfl⟩
  · simp [lastPosition_nil]
  · rw [List.concat_eq_append, lastPosition_append_singleton]
    have hle := lastPosition_le_length p init
    cases hp : p last with
    | true => simp [hp]
    | false => simp [hp]; omega

end Positions

/-! ### Verdicts -/

/-- What a role alone says about an action. -/
inductive Verdict where
  | grants
  | denies
  | scopes (rule : ScopedRule)

namespace Verdict

def isGrant : Verdict → Bool
  | .grants => true
  | _ => false

def isDenial : Verdict → Bool
  | .denies => true
  | _ => false

/-- Whether the verdict is a scope without a filter. -/
def isOpen : Verdict → Bool
  | .scopes rule => rule.rows.isNone
  | _ => false

variable (identity : Identity)

/-- The filter of a scope as it is evaluated for a caller, if the scope has one. -/
def evaluated? : Verdict → Option (Except GuardError Filter)
  | .scopes rule => rule.rows.map fun rows => rows.resolve identity
  | _ => none

/-- Why the filter of a scope cannot be evaluated. -/
def failure? (v : Verdict) : Option GuardError :=
  match v.evaluated? identity with
  | some (.error e) => some e
  | _ => none

/-- The mask of a scope. -/
def mask? : Verdict → Option Mask
  | .scopes rule => rule.projection.map Projection.decode
  | _ => none

end Verdict

namespace Permission

/-- The verdict of a role on an action. -/
def verdict (policy : Option Policy) (reserved : ReservedRoles) (action : Action)
    (role : String) : Verdict :=
  if role = reserved.admin ∨ (role = reserved.readAdmin ∧ action = .read) then .grants
  else
    match policy with
    | none => .denies
    | some policy =>
      match policy.rule? role action with
      | some (.flag true) => .grants
      | some (.flag false) => .denies
      | none => .denies
      | some (.scoped rule) => .scopes rule

/-- The masks of verdicts merged in their order; a mask without entries counts as none. -/
def mergedMask (verdicts : List Verdict) : Option Mask :=
  let mask := (verdicts.filterMap Verdict.mask?).foldl Mask.merge Mask.empty
  if mask.isEmpty then none else some mask

/-- The first failure among the scopes in front of the first grant. -/
def firstFailure (identity : Identity) (verdicts : List Verdict) : Option GuardError :=
  (verdicts.take (firstPosition Verdict.isGrant verdicts - 1)).findSome?
    (Verdict.failure? identity)

/-- Whether filters are those of the verdicts since the last one that denies or has no filter: each
of these verdicts has a filter, and it is evaluated. -/
def Collects (identity : Identity) (verdicts : List Verdict) (filters : List Filter) : Prop :=
  let lastDenial := lastPosition Verdict.isDenial verdicts
  let lastOpen := lastPosition Verdict.isOpen verdicts
  (verdicts.drop (max lastDenial lastOpen)).map (Verdict.evaluated? identity) =
    filters.map fun filter => some (.ok filter)

/-- Whether a result is what verdicts come to for a caller. -/
def Decides (identity : Identity) (verdicts : List Verdict)
    (result : Except GuardError Permission) : Prop :=
  let n := verdicts.length
  let lastDenial := lastPosition Verdict.isDenial verdicts
  match firstFailure identity verdicts with
  | some e => result = .error e
  | none =>
    if firstPosition Verdict.isGrant verdicts ≤ n then result = .ok .granted
    else if n = 0 ∨ verdicts.getLast?.any Verdict.isDenial = true then result = .ok .denied
    else ∃ filters, Collects identity verdicts filters ∧
      result = .ok (.scoped ⟨filters, mergedMask (verdicts.drop lastDenial)⟩)

/-! ### Verdicts one after the other -/

/-- What a verdict makes of the permission before it. -/
def addVerdict (identity : Identity) : Permission → Verdict → Except GuardError Permission
  | .granted, _ => .ok .granted
  | _, .grants => .ok .granted
  | _, .denies => .ok .denied
  | p, .scopes rule => p.addScope rule identity

variable (identity : Identity)

theorem addRole_eq (policy : Option Policy) (reserved : ReservedRoles) (action : Action)
    (p : Permission) (role : String) :
    addRole policy reserved identity action p role =
      addVerdict identity p (verdict policy reserved action role) := by
  have hreserved : isReservedGrant reserved action role = true ↔
      role = reserved.admin ∨ (role = reserved.readAdmin ∧ action = .read) := by
    simp [isReservedGrant, and_comm]
  unfold verdict
  cases p with
  | granted => rfl
  | _ =>
    simp only [addRole, hreserved]
    split_ifs with h
    · rfl
    · cases policy with
      | none => rfl
      | some policy =>
        dsimp only [Option.bind_some]
        rcases policy.rule? role action with _ | (_ | _) | rule <;> rfl

/-- The permission of a caller combines the verdicts of the caller's roles. -/
theorem resolve_eq_foldlM (policy : Option Policy) (reserved : ReservedRoles) (action : Action) :
    resolve policy reserved (some identity) action =
      (identity.roles.map (verdict policy reserved action)).foldlM (addVerdict identity)
        .denied := by
  rw [List.foldlM_map]
  simp only [resolve, ← addRole_eq]

theorem foldlM_granted (verdicts : List Verdict) :
    verdicts.foldlM (addVerdict identity) .granted = .ok .granted := by
  induction verdicts with
  | nil => rfl
  | cons v rest ih => exact ih

theorem foldlM_append_singleton {verdicts : List Verdict} {p : Permission}
    (h : verdicts.foldlM (addVerdict identity) .denied = .ok p) (v : Verdict) :
    (verdicts ++ [v]).foldlM (addVerdict identity) .denied = addVerdict identity p v := by
  rw [List.foldlM_append, h]
  exact bind_pure (addVerdict identity p v)

/-! ### A scope after a permission -/

theorem getD_mergedMask (verdicts : List Verdict) :
    (mergedMask verdicts).getD Mask.empty =
      (verdicts.filterMap Verdict.mask?).foldl Mask.merge Mask.empty := by
  rw [mergedMask]
  generalize (verdicts.filterMap Verdict.mask?).foldl Mask.merge Mask.empty = mask
  obtain ⟨entries⟩ := mask
  cases entries <;> rfl

/-- A scope merges its mask into those before it. Its filter joins the filters before it; without
one the filters are dropped, and with one that cannot be evaluated there is no permission. -/
theorem addScope_eq {p : Permission} {verdicts : List Verdict}
    (h : p.scope.projection = mergedMask verdicts) (rule : ScopedRule) :
    p.addScope rule identity =
      match (Verdict.scopes rule).evaluated? identity with
      | none => .ok (.scoped ⟨[], mergedMask (verdicts ++ [.scopes rule])⟩)
      | some (.ok filter) =>
        .ok (.scoped ⟨p.scope.filters ++ [filter], mergedMask (verdicts ++ [.scopes rule])⟩)
      | some (.error e) => .error e := by
  obtain ⟨rows, projection⟩ := rule
  have hmask : mergedMask (verdicts ++ [.scopes ⟨rows, projection⟩]) =
      let before := p.scope.projection.getD Mask.empty
      let mask := projection.elim before fun projection => before.merge projection.decode
      if mask.isEmpty then none else some mask := by
    rw [h, getD_mergedMask, mergedMask, List.filterMap_append, List.foldl_append]
    cases projection <;> rfl
  rw [hmask, addScope]
  dsimp only [Verdict.evaluated?]
  cases rows with
  | none => cases projection <;> rfl
  | some rows =>
    dsimp only [Option.map_some]
    cases rows.resolve identity <;> cases projection <;> rfl

/-! ### Verdicts without a grant -/

/-- The permission that verdicts without a grant leave when they collect the given filters. -/
def left (verdicts : List Verdict) (filters : List Filter) : Permission :=
  let lastDenial := lastPosition Verdict.isDenial verdicts
  if lastDenial = verdicts.length then .denied
  else .scoped ⟨filters, mergedMask (verdicts.drop lastDenial)⟩

variable {identity} {verdicts : List Verdict} {filters : List Filter} {v : Verdict}

/-- Nothing is collected up to the end. -/
theorem collects_nil_of_length_le
    (h : verdicts.length ≤
      max (lastPosition Verdict.isDenial verdicts) (lastPosition Verdict.isOpen verdicts)) :
    Collects identity verdicts filters ↔ filters = [] := by
  rw [Collects, List.drop_of_length_le h, List.map_nil, eq_comm, List.map_eq_nil_iff]

/-- A permission that denies has no scope, as if a scope without filter and mask were left. -/
theorem scope_left (h : Collects identity verdicts filters) :
    (left verdicts filters).scope =
      ⟨filters, mergedMask (verdicts.drop (lastPosition Verdict.isDenial verdicts))⟩ := by
  unfold left
  dsimp only
  split_ifs with hlast
  · have hfilters := (collects_nil_of_length_le (hlast ▸ Nat.le_max_left _ _)).1 h
    rw [hfilters, hlast, List.drop_length]
    rfl
  · rfl

/-- A scope with a filter adds it to those that are collected. -/
theorem Collects.append (h : Collects identity verdicts filters) (hd : v.isDenial = false)
    (ho : v.isOpen = false) {filter : Filter} (hv : v.evaluated? identity = some (.ok filter)) :
    Collects identity (verdicts ++ [v]) (filters ++ [filter]) := by
  have hle := Nat.max_le.2 ⟨lastPosition_le_length Verdict.isDenial verdicts,
    lastPosition_le_length Verdict.isOpen verdicts⟩
  rw [Collects] at h ⊢
  rw [lastPosition_append_singleton, lastPosition_append_singleton, hd, ho,
    if_neg Bool.false_ne_true, if_neg Bool.false_ne_true, List.drop_append_of_le_length hle,
    List.map_append, List.map_append, h]
  simp [hv]

/-- After a verdict that does not deny, the scope is left. -/
theorem left_append_singleton (hd : v.isDenial = false) :
    left (verdicts ++ [v]) filters =
      .scoped ⟨filters,
        mergedMask (verdicts.drop (lastPosition Verdict.isDenial verdicts) ++ [v])⟩ := by
  have hle := lastPosition_le_length Verdict.isDenial verdicts
  have hne : lastPosition Verdict.isDenial verdicts ≠ (verdicts ++ [v]).length := by
    rw [List.length_append, List.length_singleton]
    omega
  unfold left
  dsimp only
  rw [lastPosition_append_singleton, hd, if_neg Bool.false_ne_true, if_neg hne,
    List.drop_append_of_le_length hle]

/-- What the last of several verdicts makes of the permission that those before it leave. -/
theorem addVerdict_left (h : Collects identity verdicts filters) (hg : v.isGrant = false) :
    match v.failure? identity with
    | some e => addVerdict identity (left verdicts filters) v = .error e
    | none => ∃ filters', Collects identity (verdicts ++ [v]) filters' ∧
        addVerdict identity (left verdicts filters) v = .ok (left (verdicts ++ [v]) filters') := by
  -- Nothing is granted before, so it is the last verdict alone that tells the cases apart.
  have hadd : addVerdict identity (left verdicts filters) v =
      match v with
      | .grants => .ok .granted
      | .denies => .ok .denied
      | .scopes rule => (left verdicts filters).addScope rule identity := by
    unfold left
    dsimp only
    split_ifs <;> cases v <;> rfl
  rw [hadd]
  cases v with
  | grants => cases hg
  | denies =>
    have hlast : lastPosition Verdict.isDenial (verdicts ++ [.denies]) =
        (verdicts ++ [Verdict.denies]).length := by
      rw [lastPosition_append_singleton, List.length_append]
      rfl
    refine ⟨[], (collects_nil_of_length_le (hlast ▸ Nat.le_max_left _ _)).2 rfl, ?_⟩
    unfold left
    rw [if_pos hlast]
  | scopes rule =>
    have hscope := scope_left h
    dsimp only
    rw [addScope_eq identity (congrArg Scope.projection hscope), Verdict.failure?,
      congrArg Scope.filters hscope]
    cases hv : (Verdict.scopes rule).evaluated? identity with
    | none =>
      have hopen : (Verdict.scopes rule).isOpen = true := by
        rw [Verdict.isOpen, Option.isNone_iff_eq_none]
        exact Option.map_eq_none_iff.1 hv
      have hlast : (verdicts ++ [Verdict.scopes rule]).length =
          lastPosition Verdict.isOpen (verdicts ++ [.scopes rule]) := by
        rw [lastPosition_append_singleton, if_pos hopen, List.length_append]
        rfl
      exact ⟨[], (collects_nil_of_length_le (hlast ▸ Nat.le_max_right _ _)).2 rfl,
        by rw [left_append_singleton rfl]⟩
    | some result =>
      have hclosed : (Verdict.scopes rule).isOpen = false := by
        obtain ⟨rows, hrows, -⟩ := Option.map_eq_some_iff.1 hv
        rw [Verdict.isOpen, hrows]
        rfl
      cases result with
      | error e => rfl
      | ok filter => exact ⟨_, h.append rfl hclosed hv, by rw [left_append_singleton rfl]⟩

/-- Verdicts without a grant fail at their first failure, or leave what they collect. -/
theorem foldlM_of_no_grant (identity : Identity) (verdicts : List Verdict)
    (hg : ∀ v ∈ verdicts, v.isGrant = false) :
    match verdicts.findSome? (Verdict.failure? identity) with
    | some e => verdicts.foldlM (addVerdict identity) .denied = .error e
    | none => ∃ filters, Collects identity verdicts filters ∧
        verdicts.foldlM (addVerdict identity) .denied = .ok (left verdicts filters) := by
  -- The induction is from the end: a verdict can undo what the ones before it have left, so the
  -- positions are counted in the list up to the verdict.
  induction verdicts using List.reverseRecOn with
  | nil => exact ⟨[], rfl, rfl⟩
  | append_singleton verdicts v ih =>
    have ih := ih fun w hw => hg w (List.mem_append_left _ hw)
    have hv : v.isGrant = false := hg v (by simp)
    rw [List.findSome?_append]
    cases hfail : verdicts.findSome? (Verdict.failure? identity) with
    | some e =>
      rw [hfail] at ih
      rw [List.foldlM_append, ih]
      rfl
    | none =>
      rw [hfail] at ih
      obtain ⟨filters, hcollects, hfold⟩ := ih
      rw [foldlM_append_singleton identity hfold]
      have hlast := addVerdict_left hcollects hv
      cases hfailure : v.failure? identity <;> simpa [hfailure] using hlast

/-! ### All verdicts -/

theorem firstFailure_eq (verdicts : List Verdict) :
    firstFailure identity verdicts =
      (verdicts.takeWhile fun v => !v.isGrant).findSome? (Verdict.failure? identity) := by
  rw [firstFailure, take_firstPosition]

theorem decides_of_no_grant (hg : ∀ v ∈ verdicts, v.isGrant = false) :
    Decides identity verdicts (verdicts.foldlM (addVerdict identity) .denied) := by
  have hfold := foldlM_of_no_grant identity verdicts hg
  have hungranted : ¬ firstPosition Verdict.isGrant verdicts ≤ verdicts.length := by
    rw [firstPosition_le_length_iff]
    rintro ⟨v, hv, hgrant⟩
    exact Bool.false_ne_true ((hg v hv).symm.trans hgrant)
  have hbefore : (verdicts.takeWhile fun v => !v.isGrant) = verdicts :=
    List.takeWhile_eq_self_iff.2 fun v hv => by rw [hg v hv]; rfl
  rw [Decides, firstFailure_eq, hbefore]
  cases hfail : verdicts.findSome? (Verdict.failure? identity) with
  | some e =>
    rw [hfail] at hfold
    exact hfold
  | none =>
    rw [hfail] at hfold
    obtain ⟨filters, hcollects, hfold⟩ := hfold
    dsimp only
    rw [if_neg hungranted, hfold]
    unfold left
    dsimp only
    simp only [lastPosition_eq_length_iff]
    split_ifs with hlast
    · rfl
    · exact ⟨filters, hcollects, rfl⟩

theorem decides_of_grant {before after : List Verdict} (hb : ∀ w ∈ before, w.isGrant = false)
    (hv : v.isGrant = true) :
    Decides identity (before ++ v :: after)
      ((before ++ v :: after).foldlM (addVerdict identity) .denied) := by
  have hfold := foldlM_of_no_grant identity before hb
  have hgranted : firstPosition Verdict.isGrant (before ++ v :: after) ≤
      (before ++ v :: after).length :=
    firstPosition_le_length_iff.2 ⟨v, by simp, hv⟩
  have hbefore : ((before ++ v :: after).takeWhile fun v => !v.isGrant) = before := by
    rw [List.takeWhile_append_of_pos fun w hw => by rw [hb w hw]; rfl, List.takeWhile_cons_of_neg,
      List.append_nil]
    rw [hv]
    exact Bool.false_ne_true
  rw [Decides, firstFailure_eq, hbefore, List.foldlM_append]
  cases hfail : before.findSome? (Verdict.failure? identity) with
  | some e =>
    rw [hfail] at hfold
    dsimp only at hfold ⊢
    rw [hfold]
    rfl
  | none =>
    rw [hfail] at hfold
    obtain ⟨filters, -, hfold⟩ := hfold
    dsimp only
    rw [if_pos hgranted, hfold]
    cases v with
    | grants =>
      have hgrant : addVerdict identity (left before filters) .grants = .ok .granted := by
        cases left before filters <;> rfl
      show (addVerdict identity (left before filters) .grants >>= _) = _
      rw [hgrant]
      exact foldlM_granted identity after
    | _ => cases hv

/-- Verdicts come to what is read off their positions. -/
theorem decides_foldlM (identity : Identity) (verdicts : List Verdict) :
    Decides identity verdicts (verdicts.foldlM (addVerdict identity) .denied) := by
  have hsplit := List.takeWhile_append_dropWhile (p := fun v => !v.isGrant) (l := verdicts)
  have hbefore : ∀ v ∈ verdicts.takeWhile fun v => !v.isGrant, v.isGrant = false := by
    intro v hv
    simpa using List.mem_takeWhile_imp hv
  cases hafter : verdicts.dropWhile fun v => !v.isGrant with
  | nil =>
    rw [hafter, List.append_nil] at hsplit
    rw [hsplit] at hbefore
    exact decides_of_no_grant hbefore
  | cons v after =>
    have hv : v.isGrant = true := by
      have hhead := List.head?_dropWhile_not (fun v => !v.isGrant) verdicts
      rw [hafter] at hhead
      simpa using hhead
    rw [hafter] at hsplit
    rw [← hsplit]
    exact decides_of_grant hbefore hv

/-- The permission of a caller for an action is what the verdicts of the caller's roles come to,
whatever their number, order and repetition. -/
theorem resolve_decides (policy : Option Policy) (reserved : ReservedRoles) (action : Action)
    (identity : Identity) :
    Decides identity (identity.roles.map (verdict policy reserved action))
      (resolve policy reserved (some identity) action) := by
  rw [resolve_eq_foldlM]
  exact decides_foldlM identity _

/-! ### Reserved roles -/

/-- A verdict fails where it scopes by a filter that cannot be evaluated. -/
theorem failure?_eq_none_iff :
    v.failure? identity = none ↔ ∀ rule rows, v = .scopes rule → rule.rows = some rows →
      ∃ filter, rows.resolve identity = .ok filter := by
  rw [Verdict.failure?]
  cases v with
  | scopes rule =>
    dsimp only [Verdict.evaluated?]
    cases hrows : rule.rows with
    | none =>
      refine iff_of_true rfl fun other rows he hother => ?_
      cases he
      rw [hrows] at hother
      cases hother
    | some rows =>
      dsimp only [Option.map_some]
      constructor
      · intro h other rows' he hother
        cases he
        obtain rfl : rows = rows' := Option.some.inj (hrows.symm.trans hother)
        cases hresolve : rows.resolve identity with
        | ok filter => exact ⟨filter, rfl⟩
        | error e =>
          rw [hresolve] at h
          cases h
      · intro h
        obtain ⟨filter, hfilter⟩ := h rule rows rfl hrows
        rw [hfilter]
  | _ => exact iff_of_true rfl fun rule rows he _ => nomatch he

/-- Verdicts with a grant among them fail at their first failure in front of it, or grant. -/
theorem foldlM_of_grant (hv : ∃ v ∈ verdicts, v.isGrant = true) :
    verdicts.foldlM (addVerdict identity) .denied =
      match firstFailure identity verdicts with
      | some e => .error e
      | none => .ok .granted := by
  have hdecides := decides_foldlM identity verdicts
  rw [Decides] at hdecides
  cases hfail : firstFailure identity verdicts with
  | some e =>
    rw [hfail] at hdecides
    exact hdecides
  | none =>
    rw [hfail] at hdecides
    dsimp only at hdecides
    rw [if_pos (firstPosition_le_length_iff.2 hv)] at hdecides
    exact hdecides

/-- A caller with a role that stands above every policy is granted the action exactly if, for each
role in front of the first that grants, the filter of its scope can be evaluated. Otherwise the
first one that cannot be is the failure. -/
theorem resolve_of_reserved (policy : Option Policy) {reserved : ReservedRoles} (action : Action)
    {identity : Identity}
    (h : reserved.admin ∈ identity.roles ∨
      action = .read ∧ reserved.readAdmin ∈ identity.roles) :
    let verdicts := identity.roles.map (verdict policy reserved action)
    (resolve policy reserved (some identity) action =
      match firstFailure identity verdicts with
      | some e => .error e
      | none => .ok .granted) ∧
    (firstFailure identity verdicts = none ↔
      ∀ role ∈ identity.roles.takeWhile fun role =>
          !(verdict policy reserved action role).isGrant,
        ∀ rule rows, verdict policy reserved action role = .scopes rule →
          rule.rows = some rows → ∃ filter, rows.resolve identity = .ok filter) := by
  intro verdicts
  have hgrant : ∃ v ∈ verdicts, v.isGrant = true := by
    have hrole : ∃ role ∈ identity.roles,
        role = reserved.admin ∨ (role = reserved.readAdmin ∧ action = .read) := by
      rcases h with hadmin | ⟨hread, hadmin⟩
      · exact ⟨_, hadmin, .inl rfl⟩
      · exact ⟨_, hadmin, .inr ⟨rfl, hread⟩⟩
    obtain ⟨role, hmem, hreserved⟩ := hrole
    refine ⟨_, List.mem_map_of_mem hmem, ?_⟩
    unfold verdict
    rw [if_pos hreserved]
    rfl
  constructor
  · rw [resolve_eq_foldlM]
    exact foldlM_of_grant hgrant
  · rw [firstFailure_eq, List.takeWhile_map, List.findSome?_eq_none_iff]
    simp only [List.forall_mem_map, failure?_eq_none_iff]
    rfl

/-- A user who is also an administrator is granted to read, as the user has a team. -/
theorem resolve_of_reserved_of_team :
    let rules := RoleRules.empty.set .read
      (.scoped ⟨some (.template (.attributeEq "team" "team")), none⟩)
    let policy := Policy.empty.withRole "USER" rules
    let reserved : ReservedRoles := {}
    let identity := (Identity.ofRoles ["USER", "ADMIN"]).withAttribute "team" (.string "red")
    reserved.admin ∈ identity.roles ∧
      resolve (some policy) reserved (some identity) .read = .ok .granted := by
  intro rules policy reserved identity
  have hadmin : reserved.admin ∈ identity.roles := by decide
  have hresolve := (resolve_of_reserved (some policy) .read (.inl hadmin)).1
  have hfailure : firstFailure identity
      (identity.roles.map (verdict (some policy) reserved .read)) = none := by rfl
  rw [hfailure] at hresolve
  exact ⟨hadmin, hresolve⟩

/-- A user who is also an administrator is granted nothing without a team: the filter of the user's
scope is evaluated before the second role is met. -/
theorem administrator_fails_without_team :
    let rules := RoleRules.empty.set .read
      (.scoped ⟨some (.template (.attributeEq "team" "team")), none⟩)
    let policy := Policy.empty.withRole "USER" rules
    let reserved : ReservedRoles := {}
    let identity := Identity.ofRoles ["USER", "ADMIN"]
    reserved.admin ∈ identity.roles ∧
      resolve (some policy) reserved (some identity) .read =
        .error (.missingAttribute "team") := by
  intro rules policy reserved identity
  exact ⟨by decide, rfl⟩

end Permission

end RecordGuard
