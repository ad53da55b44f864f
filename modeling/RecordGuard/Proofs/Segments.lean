import Mathlib.Data.List.Infix
import RecordGuard.Path

/-!
# Paths along keys

Documents are walked key by key, and the dotted path of the member that is reached is put together
on the way. `walk` is the path at the end of a list of keys and `trail` are all the paths that are
met, the last one included. A walk along the segments of a path ends at that path
(`walk_segments`), unless the path starts with a dot: an empty first key leaves the path empty and
the walk starts anew behind it. In the same way the walk along keys ends at the keys joined by dots,
unless the first one is empty (`walk_empty`). A dot between two paths joins their segments
(`segments_append_dot`), and the path behind the first dot has the segments behind the first one
(`segments_eq_splitFirst`).
-/

namespace RecordGuard

open Json (Value)

namespace Path

/-- The path reached from a path along keys. -/
def walk (path : String) (keys : List String) : String := keys.foldl join path

/-- The paths met from a path along keys. -/
def trail (path : String) : List String → List String
  | [] => []
  | key :: keys => join path key :: trail (join path key) keys

@[simp] theorem walk_nil (path : String) : walk path [] = path := rfl

@[simp] theorem walk_cons (path key : String) (keys : List String) :
    walk path (key :: keys) = walk (join path key) keys := rfl

theorem trail_append (path : String) (keys more : List String) :
    trail path (keys ++ more) = trail path keys ++ trail (walk path keys) more := by
  induction keys generalizing path with
  | nil => rfl
  | cons key keys ih => simp [trail, ih]

@[simp] theorem join_empty (key : String) : join "" key = key := if_pos rfl

theorem join_of_ne {path : String} (h : path ≠ "") (key : String) :
    join path key = path ++ "." ++ key := if_neg h

theorem toList_join_of_ne {path : String} (h : path ≠ "") (key : String) :
    (join path key).toList = path.toList ++ '.' :: key.toList := by
  rw [join_of_ne h, String.toList_append, String.toList_append, List.append_assoc]
  rfl

theorem join_ne_empty {path : String} (h : path ≠ "") (key : String) : join path key ≠ "" := by
  intro he
  have hl := toList_join_of_ne h key
  rw [he] at hl
  simp at hl

theorem join_ne_empty_of_key {key : String} (h : key ≠ "") (path : String) :
    join path key ≠ "" := by
  by_cases hpath : path = ""
  · rwa [hpath, join_empty]
  · exact join_ne_empty hpath key

theorem walk_ne_empty {path : String} (h : path ≠ "") (keys : List String) :
    walk path keys ≠ "" := by
  induction keys generalizing path with
  | nil => exact h
  | cons key keys ih => exact ih (join_ne_empty h key)

theorem walk_append (path : String) (keys more : List String) :
    walk path (keys ++ more) = walk (walk path keys) more := List.foldl_append

/-- What is met along keys are the ends of the walks along the first of them. -/
theorem mem_trail_iff {path met : String} {keys : List String} :
    met ∈ trail path keys ↔ ∃ front, front ≠ [] ∧ front <+: keys ∧ walk path front = met := by
  induction keys generalizing path with
  | nil =>
    constructor
    · intro h
      cases h
    · rintro ⟨front, hne, hfront, -⟩
      exact absurd (List.prefix_nil.1 hfront) hne
  | cons key keys ih =>
    rw [trail, List.mem_cons, ih]
    constructor
    · rintro (rfl | ⟨front, -, hfront, rfl⟩)
      · exact ⟨[key], List.cons_ne_nil _ _, by simp, rfl⟩
      · exact ⟨key :: front, List.cons_ne_nil _ _, (List.prefix_cons_inj key).2 hfront, rfl⟩
    · rintro ⟨front, hne, hfront, rfl⟩
      obtain ⟨k, front, rfl⟩ := List.exists_cons_of_ne_nil hne
      obtain ⟨rfl, hrest⟩ := List.cons_prefix_cons.1 hfront
      by_cases hnil : front = []
      · exact Or.inl (by rw [hnil]; rfl)
      · exact Or.inr ⟨front, hnil, hrest, rfl⟩

theorem forall_mem_trail_iff {path : String} {keys : List String} {P : String → Prop} :
    (∀ met ∈ trail path keys, P met) ↔
      ∀ front, front ≠ [] → front <+: keys → P (walk path front) := by
  constructor
  · intro h front hne hfront
    exact h _ (mem_trail_iff.2 ⟨front, hne, hfront, rfl⟩)
  · intro h met hmet
    obtain ⟨front, hne, hfront, rfl⟩ := mem_trail_iff.1 hmet
    exact h front hne hfront

/-! ### Keys joined by dots -/

/-- The keys with a dot between each two of them. -/
def dotted (keys : List String) : String := ".".intercalate keys

theorem walk_of_ne {path : String} (h : path ≠ "") (keys : List String) :
    walk path keys = dotted (path :: keys) := by
  induction keys generalizing path with
  | nil => exact String.intercalate_singleton.symm
  | cons key keys ih =>
    rw [walk_cons, ih (join_ne_empty h key), join_of_ne h, dotted, dotted,
      String.intercalate_cons_append, String.intercalate_cons_cons]

/-- The walk from the document along keys of which the first is not empty ends at the keys joined
by dots. -/
theorem walk_empty {key : String} (h : key ≠ "") (keys : List String) :
    walk "" (key :: keys) = dotted (key :: keys) := by
  rw [walk_cons, join_empty, walk_of_ne h]

theorem eq_nil_of_walk_eq_empty {keys : List String} (hkeys : ∀ key ∈ keys, key ≠ "")
    (h : walk "" keys = "") : keys = [] := by
  cases keys with
  | nil => rfl
  | cons key keys =>
    rw [walk_cons, join_empty] at h
    exact absurd h (walk_ne_empty (hkeys key List.mem_cons_self) keys)

/-- The dotted paths of the first key, of the first two keys and so on. -/
def fronts (keys : List String) : List String := keys.inits.tail.map dotted

theorem trail_eq_map_walk (path : String) (keys : List String) :
    trail path keys = keys.inits.tail.map (walk path) := by
  induction keys generalizing path with
  | nil => rfl
  | cons key keys ih =>
    have hinits : keys.inits = [] :: keys.inits.tail := by cases keys <;> rfl
    have htail : (key :: keys).inits.tail = keys.inits.map (key :: ·) := rfl
    rw [trail, ih, htail, List.map_map, hinits, List.map_cons]
    rfl

/-- The paths met from the document along keys of which the first is not empty. -/
theorem trail_empty {key : String} (h : key ≠ "") (keys : List String) :
    trail "" (key :: keys) = fronts (key :: keys) := by
  have htail : (key :: keys).inits.tail = keys.inits.map (key :: ·) := rfl
  rw [trail_eq_map_walk, fronts, htail, List.map_map, List.map_map]
  exact List.map_congr_left fun front _ => walk_empty h front

theorem trail_eq_fronts {keys : List String} (hkeys : ∀ key ∈ keys, key ≠ "") :
    trail "" keys = fronts keys := by
  cases keys with
  | nil => rfl
  | cons key keys => exact trail_empty (hkeys key List.mem_cons_self) keys

/-! ### Below a path -/

theorem isBelow_iff {path ancestor : String} :
    isBelow path ancestor = true ↔ ∃ rest, ancestor.toList ++ '.' :: rest = path.toList := by
  rw [isBelow, List.isPrefixOf_iff_prefix, String.toList_append]
  simp only [List.prefix_iff_eq_append, List.append_assoc]
  constructor
  · intro h
    exact ⟨_, h⟩
  · rintro ⟨rest, h⟩
    rw [← h]
    simp

theorem toList_walk_of_ne {path : String} (h : path ≠ "") (keys : List String) :
    (walk path keys).toList = path.toList ++ keys.flatMap fun key => '.' :: key.toList := by
  induction keys generalizing path with
  | nil => simp
  | cons key keys ih =>
    rw [walk_cons, ih (join_ne_empty h key), toList_join_of_ne h, List.flatMap_cons,
      List.append_assoc]

theorem isBelow_walk {path : String} (h : path ≠ "") {keys : List String} (hk : keys ≠ []) :
    isBelow (walk path keys) path = true := by
  obtain ⟨key, rest, rfl⟩ := List.exists_cons_of_ne_nil hk
  rw [isBelow_iff, toList_walk_of_ne h, List.flatMap_cons]
  exact ⟨_, rfl⟩

/-- Whatever is met beyond a path lies below it. -/
theorem isBelow_of_mem_trail {path : String} (h : path ≠ "") {keys : List String} {met : String}
    (hm : met ∈ trail path keys) : isBelow met path = true := by
  induction keys generalizing path with
  | nil => cases hm
  | cons key keys ih =>
    rcases List.mem_cons.1 hm with rfl | hm
    · exact isBelow_walk h (List.cons_ne_nil key [])
    · obtain ⟨rest, hrest⟩ := isBelow_iff.1 (ih (join_ne_empty h key) hm)
      rw [toList_join_of_ne h, List.append_assoc] at hrest
      exact isBelow_iff.2 ⟨_, hrest⟩

/-! ### The segments of a path -/

theorem exists_pieces_eq (separator : Char) (cs : List Char) :
    ∃ p ps, pieces separator cs = p :: ps ∧ p ++ ps.flatMap (separator :: ·) = cs := by
  induction cs with
  | nil => exact ⟨[], [], rfl, rfl⟩
  | cons c cs ih =>
    obtain ⟨p, ps, hp, hcs⟩ := ih
    by_cases hc : c = separator
    · refine ⟨[], p :: ps, by rw [pieces, if_pos hc, hp], ?_⟩
      rw [List.nil_append, List.flatMap_cons, List.cons_append, hcs, hc]
    · exact ⟨c :: p, ps, by rw [pieces, if_neg hc, hp], by rw [List.cons_append, hcs]⟩

theorem segments_ne_nil (path : String) : segments path ≠ [] := by
  obtain ⟨p, ps, hp, -⟩ := exists_pieces_eq '.' path.toList
  rw [segments, hp]
  exact List.cons_ne_nil _ _

theorem pieces_of_not_mem {separator : Char} {cs : List Char} (h : separator ∉ cs) :
    pieces separator cs = [cs] := by
  induction cs with
  | nil => rfl
  | cons c cs ih =>
    rw [List.mem_cons, not_or] at h
    rw [pieces, if_neg (Ne.symm h.1), ih h.2]

/-- A text without dots is its own only segment. -/
theorem segments_of_not_mem {key : String} (h : '.' ∉ key.toList) : segments key = [key] := by
  rw [segments, pieces_of_not_mem h, List.map_singleton, String.ofList_toList]

theorem pieces_append (separator : Char) (cs ds : List Char) :
    pieces separator (cs ++ separator :: ds) = pieces separator cs ++ pieces separator ds := by
  induction cs with
  | nil => exact if_pos rfl
  | cons c cs ih =>
    obtain ⟨p, ps, hp, -⟩ := exists_pieces_eq separator cs
    rw [List.cons_append, pieces, pieces, ih, hp]
    by_cases hc : c = separator
    · rw [if_pos hc, if_pos hc]
      rfl
    · rw [if_neg hc, if_neg hc]
      rfl

theorem segments_append_dot (path rest : String) :
    segments (path ++ "." ++ rest) = segments path ++ segments rest := by
  rw [segments, String.toList_append, String.toList_append, List.append_assoc]
  exact (congrArg (List.map String.ofList) (pieces_append '.' _ _)).trans List.map_append

/-- A path whose first segment is a key is the key, or lies below it. -/
theorem eq_or_isBelow_of_segments {path key : String} {keys : List String}
    (h : segments path = key :: keys) : path = key ∨ isBelow path key = true := by
  obtain ⟨p, ps, hp, hcs⟩ := exists_pieces_eq '.' path.toList
  rw [segments, hp, List.map_cons] at h
  obtain ⟨rfl, -⟩ := List.cons.inj h
  cases ps with
  | nil =>
    left
    rw [List.flatMap_nil, List.append_nil] at hcs
    rw [hcs, String.ofList_toList]
  | cons q qs =>
    right
    rw [isBelow_iff, ← hcs, String.toList_ofList]
    exact ⟨_, rfl⟩

/-- The walk along the segments of a path ends at the path. -/
theorem walk_segments {path key : String} {keys : List String} (h : segments path = key :: keys)
    (hk : key ≠ "") : walk "" (segments path) = path := by
  obtain ⟨p, ps, hp, hcs⟩ := exists_pieces_eq '.' path.toList
  have hs : segments path = String.ofList p :: ps.map String.ofList := by rw [segments, hp]; rfl
  have hne : String.ofList p ≠ "" := by
    rw [hs] at h
    exact (List.cons.inj h).1 ▸ hk
  apply String.toList_injective
  rw [hs, walk_cons, join_empty, toList_walk_of_ne hne, String.toList_ofList, List.flatMap_map]
  simpa only [String.toList_ofList] using hcs

/-! ### The first segment -/

/-- The path behind the first segment of a path, if that segment is a key and not the last one. -/
def behind? (key path : String) : Option String :=
  if (splitFirst path).1 = key then (splitFirst path).2 else none

theorem pieces_eq (separator : Char) (cs : List Char) :
    pieces separator cs = cs.takeWhile (· ≠ separator) ::
      match cs.dropWhile (· ≠ separator) with
      | [] => []
      | _ :: rest => pieces separator rest := by
  induction cs with
  | nil => rfl
  | cons c cs ih =>
    by_cases hc : c = separator
    · simp [pieces, hc]
    · rw [pieces, if_neg hc, ih]
      simp [hc]

theorem segments_eq_splitFirst (path : String) :
    segments path = (splitFirst path).1 :: ((splitFirst path).2.map segments).getD [] := by
  rw [segments, pieces_eq, splitFirst]
  cases path.toList.dropWhile (· ≠ '.') with
  | nil => rfl
  | cons c rest =>
    dsimp only [Option.map_some, Option.getD_some]
    rw [segments, String.toList_ofList]
    rfl

theorem eq_of_splitFirst {path rest : String} (h : (splitFirst path).2 = some rest) :
    path = (splitFirst path).1 ++ "." ++ rest := by
  rw [splitFirst] at h ⊢
  have hpath := List.takeWhile_append_dropWhile (p := (· ≠ '.')) (l := path.toList)
  have hdot := List.head?_dropWhile_not (· ≠ '.') path.toList
  cases hbehind : path.toList.dropWhile (· ≠ '.') with
  | nil =>
    rw [hbehind] at h
    cases h
  | cons c more =>
    rw [hbehind] at h hpath hdot
    cases h
    obtain rfl : c = '.' := by simpa using hdot
    apply String.toList_injective
    simpa using hpath.symm

theorem eq_of_behind? {key path rest : String} (h : behind? key path = some rest) :
    path = key ++ "." ++ rest := by
  rw [behind?] at h
  by_cases hkey : (splitFirst path).1 = key
  · rw [if_pos hkey] at h
    exact hkey ▸ eq_of_splitFirst h
  · rw [if_neg hkey] at h
    cases h

/-- The path behind a key, put together with what the key was joined to. -/
theorem join_join_of_behind? {key path rest : String} (h : behind? key path = some rest)
    (hkey : key ≠ "") (parent : String) : join (join parent key) rest = join parent path := by
  obtain rfl := eq_of_behind? h
  by_cases hparent : parent = ""
  · rw [hparent, join_empty, join_empty, join_of_ne hkey]
  · rw [join_of_ne (join_ne_empty hparent key), join_of_ne hparent, join_of_ne hparent]
    simp [String.append_assoc]

theorem segments_eq_cons_iff {path key : String} {keys : List String} (hk : keys ≠ []) :
    segments path = key :: keys ↔ ∃ rest, behind? key path = some rest ∧ segments rest = keys := by
  rw [segments_eq_splitFirst, List.cons_eq_cons, behind?]
  by_cases hkey : (splitFirst path).1 = key
  · cases hrest : (splitFirst path).2 with
    | none => simp [hkey, hk.symm]
    | some rest => simp [hkey]
  · simp [hkey]

theorem cons_isPrefix_segments_iff {path key : String} {keys : List String} :
    key :: keys <+: segments path ↔ (splitFirst path).1 = key ∧
      (keys = [] ∨ ∃ rest, behind? key path = some rest ∧ keys <+: segments rest) := by
  rw [segments_eq_splitFirst, List.cons_prefix_cons, behind?, eq_comm]
  refine and_congr_right fun hkey => ?_
  rw [if_pos hkey]
  cases (splitFirst path).2 with
  | none => simp
  | some rest =>
    simp only [Option.map_some, Option.getD_some, Option.some.injEq, exists_eq_left']
    exact ⟨Or.inr, fun h => h.elim (fun hnil => hnil ▸ List.nil_prefix) id⟩

/-! ### Following segments -/

theorem getSegments?_cons (v : Value) (s : String) (rest : List String) :
    getSegments? v (s :: rest) = (v.member? s).bind fun child => getSegments? child rest := rfl

theorem getSegments?_append (v : Value) (keys more : List String) :
    getSegments? v (keys ++ more) =
      (getSegments? v keys).bind fun found => getSegments? found more := by
  induction keys generalizing v with
  | nil => rfl
  | cons key keys ih =>
    rw [List.cons_append, getSegments?_cons, getSegments?_cons, Option.bind_assoc]
    exact congrArg (Option.bind (v.member? key)) (funext ih)

end Path

end RecordGuard
