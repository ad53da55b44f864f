import RecordGuard.Proofs.SelectedLeaves
import RecordGuard.Query

/-!
# What a narrowed selection gives out

Two selections are narrowed by comparing their paths for equality, while each of them acts on
whole subtrees. `Selection.Compatible` is when this makes no difference: where one selection shows
and the other hides, no shown path overlaps a hidden one and nothing hidden is part of the
identifier; where both show, they have a path in common, or the second shows the identifier at
most. `Selection.select_select_within_iff` says that exactly then a narrowed selection gives out
nothing but what both give out.
-/

namespace RecordGuard

open Json (Value)
open Json.Value (leaves leavesOfMembers)

namespace Path

/-- One of the paths lies below the other, or the first is the empty path, behind which every path
starts anew. -/
def Overlap (p q : String) : Prop := p = "" ∨ isBelow p q = true ∨ isBelow q p = true

/-- A path below another one is reached from it by a key. -/
theorem exists_join_eq {p q : String} (h : isBelow p q = true) : ∃ key, join q key = p := by
  obtain ⟨rest, hrest⟩ := isBelow_iff.1 h
  by_cases hq : q = ""
  · exact ⟨p, by rw [hq, join_empty]⟩
  · refine ⟨String.ofList rest, String.toList_injective ?_⟩
    rw [toList_join_of_ne hq, String.toList_ofList, hrest]

theorem not_mem_of_mem_pieces {separator : Char} {cs p : List Char}
    (h : p ∈ pieces separator cs) : separator ∉ p := by
  induction cs generalizing p with
  | nil =>
    rw [pieces, List.mem_singleton] at h
    rw [h]
    exact List.not_mem_nil
  | cons c cs ih =>
    rw [pieces] at h
    split_ifs at h with hc
    · rcases List.mem_cons.1 h with rfl | h
      · exact List.not_mem_nil
      · exact ih h
    · obtain ⟨q, qs, hq, -⟩ := exists_pieces_eq separator cs
      rw [hq] at h
      rcases List.mem_cons.1 h with rfl | h
      · intro hmem
        rcases List.mem_cons.1 hmem with heq | hmem
        · exact hc heq.symm
        · exact ih (hq ▸ List.mem_cons_self) hmem
      · exact ih (hq ▸ List.mem_cons_of_mem _ h)

/-- The only segment of a path lies below nothing. -/
theorem isBelow_eq_false_of_segments {path key : String} (h : segments path = [key])
    (other : String) : isBelow key other = false := by
  rw [Bool.eq_false_iff]
  intro hbelow
  obtain ⟨rest, hrest⟩ := isBelow_iff.1 hbelow
  have hmem : key.toList ∈ pieces '.' path.toList := by
    have hkey : key ∈ segments path := by
      rw [h]
      exact List.mem_singleton_self key
    obtain ⟨p, hp, rfl⟩ := List.mem_map.1 hkey
    rwa [String.toList_ofList]
  exact not_mem_of_mem_pieces hmem (by rw [← hrest]; simp)

end Path

/-! ### Documents of one leaf -/

namespace Json.Value

/-- A null behind keys. -/
def chain : List String → Value
  | [] => .null
  | key :: keys => .object [(key, chain keys)]

theorem leaves_chain (keys : List String) : (chain keys).leaves = [(keys, .null)] := by
  induction keys with
  | nil => rfl
  | cons key keys ih =>
    rw [chain, leaves_object, leavesOfMembers, ih]
    rfl

theorem isCanonical_chain (keys : List String) : (chain keys).IsCanonical := by
  induction keys with
  | nil => trivial
  | cons key keys ih => exact ⟨List.pairwise_singleton _ _, ih, trivial⟩

theorem isSome_getSegments?_chain (keys segments : List String) :
    (Path.getSegments? (chain keys) segments).isSome = segments.isPrefixOf keys := by
  induction keys generalizing segments with
  | nil => cases segments <;> rfl
  | cons key keys ih =>
    cases segments with
    | nil => rfl
    | cons s segments =>
      rw [Path.getSegments?_cons, List.isPrefixOf, ← ih segments]
      by_cases hs : s = key
      · subst hs
        simp [chain, member?, members?, Entries.get?]
      · simp [chain, member?, members?, Entries.get?, Ne.symm hs, hs]

end Json.Value

namespace Selection

/-- Whether a selection gives out the leaf of a document that consists of this leaf only. -/
def offers (idField : String) (keys : List String) : Selection → Bool
  | .showing paths =>
    shows paths "" keys || (idField != "" && (Path.segments idField).isPrefixOf keys)
  | .hiding paths => !(Path.trail "" keys).any paths.contains

theorem gives_chain (selection : Selection) (idField : String) (keys : List String) :
    selection.gives idField (Value.chain keys) keys = selection.offers idField keys := by
  rcases selection with paths | paths
  · rw [gives, offers, Path.get?, Value.isSome_getSegments?_chain]
    cases idField != "" <;> simp
  · rfl

/-- Every leaf that the first selection gives out of an object the second gives out, too. -/
def Within (idField : String) (s t : Selection) : Prop :=
  ∀ members, (Value.object members).IsCanonical →
    leaves (s.apply idField (.object members)) ⊆ leaves (t.apply idField (.object members))

/-- A selection within another one offers nothing else. -/
theorem Within.offers {s t : Selection} {idField : String} (h : Within idField s t)
    {keys : List String} (hk : keys ≠ []) (hs : s.offers idField keys = true) :
    t.offers idField keys = true := by
  obtain ⟨key, rest, rfl⟩ := List.exists_cons_of_ne_nil hk
  -- the document that consists of the one leaf behind the keys
  have hcanonical : (Value.object [(key, Value.chain rest)]).IsCanonical :=
    Value.isCanonical_chain (key :: rest)
  have hsubset := h _ hcanonical
  rw [leaves_apply s idField hcanonical, leaves_apply t idField hcanonical] at hsubset
  have hleaf : (key :: rest, Value.null) ∈ leavesOfMembers [(key, Value.chain rest)] := by
    have hleaves := Value.leaves_chain (key :: rest)
    rw [Value.chain, Value.leaves_object] at hleaves
    rw [hleaves]
    exact List.mem_singleton_self _
  have hgiven := hsubset (List.mem_filter.2 ⟨hleaf, (gives_chain s idField (key :: rest)).trans hs⟩)
  exact (gives_chain t idField (key :: rest)).symm.trans (List.mem_filter.1 hgiven).2

/-- A selection that gives out less gives out a part of the leaves, in their order. -/
theorem sublist_of_gives {s t : Selection} {idField : String} {members : List (String × Value)}
    (hc : (Value.object members).IsCanonical)
    (h : ∀ leaf ∈ leavesOfMembers members, s.gives idField (.object members) leaf.1 = true →
      t.gives idField (.object members) leaf.1 = true) :
    (leaves (s.apply idField (.object members))).Sublist
      (leaves (t.apply idField (.object members))) := by
  rw [leaves_apply s idField hc, leaves_apply t idField hc]
  exact Json.Value.filter_sublist_filter h

/-! ### What paths show -/

theorem shows_mono {paths more : List String} (h : paths ⊆ more) {path : String}
    {keys : List String} (hs : shows paths path keys = true) : shows more path keys = true := by
  induction keys generalizing path with
  | nil => cases hs
  | cons key keys ih =>
    rw [shows, Bool.or_eq_true, Bool.and_eq_true] at hs ⊢
    rcases hs with hc | ⟨hb, hs⟩
    · left
      rw [List.contains_iff_mem] at hc ⊢
      exact h hc
    · right
      refine ⟨?_, ih hs⟩
      obtain ⟨p, hp, hbelow⟩ := List.any_eq_true.1 hb
      exact List.any_eq_true.2 ⟨p, h hp, hbelow⟩

/-- What is shown lies on or behind one of the paths, and the way there leads to shown paths. -/
theorem exists_of_shows {paths : List String} {path : String} {keys : List String}
    (h : shows paths path keys = true) :
    ∃ front key back, keys = front ++ key :: back ∧ Path.join (Path.walk path front) key ∈ paths ∧
      ∀ met ∈ Path.trail path front, ∃ p ∈ paths, Path.isBelow p met = true := by
  induction keys generalizing path with
  | nil => cases h
  | cons key keys ih =>
    rw [shows, Bool.or_eq_true, Bool.and_eq_true] at h
    rcases h with hc | ⟨hb, hs⟩
    · refine ⟨[], key, keys, rfl, List.contains_iff_mem.1 hc, ?_⟩
      intro met hm
      cases hm
    · obtain ⟨front, k, back, rfl, hk, hfront⟩ := ih hs
      refine ⟨key :: front, k, back, rfl, hk, ?_⟩
      intro met hm
      rcases List.mem_cons.1 hm with rfl | hm
      · exact List.any_eq_true.1 hb
      · exact hfront met hm

/-! ### Showing and hiding -/

/-- No shown path overlaps a hidden one, unless it is itself hidden. -/
def Apart (shown hidden : List String) : Prop :=
  ∀ p ∈ shown, p ∉ hidden → ∀ q ∈ hidden, ¬Path.Overlap p q

/-- No hidden path is met on the way to the identifier or behind it. -/
def ClearOf (idField : String) (hidden : List String) : Prop :=
  idField = "" ∨ ∀ q ∈ hidden, q ∉ Path.trail "" (Path.segments idField) ∧
    ∀ key, Path.join (Path.walk "" (Path.segments idField)) key ≠ q

variable {idField : String} {shown hidden : List String}

/-- What the shown paths that are not hidden show is not hidden, if they are apart. -/
theorem not_mem_of_shows (h : Apart shown hidden) {keys : List String}
    (hs : shows (shown.filter fun p => !hidden.contains p) "" keys = true) :
    ∀ q ∈ hidden, q ∉ Path.trail "" keys := by
  intro q hq hmet
  obtain ⟨front, key, back, rfl, hp, hfront⟩ := exists_of_shows hs
  have hkept : ∀ p ∈ shown.filter fun p => !hidden.contains p, p ∈ shown ∧ p ∉ hidden := by
    intro p hp
    simpa using List.mem_filter.1 hp
  rw [Path.trail_append, List.mem_append] at hmet
  rcases hmet with hmet | hmet
  · -- a shown path lies below the hidden one
    obtain ⟨p, hp, hbelow⟩ := hfront q hmet
    exact h p (hkept p hp).1 (hkept p hp).2 q hq (Or.inr (Or.inl hbelow))
  · obtain ⟨hpshown, hphidden⟩ := hkept _ hp
    rcases List.mem_cons.1 hmet with rfl | hmet
    · exact hphidden hq
    · -- the hidden path lies below the shown one
      refine h _ hpshown hphidden q hq ?_
      by_cases hempty : Path.join (Path.walk "" front) key = ""
      · exact Or.inl hempty
      · exact Or.inr (Or.inr (Path.isBelow_of_mem_trail hempty hmet))

/-- The last path that is met is reached by a key. -/
theorem exists_join_of_mem_trail {path : String} {keys : List String} {q : String}
    (h : q ∈ Path.trail path keys) : ∃ key, Path.join path key = q := by
  cases keys with
  | nil => cases h
  | cons key keys =>
    rcases List.mem_cons.1 h with rfl | hm
    · exact ⟨key, rfl⟩
    · by_cases hp : path = ""
      · exact ⟨q, by rw [hp, Path.join_empty]⟩
      · have hmem : q ∈ Path.trail path (key :: keys) := h
        exact Path.exists_join_eq (Path.isBelow_of_mem_trail hp hmem)

/-- Nothing is hidden behind an identifier that is clear of the hidden paths. -/
theorem not_mem_of_isPrefixOf (h : ClearOf idField hidden) (hne : idField ≠ "") {keys : List String}
    (hs : (Path.segments idField).isPrefixOf keys = true) :
    ∀ q ∈ hidden, q ∉ Path.trail "" keys := by
  intro q hq hmet
  obtain ⟨back, rfl⟩ := List.isPrefixOf_iff_prefix.1 hs
  obtain ⟨hway, hbehind⟩ := h.resolve_left hne q hq
  rw [Path.trail_append, List.mem_append] at hmet
  rcases hmet with hmet | hmet
  · exact hway hmet
  · obtain ⟨key, hkey⟩ := exists_join_of_mem_trail hmet
    exact hbehind key hkey

theorem offers_of_shows {paths : List String} {keys : List String}
    (h : shows paths "" keys = true) : (Selection.showing paths).offers idField keys = true := by
  rw [offers, h, Bool.true_or]

theorem apart_of_offers
    (h : ∀ keys, keys ≠ [] →
      (Selection.showing (shown.filter fun p => !hidden.contains p)).offers idField keys = true →
      (Selection.hiding hidden).offers idField keys = true) : Apart shown hidden := by
  intro p hp hnot q hq hoverlap
  have hkept : p ∈ shown.filter fun p => !hidden.contains p := by
    simp [hp, hnot]
  have hcontains := List.contains_iff_mem.2 hkept
  have hhidden : ∀ keys, q ∈ Path.trail "" keys →
      (Selection.hiding hidden).offers idField keys = false := by
    intro keys hm
    simp only [offers, Bool.not_eq_false', List.any_eq_true]
    exact ⟨q, hm, List.contains_iff_mem.2 hq⟩
  -- otherwise a document with something at `q` tells the selections apart
  have hbehind : ∀ key, Path.join p key ≠ q := by
    intro key hkey
    have hshows : shows (shown.filter fun p => !hidden.contains p) "" [p, key] = true := by
      rw [shows, Path.join_empty, hcontains, Bool.true_or]
    have hoffers := h [p, key] (List.cons_ne_nil _ _) (offers_of_shows hshows)
    rw [hhidden [p, key] (by simp [Path.trail, hkey])] at hoffers
    cases hoffers
  rcases hoverlap with rfl | hbelow | hbelow
  · exact hbehind q (Path.join_empty q)
  · -- `p` lies below `q`, and so does the leaf at the end of the two keys
    obtain ⟨key, hkey⟩ := Path.exists_join_eq hbelow
    have hsome : someBelow (shown.filter fun p => !hidden.contains p) q = true :=
      List.any_eq_true.2 ⟨p, hkept, hbelow⟩
    have hshows : shows (shown.filter fun p => !hidden.contains p) "" [q, key] = true := by
      rw [shows, Path.join_empty, hsome, shows, hkey, hcontains, Bool.true_or, Bool.true_and,
        Bool.or_true]
    have hoffers := h [q, key] (List.cons_ne_nil _ _) (offers_of_shows hshows)
    rw [hhidden [q, key] (by simp [Path.trail])] at hoffers
    cases hoffers
  · obtain ⟨key, hkey⟩ := Path.exists_join_eq hbelow
    exact hbehind key hkey

theorem clearOf_of_offers {paths : List String}
    (h : ∀ keys, keys ≠ [] → (Selection.showing paths).offers idField keys = true →
      (Selection.hiding hidden).offers idField keys = true) : ClearOf idField hidden := by
  by_cases hne : idField = ""
  · exact Or.inl hne
  · right
    intro q hq
    have hnot : ∀ keys, keys ≠ [] → (Path.segments idField).isPrefixOf keys = true →
        q ∉ Path.trail "" keys := by
      intro keys hk hprefix hm
      have hoffers := h keys hk (by simp [offers, hprefix, hne])
      simp only [offers, Bool.not_eq_true', List.any_eq_false] at hoffers
      exact hoffers q hm (List.contains_iff_mem.2 hq)
    constructor
    · exact hnot _ (Path.segments_ne_nil idField)
        (List.isPrefixOf_iff_prefix.2 (List.prefix_refl _))
    · intro key hkey
      refine hnot (Path.segments idField ++ [key]) (by simp)
        (List.isPrefixOf_iff_prefix.2 (List.prefix_append _ _)) ?_
      rw [Path.trail_append, Path.trail, hkey]
      simp

theorem gives_mono {paths more : List String} (h : paths ⊆ more) {document : Value}
    {keys : List String}
    (hs : (Selection.showing paths).gives idField document keys = true) :
    (Selection.showing more).gives idField document keys = true := by
  rw [gives, Bool.or_eq_true] at hs ⊢
  exact hs.imp_left (shows_mono h)

theorem gives_of_filter (ha : Apart shown hidden) (hc : ClearOf idField hidden) {document : Value}
    {keys : List String}
    (hs : (Selection.showing (shown.filter fun p => !hidden.contains p)).gives idField document
      keys = true) :
    (Selection.hiding hidden).gives idField document keys = true := by
  have hnot : ∀ q ∈ hidden, q ∉ Path.trail "" keys := by
    rw [gives, Bool.or_eq_true, Bool.and_eq_true, Bool.and_eq_true] at hs
    rcases hs with hs | ⟨⟨hne, -⟩, hprefix⟩
    · exact not_mem_of_shows ha hs
    · exact not_mem_of_isPrefixOf hc (bne_iff_ne.1 hne) hprefix
  simp only [gives, Bool.not_eq_true', List.any_eq_false]
  intro q hm hcontains
  exact hnot q (List.contains_iff_mem.1 hcontains) hm

/-! ### Showing twice, hiding twice -/

/-- Paths that name the identifier at most show nothing else. -/
theorem gives_of_identifier {paths : List String}
    (h : ∀ p ∈ paths, idField ≠ "" ∧ Path.segments idField = [p]) (others : List String)
    {members : List (String × Value)} (hm : (Value.object members).IsCanonical) {leaf : Leaf}
    (hl : leaf ∈ leavesOfMembers members)
    (hs : (Selection.showing paths).gives idField (.object members) leaf.1 = true) :
    (Selection.showing others).gives idField (.object members) leaf.1 = true := by
  rw [gives, Bool.or_eq_true] at hs ⊢
  refine Or.inr (hs.elim (fun hs => ?_) id)
  obtain ⟨member, hmember, inner, -, rfl⟩ := Value.exists_of_mem_leavesOfMembers hl
  rw [Leaf.under, shows, Path.join_empty, Bool.or_eq_true, Bool.and_eq_true] at hs
  rcases hs with hcontains | ⟨hbelow, -⟩
  · obtain ⟨hne, hsegments⟩ := h _ (List.contains_iff_mem.1 hcontains)
    have hget : Path.get? (.object members) idField = some member.2 := by
      have hmember : (Value.object members).member? member.1 = some member.2 :=
        hm.ordered.get?_of_mem hmember
      rw [Path.get?, hsegments, Path.getSegments?_cons, hmember]
      rfl
    rw [hget, hsegments, bne_iff_ne.2 hne]
    simp [Leaf.under]
  · obtain ⟨p, hp, hbelow⟩ := List.any_eq_true.1 hbelow
    rw [Path.isBelow_eq_false_of_segments (h p hp).2] at hbelow
    cases hbelow

theorem mem_foldl_append {current restriction : List String} {p : String} :
    p ∈ restriction.foldl
      (fun paths p => if paths.contains p then paths else paths ++ [p]) current ↔
        p ∈ current ∨ p ∈ restriction := by
  induction restriction generalizing current with
  | nil => simp
  | cons q restriction ih =>
    rw [List.foldl_cons, ih, List.mem_cons]
    by_cases hq : q ∈ current
    · rw [if_pos (List.contains_iff_mem.2 hq)]
      constructor
      · rintro (h | h)
        · exact Or.inl h
        · exact Or.inr (Or.inr h)
      · rintro (h | rfl | h)
        · exact Or.inl h
        · exact Or.inl hq
        · exact Or.inr h
    · rw [if_neg (mt List.contains_iff_mem.1 hq), List.mem_append, List.mem_singleton, or_assoc]

theorem gives_of_subset_hidden {fewer : List String} (h : fewer ⊆ hidden) {document : Value}
    {keys : List String}
    (hs : (Selection.hiding hidden).gives idField document keys = true) :
    (Selection.hiding fewer).gives idField document keys = true := by
  simp only [gives, Bool.not_eq_true', List.any_eq_false] at hs ⊢
  intro q hm hcontains
  exact hs q hm (List.contains_iff_mem.2 (h (List.contains_iff_mem.1 hcontains)))

/-! ### The condition -/

/-- When narrowing the first selection by the second widens neither. -/
def Compatible (idField : String) : Selection → Selection → Prop
  | .hiding _, .hiding _ => True
  | .showing current, .showing restriction =>
    (∃ p ∈ current, p ∈ restriction) ∨
      ∀ p ∈ restriction, idField ≠ "" ∧ Path.segments idField = [p]
  | .showing current, .hiding restriction =>
    Apart current restriction ∧ ClearOf idField restriction
  | .hiding current, .showing restriction =>
    Apart restriction current ∧ ClearOf idField current

/-- What a compatible narrowed selection gives out, both selections give out. -/
theorem gives_of_narrow {current restriction : Selection}
    (h : Compatible idField current restriction) {members : List (String × Value)}
    (hm : (Value.object members).IsCanonical) {leaf : Leaf} (hl : leaf ∈ leavesOfMembers members)
    (hs : (current.narrow restriction).gives idField (.object members) leaf.1 = true) :
    current.gives idField (.object members) leaf.1 = true ∧
      restriction.gives idField (.object members) leaf.1 = true := by
  rcases current with current | current <;> rcases restriction with restriction | restriction
  · rw [narrow] at hs
    split at hs
    · -- nothing in common: the restriction takes the place of both
      rename_i hempty
      refine ⟨?_, hs⟩
      rcases h with ⟨p, hp, hpr⟩ | h
      · have hkept := List.mem_filter.2 ⟨hp, List.contains_iff_mem.2 hpr⟩
        rw [hempty] at hkept
        cases hkept
      · exact gives_of_identifier h current hm hl hs
    · constructor
      · exact gives_mono (fun p hp => (List.mem_filter.1 hp).1) hs
      · exact gives_mono (fun p hp => List.contains_iff_mem.1 (List.mem_filter.1 hp).2) hs
  · exact ⟨gives_mono (fun p hp => (List.mem_filter.1 hp).1) hs, gives_of_filter h.1 h.2 hs⟩
  · exact ⟨gives_of_filter h.1 h.2 hs, gives_mono (fun p hp => (List.mem_filter.1 hp).1) hs⟩
  · exact ⟨gives_of_subset_hidden (fun p hp => mem_foldl_append.2 (Or.inl hp)) hs,
      gives_of_subset_hidden (fun p hp => mem_foldl_append.2 (Or.inr hp)) hs⟩

/-- Selections of which the narrowed one offers nothing else are compatible. -/
theorem compatible_of_offers {current restriction : Selection}
    (h : ∀ keys, keys ≠ [] → (current.narrow restriction).offers idField keys = true →
      current.offers idField keys = true ∧ restriction.offers idField keys = true) :
    Compatible idField current restriction := by
  rcases current with current | current <;> rcases restriction with restriction | restriction
  · by_cases hcommon : ∃ p ∈ current, p ∈ restriction
    · exact Or.inl hcommon
    · -- the restriction takes the place of both, and a document of one member `p` shows more of it
      right
      intro p hp
      have hempty : current.filter restriction.contains = [] := by
        rw [List.filter_eq_nil_iff]
        intro q hq hcontains
        exact hcommon ⟨q, hq, List.contains_iff_mem.1 hcontains⟩
      have hnarrow : (showing current).narrow (showing restriction) = showing restriction := by
        rw [narrow, hempty]
      have hshows : shows restriction "" [p] = true := by
        rw [shows, Path.join_empty, List.contains_iff_mem.2 hp, Bool.true_or]
      have hnarrowed :
          ((showing current).narrow (showing restriction)).offers idField [p] = true := by
        rw [hnarrow]
        exact offers_of_shows hshows
      have hoffers := (h [p] (List.cons_ne_nil _ _) hnarrowed).1
      rw [offers, Bool.or_eq_true, Bool.and_eq_true] at hoffers
      rcases hoffers with hshown | ⟨hne, hprefix⟩
      · have hmem : p ∈ current := by simpa [shows] using hshown
        exact absurd ⟨p, hmem, hp⟩ hcommon
      · refine ⟨bne_iff_ne.1 hne, ?_⟩
        have hfront := List.isPrefixOf_iff_prefix.1 hprefix
        obtain ⟨s, rest, hs⟩ := List.exists_cons_of_ne_nil (Path.segments_ne_nil idField)
        rw [hs, List.cons_prefix_cons] at hfront
        rw [hs, hfront.1, List.prefix_nil.1 hfront.2]
  · exact ⟨apart_of_offers fun keys hk hs => (h keys hk hs).2,
      clearOf_of_offers fun keys hk hs => (h keys hk hs).2⟩
  · exact ⟨apart_of_offers fun keys hk hs => (h keys hk hs).1,
      clearOf_of_offers fun keys hk hs => (h keys hk hs).1⟩
  · trivial

/-- A query that is narrowed to two selections stays within both of them exactly if they are
compatible; it then gives out a part of what each of them gives out, in the same order. -/
theorem select_select_within_iff (current restriction : Selection) (idField : String)
    (filter : Option Filter) :
    ∃ narrowed, (((⟨filter, none⟩ : Query).select current).select restriction).selection =
        some narrowed ∧
      (Within idField narrowed current ∧ Within idField narrowed restriction ↔
        Compatible idField current restriction) ∧
      (Compatible idField current restriction → ∀ members, (Value.object members).IsCanonical →
        (leaves (narrowed.apply idField (.object members))).Sublist
            (leaves (current.apply idField (.object members))) ∧
          (leaves (narrowed.apply idField (.object members))).Sublist
            (leaves (restriction.apply idField (.object members)))) := by
  have hsublist : Compatible idField current restriction →
      ∀ members, (Value.object members).IsCanonical →
        (leaves ((current.narrow restriction).apply idField (.object members))).Sublist
            (leaves (current.apply idField (.object members))) ∧
          (leaves ((current.narrow restriction).apply idField (.object members))).Sublist
            (leaves (restriction.apply idField (.object members))) := fun h members hm =>
    ⟨sublist_of_gives hm fun leaf hl hs => (gives_of_narrow h hm hl hs).1,
      sublist_of_gives hm fun leaf hl hs => (gives_of_narrow h hm hl hs).2⟩
  refine ⟨current.narrow restriction, rfl, ?_, hsublist⟩
  constructor
  · rintro ⟨hcurrent, hrestriction⟩
    exact compatible_of_offers fun keys hk hs => ⟨hcurrent.offers hk hs, hrestriction.offers hk hs⟩
  · intro h
    exact ⟨fun members hm => (hsublist h members hm).1.subset,
      fun members hm => (hsublist h members hm).2.subset⟩

/-- A caller who asks for addresses is shown the postcode that the permission hides. -/
theorem postcode_shown_of_address :
    let document := Value.object [("address", .object [("zip", .string "0150")])]
    let leaf : Leaf := (["address", "zip"], .string "0150")
    document.IsCanonical ∧
      ∃ narrowed, (((⟨none, none⟩ : Query).select (.showing ["address"])).select
          (.hiding ["address.zip"])).selection = some narrowed ∧
        leaf ∈ leaves (narrowed.apply "_id" document) ∧
        leaf ∉ leaves ((Selection.hiding ["address.zip"]).apply "_id" document) := by
  intro document leaf
  have hc : document.IsCanonical := by decide
  have hshown : leaves ((Selection.showing ["address"]).apply "_id" document) = [leaf] := rfl
  have hhidden : leaves ((Selection.hiding ["address.zip"]).apply "_id" document) = [] := rfl
  refine ⟨hc, .showing ["address"], rfl, ?_, ?_⟩
  · rw [hshown]
    exact List.mem_singleton_self leaf
  · rw [hhidden]
    exact List.not_mem_nil

end Selection

end RecordGuard
