import RecordGuard.Proofs.Lookup
import RecordGuard.Proofs.MergedMasks

/-!
# The compact form of masks

The compact form of a mask has a word for every entry. It is read as the mask exactly if each of
these words is one, that is not empty and without white space, and is read as its entry
(`Mask.decode_encode_iff`): a path that is included must not look like one that is excluded
(`Mask.IsExpressible`). All that is read from a text is of this kind, as is what such masks are
merged into, so that the mask which the roles of a caller come to can be written down and read back
when every role states its own as a text (`Mask.compact_form_round_trips`).
-/

namespace RecordGuard

/-! ### Words -/

namespace Text

/-- A word: characters that are not white space, and at least one of them. -/
def IsWord (w : List Char) : Prop := w ≠ [] ∧ ∀ c ∈ w, isBlank c = false

theorem isWord_of_mem_words {cs w : List Char} (h : w ∈ words cs) : IsWord w := by
  induction cs generalizing w with
  | nil => cases h
  | cons c cs ih =>
    rw [words] at h
    split_ifs at h with hblank hstarts
    · exact ih h
    · rw [Bool.not_eq_true] at hblank
      -- the character opens the first word of the rest
      cases hwords : words cs with
      | nil =>
        rw [hwords] at h
        obtain rfl := List.mem_singleton.1 h
        simp [IsWord, hblank]
      | cons first rest =>
        rw [hwords] at h ih
        rcases List.mem_cons.1 h with rfl | h
        · simpa [IsWord, hblank] using (ih List.mem_cons_self).2
        · exact ih (List.mem_cons_of_mem first h)
    · rcases List.mem_cons.1 h with rfl | h
      · simpa [IsWord] using hblank
      · exact ih h

/-- A word ends where no other character of a word follows. -/
theorem words_append {w cs : List Char} (hw : IsWord w) (hcs : startsWord cs = false) :
    words (w ++ cs) = w :: words cs := by
  obtain ⟨hne, hblank⟩ := hw
  induction w with
  | nil => exact absurd rfl hne
  | cons c w ih =>
    have hc : isBlank c = false := hblank c List.mem_cons_self
    cases w with
    | nil => simp [words, hc, hcs]
    | cons d w =>
      have hd : isBlank d = false := hblank d (by simp)
      have hrest := ih (List.cons_ne_nil d w) fun e he => hblank e (List.mem_cons_of_mem c he)
      rw [List.cons_append, words, hrest]
      simp [hc, hd, startsWord, extendWord]

/-- Words with a blank between each two of them are read one by one. -/
theorem words_intercalate {ws : List (List Char)} (h : ∀ w ∈ ws, IsWord w) :
    words ([' '].intercalate ws) = ws := by
  induction ws with
  | nil => rfl
  | cons w ws ih =>
    have hw : IsWord w := h w List.mem_cons_self
    have hrest := ih fun other ho => h other (List.mem_cons_of_mem w ho)
    cases ws with
    | nil =>
      have hword : words (w ++ []) = w :: words [] := words_append hw rfl
      rw [List.append_nil] at hword
      rw [List.intercalate_singleton, hword]
      rfl
    | cons next ws =>
      have hblank : words (' ' :: [' '].intercalate (next :: ws)) = next :: ws := hrest
      rw [List.intercalate_cons_cons, List.append_assoc, List.singleton_append,
        words_append hw rfl, hblank]

end Text

namespace Mask

/-! ### Entries and their words -/

/-- The path has no white space and, if it is included, is not empty and does not start with a minus
sign. -/
def IsExpressibleEntry (entry : String × Bool) : Prop :=
  (∀ c ∈ entry.1.toList, Text.isBlank c = false) ∧
    (entry.2 = true → entry.1 ≠ "" ∧ entry.1.toList.head? ≠ some '-')

/-- The compact form tells all entries of the mask apart. -/
def IsExpressible (mask : Mask) : Prop := ∀ entry ∈ mask.entries, IsExpressibleEntry entry

theorem ofWord_minus (path : List Char) : ofWord ('-' :: path) = (String.ofList path, false) := rfl

theorem ofWord_of_head? {w : List Char} (h : w.head? ≠ some '-') :
    ofWord w = (String.ofList w, true) := by
  unfold ofWord
  split
  · exact absurd rfl h
  · rfl

theorem toList_word_false (path : String) : (word (path, false)).toList = '-' :: path.toList :=
  String.toList_append

theorem isWord_word {entry : String × Bool} (h : IsExpressibleEntry entry) :
    Text.IsWord (word entry).toList := by
  obtain ⟨path, included⟩ := entry
  obtain ⟨hblank, hincluded⟩ := h
  cases included with
  | true => exact ⟨fun hnil => (hincluded rfl).1 (String.toList_eq_nil_iff.1 hnil), hblank⟩
  | false =>
    rw [toList_word_false]
    refine ⟨List.cons_ne_nil _ _, fun c hc => ?_⟩
    rcases List.mem_cons.1 hc with rfl | hc
    · rfl
    · exact hblank c hc

theorem ofWord_word {entry : String × Bool} (h : IsExpressibleEntry entry) :
    ofWord (word entry).toList = entry := by
  obtain ⟨path, included⟩ := entry
  cases included with
  | true =>
    have hpath : word (path, true) = path := rfl
    rw [hpath, ofWord_of_head? (h.2 rfl).2, String.ofList_toList]
  | false => rw [toList_word_false, ofWord_minus, String.ofList_toList]

theorem isExpressibleEntry_ofWord {w : List Char} (h : Text.IsWord w) :
    IsExpressibleEntry (ofWord w) := by
  obtain ⟨hne, hblank⟩ := h
  by_cases hminus : w.head? = some '-'
  · obtain ⟨path, rfl⟩ : ∃ path, w = '-' :: path := ⟨w.tail, (List.cons_head?_tail hminus).symm⟩
    rw [ofWord_minus]
    refine ⟨fun c hc => hblank c (List.mem_cons_of_mem _ ?_), fun hfalse => by cases hfalse⟩
    simpa using hc
  · rw [ofWord_of_head? hminus]
    refine ⟨by simpa using hblank, fun _ => ⟨fun hempty => hne ?_, by simpa using hminus⟩⟩
    simpa using congrArg String.toList hempty

/-! ### Masks and their texts -/

theorem isExpressible_decode (text : String) : (decode text).IsExpressible := by
  intro entry hentry
  have hread : entry ∈ (empty.merge ⟨(Text.words text.toList).map ofWord⟩).entries := hentry
  rcases mem_entries_merge hread with h | h
  · cases h
  · obtain ⟨w, hw, rfl⟩ := List.mem_map.1 h
    exact isExpressibleEntry_ofWord (Text.isWord_of_mem_words hw)

theorem hasDistinctPaths_decode (text : String) : (decode text).HasDistinctPaths :=
  hasDistinctPaths_ofList _

theorem words_encode {mask : Mask} (h : mask.IsExpressible) :
    Text.words (encode mask).toList = mask.entries.map fun entry => (word entry).toList := by
  rw [encode, String.toList_intercalate, List.map_map]
  refine Text.words_intercalate fun w hw => ?_
  obtain ⟨entry, hentry, rfl⟩ := List.mem_map.1 hw
  exact isWord_word (h entry hentry)

/-- The compact form of a mask is read as the mask exactly if it tells the entries apart. -/
theorem decode_encode_iff {mask : Mask} (h : mask.HasDistinctPaths) :
    decode (encode mask) = mask ↔ mask.IsExpressible := by
  constructor
  · intro heq
    exact heq ▸ isExpressible_decode (encode mask)
  · intro hmask
    have hentries : (mask.entries.map fun entry => (word entry).toList).map ofWord =
        mask.entries := by
      rw [List.map_map]
      exact (List.map_congr_left fun entry hentry => ofWord_word (hmask entry hentry)).trans
        (List.map_id _)
    rw [decode, words_encode hmask, hentries, ofList_entries h]

/-! ### Merged masks -/

theorem IsExpressible.merge {mask other : Mask} (h : mask.IsExpressible)
    (ho : other.IsExpressible) : (mask.merge other).IsExpressible := by
  intro entry hentry
  rcases mem_entries_merge hentry with hm | hm
  · exact h entry hm
  · exact ho entry hm

theorem hasDistinctPaths_mergeAll (masks : List Mask) : (mergeAll masks).HasDistinctPaths := by
  induction masks using List.reverseRecOn with
  | nil => exact hasDistinctPaths_empty
  | append_singleton masks last ih =>
    rw [mergeAll, List.foldl_append]
    exact ih.merge last

theorem decode_encode_mergeAll {masks : List Mask} (h : ∀ mask ∈ masks, mask.IsExpressible) :
    decode (encode (mergeAll masks)) = mergeAll masks := by
  refine (decode_encode_iff (hasDistinctPaths_mergeAll masks)).2 fun entry hentry => ?_
  obtain ⟨mask, hmask, hlisted⟩ := mem_entries_mergeAll hentry
  exact h mask hmask entry hlisted

end Mask

/-! ### Masks of callers -/

/-- Every projection of the policy is stated in the compact form. -/
def Policy.IsCompact (policy : Policy) : Prop :=
  ∀ role action rule projection, policy.rule? role action = some (.scoped rule) →
    rule.projection = some projection → ∃ text, projection = .compact text

namespace Permission

variable {policy : Policy} {reserved : ReservedRoles} {action : Action}

/-- The mask of a verdict is one that the policy states for the role. -/
theorem exists_text_of_mask? (h : policy.IsCompact) {role : String} {mask : Mask}
    (hmask : (verdict (some policy) reserved action role).mask? = some mask) :
    ∃ text, mask = Mask.decode text := by
  unfold verdict at hmask
  split_ifs at hmask
  · cases hmask
  · dsimp only at hmask
    cases hrule : policy.rule? role action with
    | none =>
      rw [hrule] at hmask
      cases hmask
    | some rule =>
      rw [hrule] at hmask
      rcases rule with (_ | _) | rule
      · cases hmask
      · cases hmask
      · obtain ⟨projection, hprojection, rfl⟩ := Option.map_eq_some_iff.1 hmask
        obtain ⟨text, rfl⟩ := h role action rule projection hrule hprojection
        exact ⟨text, rfl⟩

/-- The mask that the caller of a permission is left with merges the masks of some of the roles. -/
theorem exists_mergeAll_of_resolve {policy : Option Policy} {identity : Identity}
    {permission : Permission}
    (hresolve : resolve policy reserved (some identity) action = .ok permission) {mask : Mask}
    (hmask : permission.projection = some mask) :
    ∃ verdicts : List Verdict, verdicts ⊆ identity.roles.map (verdict policy reserved action) ∧
      mask = Mask.mergeAll (verdicts.filterMap Verdict.mask?) := by
  have hdecides := decides_foldlM identity (identity.roles.map (verdict policy reserved action))
  rw [← resolve_eq_foldlM, hresolve, Decides] at hdecides
  cases hfail : firstFailure identity (identity.roles.map (verdict policy reserved action)) with
  | some e =>
    rw [hfail] at hdecides
    cases hdecides
  | none =>
    rw [hfail] at hdecides
    dsimp only at hdecides
    split_ifs at hdecides
    · cases hdecides
      cases hmask
    · cases hdecides
      cases hmask
    · obtain ⟨filters, -, heq⟩ := hdecides
      cases heq
      obtain ⟨hmerged, -⟩ := Option.filter_eq_some_iff.1 hmask
      rw [mergedMask] at hmerged
      split_ifs at hmerged
      exact ⟨_, List.drop_subset _ _, (Option.some.inj hmerged).symm⟩

/-- The mask of a caller under a policy that states all masks as texts can be written and read
back. -/
theorem decode_encode_of_resolve (h : policy.IsCompact) {identity : Option Identity}
    {permission : Permission}
    (hresolve : resolve (some policy) reserved identity action = .ok permission) {mask : Mask}
    (hmask : permission.projection = some mask) : Mask.decode (Mask.encode mask) = mask := by
  cases identity with
  | none =>
    cases hresolve
    cases hmask
  | some identity =>
    obtain ⟨verdicts, hverdicts, rfl⟩ := exists_mergeAll_of_resolve hresolve hmask
    refine Mask.decode_encode_mergeAll fun mask hm => ?_
    obtain ⟨v, hv, hmask⟩ := List.mem_filterMap.1 hm
    obtain ⟨role, -, rfl⟩ := List.mem_map.1 (hverdicts hv)
    obtain ⟨text, rfl⟩ := exists_text_of_mask? h hmask
    exact Mask.isExpressible_decode text

end Permission

namespace Mask

/-- A mask is what its compact form is read as exactly if no path has white space and no included
one is empty or starts with a minus sign. Every mask that is read is of this kind, and so is what
two such masks are merged into. What the roles of a caller come to under a policy of compact masks
is therefore read back entry by entry, in its order and with its mode. -/
theorem compact_form_round_trips :
    (∀ mask : Mask, mask.HasDistinctPaths →
      (decode (encode mask) = mask ↔ mask.IsExpressible)) ∧
    (∀ text, (decode text).HasDistinctPaths ∧ (decode text).IsExpressible) ∧
    (∀ mask other : Mask, mask.HasDistinctPaths → mask.IsExpressible → other.IsExpressible →
      (mask.merge other).HasDistinctPaths ∧ (mask.merge other).IsExpressible) ∧
    ∀ (policy : Policy) reserved identity action permission mask, policy.IsCompact →
      Permission.resolve (some policy) reserved identity action = .ok permission →
        permission.projection = some mask → decode (encode mask) = mask := by
  refine ⟨fun mask h => decode_encode_iff h, fun text => ?_, fun mask other h hm ho => ?_, ?_⟩
  · exact ⟨hasDistinctPaths_decode text, isExpressible_decode text⟩
  · exact ⟨h.merge other, hm.merge ho⟩
  · intro policy reserved identity action permission mask hpolicy hresolve hmask
    exact Permission.decode_encode_of_resolve hpolicy hresolve hmask

/-- The mask of an editor who is a user: the notes are shown to editors, and keep the place that the
user's mask gives them. A path that starts with a minus sign cannot be included in this form. -/
theorem compact_form_round_trips_of_editors :
    let editor := RoleRules.empty.set .read (.scoped ⟨none, some (.compact "notes -phone")⟩)
    let user := RoleRules.empty.set .read (.scoped ⟨none, some (.compact "-salary\t-notes")⟩)
    let policy : Policy := ⟨[("EDITOR", editor), ("USER", user)]⟩
    let identity := Identity.ofRoles ["USER", "EDITOR"]
    let mask : Mask := ⟨[("salary", false), ("notes", true), ("phone", false)]⟩
    let minus : Mask := ⟨[("-notes", true)]⟩
    policy.IsCompact ∧
      (∃ permission, Permission.resolve (some policy) {} (some identity) .read = .ok permission ∧
        permission.projection = some mask) ∧
      decode (encode mask) = mask ∧
      minus.HasDistinctPaths ∧ decode (encode minus) ≠ minus := by
  intro editor user policy identity mask minus
  have hpolicy : policy.IsCompact := by
    intro role action rule projection hrule hprojection
    obtain ⟨rules, hrules, hrule⟩ := Option.bind_eq_some_iff.1 hrule
    have hentry := Entries.mem_of_get? hrules
    simp only [policy, List.mem_cons, Prod.mk.injEq, List.not_mem_nil, or_false] at hentry
    rcases hentry with ⟨-, rfl⟩ | ⟨-, rfl⟩ <;> cases action <;> cases hrule <;>
      cases hprojection <;> exact ⟨_, rfl⟩
  have hresolve : Permission.resolve (some policy) {} (some identity) .read =
      .ok (.scoped ⟨[], some mask⟩) := by rfl
  obtain ⟨hexact, -, -, hcallers⟩ := compact_form_round_trips
  have hminus : minus.HasDistinctPaths := by decide
  refine ⟨hpolicy, ⟨_, hresolve, rfl⟩, hcallers _ _ _ _ _ _ hpolicy hresolve rfl, hminus, ?_⟩
  rw [Ne, hexact minus hminus]
  exact fun h => ((h _ (List.mem_singleton_self _)).2 rfl).2 rfl

end Mask

end RecordGuard
