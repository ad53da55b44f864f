import RecordGuard.Proofs.ExternalNames
import RecordGuard.Proofs.LikePatterns

/-!
# Search terms

A search term is escaped and looked for between two percent signs. `isMatch_containing` says that
such a pattern matches the texts in which the term occurs as it is, whatever characters the term
has. The search ignores case, so that pattern and text are put into lower case first; this commutes
with escaping (`lowercase_containing`), for no letter has a lower case with a meaning of its own in
a pattern, and escaping leaves the letters around a sigma what they were. So an entity's search
filter finds the lower case of a term in the lower case of a field (`search_finds_term`).
-/

namespace RecordGuard

open Json (Value)

/-! ### Patterns of escaped text -/

namespace Like

/-- The pattern of the texts that contain a term. -/
def containing (term : List Char) : List Char := '%' :: (escape term ++ ['%'])

theorem isSpecial_cases {c : Char} (h : isSpecial c = true) : c = '\\' ∨ c = '%' ∨ c = '_' := by
  simpa [isSpecial, or_assoc] using h

/-- The token that a character is escaped to. -/
def Token.ofChar (c : Char) : Token := if isSpecial c then .escaped c else .plain c

theorem Token.isReadable_ofChar (c : Char) : (ofChar c).IsReadable := by
  unfold ofChar
  split_ifs with hc
  · exact trivial
  · exact Bool.eq_false_iff.2 hc

theorem Token.takes_ofChar_iff {c : Char} {piece : List Char} :
    (ofChar c).Takes piece ↔ piece = [c] := by
  unfold ofChar
  split_ifs <;> rfl

theorem escape_nil : escape [] = [] := rfl

theorem escape_cons (c : Char) (text : List Char) :
    escape (c :: text) = (Token.ofChar c).text ++ escape text := by
  unfold escape Token.ofChar
  rw [List.flatMap_cons]
  split_ifs <;> rfl

theorem escape_append (front back : List Char) :
    escape (front ++ back) = escape front ++ escape back :=
  List.flatMap_append

theorem escape_of_forall {text : List Char} (h : ∀ c ∈ text, isSpecial c = false) :
    escape text = text := by
  induction text with
  | nil => rfl
  | cons c text ih =>
    obtain ⟨hc, htext⟩ := List.forall_mem_cons.1 h
    rw [escape_cons, Token.ofChar, hc, ih htext]
    rfl

/-- Escaped text takes itself in front of what the rest of the pattern matches. -/
theorem isMatch_escape_append (term pattern text : List Char) :
    isMatch (escape term ++ pattern) text = true ↔
      ∃ back, term ++ back = text ∧ isMatch pattern back = true := by
  induction term generalizing text with
  | nil => simp [escape_nil]
  | cons c term ih =>
    rw [escape_cons, List.append_assoc, isMatch_append (Token.isReadable_ofChar c)]
    simp only [Token.takes_ofChar_iff, ih]
    constructor
    · rintro ⟨piece, _, rfl, rfl, back, rfl, h⟩
      exact ⟨back, rfl, h⟩
    · rintro ⟨back, rfl, h⟩
      exact ⟨[c], term ++ back, rfl, rfl, back, rfl, h⟩

theorem isMatch_percent_cons (pattern text : List Char) :
    isMatch ('%' :: pattern) text = true ↔
      ∃ front back, front ++ back = text ∧ isMatch pattern back = true :=
  someSuffix_iff

/-- Between two percent signs an escaped term matches the texts in which it occurs. -/
theorem isMatch_containing (term text : List Char) :
    isMatch (containing term) text = true ↔ term <:+: text := by
  rw [containing, isMatch_percent_cons]
  simp only [isMatch_escape_append, isMatch_percent_cons]
  constructor
  · rintro ⟨front, _, rfl, _, rfl, middle, back, rfl, -⟩
    exact ⟨front, middle ++ back, List.append_assoc _ _ _⟩
  · rintro ⟨front, back, rfl⟩
    refine ⟨front, term ++ back, (List.append_assoc _ _ _).symm, back, rfl, back, [], ?_, rfl⟩
    exact List.append_nil back

example : isMatch (containing "0%_".toList) "50%_off".toList = true := by decide

end Like

/-! ### Escaped text in lower case -/

namespace Text

open Like

/-- Special characters have no case. -/
theorem lowerChar_of_isSpecial {c : Char} (h : isSpecial c = true) : lowerChar c = [c] := by
  rcases isSpecial_cases h with rfl | rfl | rfl <;> decide

theorem isSpecial_of_lt_toNat {c : Char} (h : 0x5F < c.toNat) : isSpecial c = false := by
  refine isSpecial_eq_false_iff.2 ⟨?_, ?_, ?_⟩ <;> rintro rfl <;> revert h <;> decide

theorem isSpecial_ofNat {n : Nat} (h : 0x5F < n) : isSpecial (Char.ofNat n) = false := by
  by_cases hvalid : n.isValidChar
  · rw [Char.ofNat, dif_pos hvalid]
    exact isSpecial_of_lt_toNat h
  · rw [Char.ofNat, dif_neg hvalid]
    rfl

theorem isSpecial_toLower_ofNat :
    ∀ n < 0x80, isSpecial (Char.ofNat n).toLower = isSpecial (Char.ofNat n) := by
  decide +kernel

/-- What the table gives for capitals lies behind all special characters. -/
theorem lt_first_add_offset : ∀ row ∈ caseRows, 0x5F < row.first + row.offset := by
  decide +kernel

/-- Characters that are not special have no special ones in their lower case. -/
theorem isSpecial_of_mem_lowerChar {c d : Char} (hc : isSpecial c = false) (h : d ∈ lowerChar c) :
    isSpecial d = false := by
  unfold lowerChar at h
  split_ifs at h with hascii hdot
  · rw [List.mem_singleton.1 h, ← Char.ofNat_toNat c, isSpecial_toLower_ofNat _ hascii,
      Char.ofNat_toNat, hc]
  · rcases List.mem_cons.1 h with rfl | h
    · rfl
    · rw [List.mem_singleton.1 h]
      rfl
  · cases hrow : caseRows.find? (·.covers c.toNat) with
    | none =>
      rw [hrow] at h
      rwa [List.mem_singleton.1 h]
    | some row =>
      rw [hrow] at h
      rw [List.mem_singleton.1 h]
      have hcovers := List.find?_some hrow
      have hfirst : row.first ≤ c.toNat := (of_decide_eq_true hcovers).1
      have hlt := lt_first_add_offset row (List.mem_of_find?_eq_some hrow)
      exact isSpecial_ofNat (by omega)

theorem startsCased_cons (c : Char) (cs : List Char) :
    startsCased (c :: cs) = if isIgnorable c then startsCased cs else isCased c := by
  unfold startsCased
  rw [List.dropWhile_cons]
  split_ifs <;> rfl

/-- A special character ends the search for a letter next to a sigma. -/
theorem startsCased_of_isSpecial {c : Char} (h : isSpecial c = true) (cs : List Char) :
    startsCased (c :: cs) = false := by
  rw [startsCased_cons]
  rcases isSpecial_cases h with rfl | rfl | rfl <;> rfl

/-- Neither escaping nor the percent sign at the end changes what follows a sigma. -/
theorem startsCased_escape (cs : List Char) :
    startsCased (escape cs ++ ['%']) = startsCased cs := by
  induction cs with
  | nil => decide
  | cons c cs ih =>
    rw [escape_cons, Token.ofChar]
    split_ifs with hc
    · rw [startsCased_of_isSpecial hc]
      exact startsCased_of_isSpecial rfl _
    · rw [startsCased_cons, ← ih, ← startsCased_cons]
      rfl

/-- Lower case commutes with escaping, as long as a sigma at the start has letters before it in
both texts or in neither. -/
theorem lowerAfter_escape {before before' : List Char}
    (hbefore : startsCased before = startsCased before') (cs : List Char) :
    lowerAfter before (escape cs ++ ['%']) = escape (lowerAfter before' cs) ++ ['%'] := by
  induction cs generalizing before before' with
  | nil => rfl
  | cons c cs ih =>
    rw [escape_cons, Token.ofChar]
    by_cases hsigma : c = 'Σ'
    · subst hsigma
      have hnext : startsCased ('Σ' :: before) = startsCased ('Σ' :: before') := by
        rw [startsCased_cons, startsCased_cons, hbefore]
      show lowerAfter before ('Σ' :: (escape cs ++ ['%'])) = _
      rw [lowerAfter, lowerAfter, if_pos rfl, if_pos rfl, startsCased_escape, hbefore, ih hnext]
      split_ifs <;> rfl
    · rw [lowerAfter, if_neg hsigma, escape_append]
      split_ifs with hc
      · have hnext : startsCased (c :: '\\' :: before) = startsCased (c :: before') := by
          rw [startsCased_of_isSpecial hc, startsCased_of_isSpecial hc]
        show lowerAfter before ('\\' :: c :: (escape cs ++ ['%'])) = _
        rw [lowerAfter, if_neg (by decide), lowerAfter, if_neg hsigma, ih hnext,
          lowerChar_of_isSpecial hc, escape_cons, Token.ofChar, if_pos hc]
        rfl
      · have hc : isSpecial c = false := Bool.eq_false_iff.2 hc
        have hnext : startsCased (c :: before) = startsCased (c :: before') := by
          rw [startsCased_cons, startsCased_cons, hbefore]
        show lowerAfter before (c :: (escape cs ++ ['%'])) = _
        rw [lowerAfter, if_neg hsigma, ih hnext,
          escape_of_forall fun _ => isSpecial_of_mem_lowerChar hc, List.append_assoc]

theorem lowercase_containing (term : List Char) :
    lowercase (containing term) = containing (lowercase term) := by
  have hbefore : startsCased ['%'] = startsCased [] := by decide
  show '%' :: lowerAfter ['%'] (escape term ++ ['%']) = _
  rw [lowerAfter_escape hbefore]
  rfl

end Text

/-! ### The search filter of an entity -/

theorem Filter.anyOf_eq_none_iff {filters : List Filter} : anyOf filters = none ↔ filters = [] := by
  unfold anyOf
  split <;> simp

namespace EntitySettings

/-- A search term occurs in a field. -/
theorem isMatch_search (field : String) (term : String) (document : Value) :
    (Filter.field field (.likeIgnoringCase (String.ofList (Like.containing term.toList)))).isMatch
        document = true ↔
      ∃ text, Path.get? document field = some (.string text) ∧
        Text.lowercase term.toList <:+: Text.lowercase text.toList := by
  rw [Filter.isMatch]
  cases Path.get? document field with
  | none => simp [Test.holds]
  | some v => cases v <;>
      simp [Test.holds, Text.lowercase_containing, Like.isMatch_containing]

/-- Between its percent signs an escaped term matches exactly the texts in which it occurs, and the
search filter of an entity with search fields matches exactly the documents that have the lower
case of the term in the lower case of one of them. -/
theorem search_finds_term (entity : EntitySettings) (term : String) :
    (∀ text : String,
      Like.isMatch ('%' :: (Like.escape term.toList ++ ['%'])) text.toList = true ↔
        term.toList <:+: text.toList) ∧
    (entity.searchFilter term = none ↔ entity.searchFields = []) ∧
    ∀ document, Filter.accepts (entity.searchFilter term) document = true ↔
      (entity.searchFields ≠ [] → ∃ field ∈ entity.searchFields, ∃ text,
        Path.get? document field = some (.string text) ∧
          Text.lowercase term.toList <:+: Text.lowercase text.toList) := by
  refine ⟨fun text => Like.isMatch_containing _ _, ?_, fun document => ?_⟩
  · rw [searchFilter, Filter.anyOf_eq_none_iff, List.map_eq_nil_iff]
  · rw [accepts_searchFilter]
    exact imp_congr_right fun _ => exists_congr fun field =>
      and_congr_right' (isMatch_search field term document)

end EntitySettings

end RecordGuard
