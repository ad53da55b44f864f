import Mathlib.Algebra.Ring.Parity
import Mathlib.Data.List.Forall2
import RecordGuard.Filter.Like

/-!
# The texts that a LIKE pattern matches

A pattern is read from left to right as a list of tokens. `Token.Takes` says which texts a token
stands for, and a text is cut along tokens if it falls into pieces, one for each token in turn, that
the tokens take (`IsCut`). `isMatch_iff_isCut` says that a pattern matches the texts that are cut
along its tokens, unless it ends in a backslash that has no character to stand for.
-/

namespace RecordGuard.Like

/-- A part of a pattern that stands for a part of a text. -/
inductive Token where
  /-- A percent sign. -/
  | anyRun
  /-- An underscore. -/
  | anyOne
  /-- A backslash and the character behind it. -/
  | escaped (c : Char)
  /-- Any other character. -/
  | plain (c : Char)
  deriving DecidableEq

namespace Token

/-- How a token is written. -/
def text : Token → List Char
  | .anyRun => ['%']
  | .anyOne => ['_']
  | .escaped c => ['\\', c]
  | .plain c => [c]

/-- The token is one that can be read: a special character by itself is no plain token. -/
def IsReadable : Token → Prop
  | .plain c => isSpecial c = false
  | _ => True

/-- The texts that a token stands for. -/
def Takes : Token → List Char → Prop
  | .anyRun, _ => True
  | .anyOne, piece => ∃ c, piece = [c]
  | .escaped c, piece => piece = [c]
  | .plain c, piece => piece = [c]

end Token

/-- The tokens of a pattern; a backslash that is left at its end makes none. -/
def tokens : List Char → List Token
  | [] => []
  | ['\\'] => []
  | '\\' :: c :: pattern => .escaped c :: tokens pattern
  | '%' :: pattern => .anyRun :: tokens pattern
  | '_' :: pattern => .anyOne :: tokens pattern
  | c :: pattern => .plain c :: tokens pattern

/-- The number of backslashes at the end of a pattern. -/
def trailing (pattern : List Char) : Nat :=
  (pattern.reverse.takeWhile (· = '\\')).length

/-- The pattern ends in a backslash that is not the second one of a pair. -/
def EndsUnpaired (pattern : List Char) : Prop := Odd (trailing pattern)

/-- The text falls into consecutive pieces, one for each token, that the tokens take. -/
def IsCut (tokens : List Token) (text : List Char) : Prop :=
  ∃ pieces, pieces.flatten = text ∧ List.Forall₂ Token.Takes tokens pieces

/-! ### Backslashes at the end -/

theorem trailing_le_length (pattern : List Char) : trailing pattern ≤ pattern.length := by
  have h := (List.takeWhile_prefix (· = '\\') (l := pattern.reverse)).length_le
  rwa [List.length_reverse] at h

/-- A character in front counts if it is a backslash and only backslashes follow. -/
theorem trailing_cons (c : Char) (pattern : List Char) :
    trailing (c :: pattern) =
      if trailing pattern = pattern.length ∧ c = '\\' then trailing pattern + 1
      else trailing pattern := by
  rw [trailing, List.reverse_cons, List.takeWhile_append, List.length_reverse]
  show (if trailing pattern = pattern.length then _ else _ : List Char).length = _
  by_cases hall : trailing pattern = pattern.length
  · rw [if_pos hall, List.length_append, List.length_reverse, ← hall]
    by_cases hc : c = '\\'
    · simp [hc]
    · simp [hc]
  · rw [if_neg hall, if_neg fun h => hall h.1]
    rfl

theorem not_endsUnpaired_nil : ¬EndsUnpaired [] := by
  simp [EndsUnpaired, trailing]

theorem endsUnpaired_backslash : EndsUnpaired ['\\'] := by
  simp [EndsUnpaired, trailing]

/-- A character that is no backslash does not change how the pattern ends. -/
theorem endsUnpaired_cons_iff {c : Char} (hc : c ≠ '\\') (pattern : List Char) :
    EndsUnpaired (c :: pattern) ↔ EndsUnpaired pattern := by
  rw [EndsUnpaired, trailing_cons, if_neg fun h => hc h.2]
  rfl

/-- Neither does a backslash with the character behind it. -/
theorem endsUnpaired_pair_iff (c : Char) (pattern : List Char) :
    EndsUnpaired ('\\' :: c :: pattern) ↔ EndsUnpaired pattern := by
  rw [EndsUnpaired, EndsUnpaired, trailing_cons, List.length_cons]
  by_cases hboth : trailing pattern = pattern.length ∧ c = '\\'
  · -- two more backslashes at the end
    have hcons : trailing (c :: pattern) = trailing pattern + 1 := by
      rw [trailing_cons, if_pos hboth]
    rw [if_pos ⟨by rw [hcons, hboth.1], rfl⟩, hcons, Nat.odd_add_one, Nat.odd_add_one, not_not]
  · have hcons : trailing (c :: pattern) = trailing pattern := by
      rw [trailing_cons, if_neg hboth]
    have hle := trailing_le_length pattern
    rw [if_neg (by omega), hcons]

/-! ### Cutting a text -/

theorem isCut_nil_iff {text : List Char} : IsCut [] text ↔ text = [] := by
  constructor
  · rintro ⟨pieces, rfl, hpieces⟩
    cases hpieces
    rfl
  · rintro rfl
    exact ⟨[], rfl, .nil⟩

theorem isCut_cons_iff {token : Token} {rest : List Token} {text : List Char} :
    IsCut (token :: rest) text ↔
      ∃ piece back, piece ++ back = text ∧ token.Takes piece ∧ IsCut rest back := by
  constructor
  · rintro ⟨_, rfl, hpieces⟩
    cases hpieces with
    | cons htakes hrest => exact ⟨_, _, List.flatten_cons.symm, htakes, _, rfl, hrest⟩
  · rintro ⟨piece, _, rfl, htakes, pieces, rfl, hrest⟩
    exact ⟨piece :: pieces, List.flatten_cons, .cons htakes hrest⟩

theorem someSuffix_iff {p : List Char → Bool} {text : List Char} :
    someSuffix p text = true ↔ ∃ front back, front ++ back = text ∧ p back = true := by
  induction text with
  | nil =>
    rw [someSuffix]
    constructor
    · intro h
      exact ⟨[], [], rfl, h⟩
    · rintro ⟨front, back, heq, h⟩
      rwa [(List.append_eq_nil_iff.1 heq).2] at h
  | cons c cs ih =>
    rw [someSuffix, Bool.or_eq_true, ih]
    constructor
    · rintro (h | ⟨front, back, rfl, h⟩)
      · exact ⟨[], c :: cs, rfl, h⟩
      · exact ⟨c :: front, back, rfl, h⟩
    · rintro ⟨front, back, heq, h⟩
      cases front with
      | nil =>
        left
        rwa [← heq]
      | cons d front =>
        right
        exact ⟨front, back, (List.cons.inj heq).2, h⟩

theorem afterChar_iff {expected : Char → Bool} {p : List Char → Bool} {text : List Char} :
    afterChar expected p text = true ↔
      ∃ c back, [c] ++ back = text ∧ expected c = true ∧ p back = true := by
  cases text with
  | nil => simp [afterChar]
  | cons c cs => simp [afterChar]

/-! ### One token after the other -/

theorem isSpecial_eq_false_iff {c : Char} :
    isSpecial c = false ↔ c ≠ '\\' ∧ c ≠ '%' ∧ c ≠ '_' := by
  simp [isSpecial, and_assoc]

theorem tokens_append {token : Token} (h : token.IsReadable) (pattern : List Char) :
    tokens (token.text ++ pattern) = token :: tokens pattern := by
  cases token with
  | plain c =>
    have hc := isSpecial_eq_false_iff.1 h
    simp [Token.text, tokens, hc]
  | _ => simp [Token.text, tokens]

theorem endsUnpaired_append {token : Token} (h : token.IsReadable) (pattern : List Char) :
    EndsUnpaired (token.text ++ pattern) ↔ EndsUnpaired pattern := by
  cases token with
  | anyRun => exact endsUnpaired_cons_iff (by decide) pattern
  | anyOne => exact endsUnpaired_cons_iff (by decide) pattern
  | escaped c => exact endsUnpaired_pair_iff c pattern
  | plain c => exact endsUnpaired_cons_iff (isSpecial_eq_false_iff.1 h).1 pattern

/-- A token in front of a pattern takes a piece in front of what the pattern matches. -/
theorem isMatch_append {token : Token} (h : token.IsReadable) (pattern text : List Char) :
    isMatch (token.text ++ pattern) text = true ↔
      ∃ piece back, piece ++ back = text ∧ token.Takes piece ∧ isMatch pattern back = true := by
  cases token with
  | anyRun =>
    show someSuffix (isMatch pattern) text = true ↔ _
    rw [someSuffix_iff]
    simp [Token.Takes]
  | anyOne =>
    show afterChar (fun _ => true) (isMatch pattern) text = true ↔ _
    rw [afterChar_iff]
    constructor
    · rintro ⟨c, back, heq, -, hback⟩
      exact ⟨[c], back, heq, ⟨c, rfl⟩, hback⟩
    · rintro ⟨_, back, heq, ⟨c, rfl⟩, hback⟩
      exact ⟨c, back, heq, rfl, hback⟩
  | escaped c =>
    show afterChar (· == c) (isMatch pattern) text = true ↔ _
    rw [afterChar_iff]
    simp [Token.Takes]
  | plain c =>
    have hc := isSpecial_eq_false_iff.1 h
    have hmatch : isMatch (c :: pattern) text = afterChar (· == c) (isMatch pattern) text := by
      simp [isMatch, hc]
    show isMatch (c :: pattern) text = true ↔ _
    rw [hmatch, afterChar_iff]
    simp [Token.Takes]

/-- If a pattern matches what is cut along its tokens, so does a token in front of it. -/
theorem isMatch_append_iff_isCut {token : Token} (h : token.IsReadable) {pattern : List Char}
    (ih : ∀ text, isMatch pattern text = true ↔
      ¬EndsUnpaired pattern ∧ IsCut (tokens pattern) text) (text : List Char) :
    isMatch (token.text ++ pattern) text = true ↔
      ¬EndsUnpaired (token.text ++ pattern) ∧ IsCut (tokens (token.text ++ pattern)) text := by
  rw [isMatch_append h, endsUnpaired_append h, tokens_append h, isCut_cons_iff]
  constructor
  · rintro ⟨piece, back, heq, htakes, hback⟩
    obtain ⟨hend, hcut⟩ := (ih back).1 hback
    exact ⟨hend, piece, back, heq, htakes, hcut⟩
  · rintro ⟨hend, piece, back, heq, htakes, hcut⟩
    exact ⟨piece, back, heq, htakes, (ih back).2 ⟨hend, hcut⟩⟩

/-- A pattern matches exactly the texts that fall into consecutive pieces, one for each of its
tokens, and none at all if it ends in an unpaired backslash. -/
theorem isMatch_iff_isCut (pattern text : List Char) :
    isMatch pattern text = true ↔ ¬EndsUnpaired pattern ∧ IsCut (tokens pattern) text := by
  induction pattern using tokens.induct generalizing text with
  | case1 =>
    rw [isMatch, List.isEmpty_iff, tokens, isCut_nil_iff]
    simp [not_endsUnpaired_nil]
  | case2 => simp [isMatch, endsUnpaired_backslash]
  | case3 c pattern ih =>
    have hreadable : (Token.escaped c).IsReadable := trivial
    exact isMatch_append_iff_isCut hreadable ih text
  | case4 pattern ih =>
    have hreadable : Token.anyRun.IsReadable := trivial
    exact isMatch_append_iff_isCut hreadable ih text
  | case5 pattern ih =>
    have hreadable : Token.anyOne.IsReadable := trivial
    exact isMatch_append_iff_isCut hreadable ih text
  | case6 c pattern hlast hpair hrun hone ih =>
    have hreadable : (Token.plain c).IsReadable := by
      refine isSpecial_eq_false_iff.2 ⟨?_, hrun, hone⟩
      rintro rfl
      cases pattern with
      | nil => exact hlast rfl rfl
      | cons d rest => exact hpair d rest rfl rfl
    exact isMatch_append_iff_isCut hreadable ih text

example : isMatch "a\\%_%".toList "a%bcd".toList = true := by decide

end RecordGuard.Like
