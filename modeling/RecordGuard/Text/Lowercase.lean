import RecordGuard.Text.CaseTable
import RecordGuard.Text.Ranges

/-!
# Lower case

Text in lower case, by the full case mapping of Unicode without a language: every capital becomes
its lower case letter, a capital I with a dot becomes an i and a combining dot, and a capital sigma
becomes a final sigma at the end of a word. On ASCII text this is the ASCII mapping, letter by
letter (`lowercase_ascii`).
-/

namespace RecordGuard.Text

/-- Whether a character has a case and counts as a letter next to a sigma. -/
def isCased (c : Char) : Bool :=
  if c.toNat < 0x80 then c.isAlpha else inRanges casedRanges c.toNat

/-- Whether a character is ignored when the neighbours of a sigma are looked for. -/
def isIgnorable (c : Char) : Bool :=
  if c.toNat < 0x80 then c == '\x27' || c == '.' || c == ':' || c == '^' || c == '\x60'
  else inRanges ignorableRanges c.toNat

/-- Whether the first character that is not ignored has a case. -/
def startsCased (cs : List Char) : Bool :=
  match cs.dropWhile isIgnorable with
  | [] => false
  | c :: _ => isCased c

/-- The lower case of a character on its own. -/
def lowerChar (c : Char) : List Char :=
  if c.toNat < 0x80 then [c.toLower]
  else if c = 'İ' then ['i', '\u0307']
  else
    match caseRows.find? (·.covers c.toNat) with
    | some row => [Char.ofNat (c.toNat + row.offset).toNat]
    | none => [c]

/-- The lower case of the characters that follow those `before`, which stand in reverse order. -/
def lowerAfter (before : List Char) : List Char → List Char
  | [] => []
  | c :: cs =>
    if c = 'Σ' then
      (if startsCased before && !startsCased cs then 'ς' else 'σ') :: lowerAfter (c :: before) cs
    else lowerChar c ++ lowerAfter (c :: before) cs

/-- Text in lower case. -/
def lowercase (cs : List Char) : List Char := lowerAfter [] cs

theorem lowerAfter_ascii (before cs : List Char) (h : ∀ c ∈ cs, c.toNat < 0x80) :
    lowerAfter before cs = cs.map Char.toLower := by
  induction cs generalizing before with
  | nil => rfl
  | cons c cs ih =>
    have hc : c.toNat < 0x80 := h c List.mem_cons_self
    have hs : c ≠ 'Σ' := by
      rintro rfl
      exact absurd hc (by decide)
    simp [lowerAfter, hs, lowerChar, hc, ih _ fun d hd => h d (List.mem_cons_of_mem _ hd)]

theorem lowercase_ascii {cs : List Char} (h : ∀ c ∈ cs, c.toNat < 0x80) :
    lowercase cs = cs.map Char.toLower :=
  lowerAfter_ascii [] cs h

end RecordGuard.Text
