import RecordGuard.Json.Printer
import RecordGuard.Proofs.Canonical
import RecordGuard.Proofs.PrintedNumbers
import RecordGuard.Proofs.Rewriting

/-!
# Printed text is read back

What the printer writes the reader reads. Strings come back whatever they contain
(`string_json`); numbers are read as their texts are, and containers that are nested too deep are
unreadable (`Value.reread`, `Value.value_compactChars`). A value whose numbers are legible and which
is not nested too deep comes back as the tree of the value (`Tree.read?_compact`). The value that is
read from the text of any value is what `readBack` says, and there is one exactly if the value is
not nested too deep and none of its numbers is too large (`Value.read?_compact_eq_some_iff`).
-/

namespace RecordGuard.Json.Reader

open Text.Quoted (json jsonChar hexDigit)

/-! ### Strings -/

theorem hexValue?_hexDigit : ∀ n < 16, hexValue? (hexDigit n) = some n := by decide

theorem pieces_escape {e c : Char} (hu : e ≠ 'u') (h : escaped? e = some c) (rest : List Char) :
    pieces ('\\' :: e :: rest) =
      (pieces rest).map fun read => (.char c :: read.1, read.2) := by
  rw [pieces, h]
  · cases pieces rest <;> rfl
  · intro _ _ _ _ _ heq
    exact absurd heq hu

theorem pieces_unit {c : Char} (h : c.toNat < 0x20) (rest : List Char) :
    pieces ('\\' :: 'u' :: '0' :: '0' :: hexDigit (c.toNat / 16) :: hexDigit (c.toNat % 16) ::
        rest) =
      (pieces rest).map fun read => (.unit c.toNat :: read.1, read.2) := by
  have hhigh := hexValue?_hexDigit (c.toNat / 16) (by omega)
  have hlow := hexValue?_hexDigit (c.toNat % 16) (by omega)
  have hunit : hexUnit? '0' '0' (hexDigit (c.toNat / 16)) (hexDigit (c.toNat % 16)) =
      some c.toNat := by
    have hzero : hexValue? '0' = some 0 := by decide
    rw [hexUnit?, hzero, hhigh, hlow]
    show some _ = some _
    congr 1
    omega
  rw [pieces, hunit]
  cases pieces rest <;> rfl

theorem pieces_self {c : Char} (hquote : c ≠ '"') (hslash : c ≠ '\\') (h : ¬ c.toNat < 0x20)
    (rest : List Char) :
    pieces (c :: rest) = (pieces rest).map fun read => (.char c :: read.1, read.2) := by
  rw [pieces, if_neg h]
  · cases pieces rest <;> rfl
  · exact hquote
  · intro _ _ _ _ _ heq
    exact absurd heq hslash
  · intro _ _ heq
    exact absurd heq hslash

/-- The piece that a printed character is read as: a control character without a short escape is
written as a unit. -/
def pieceOf (c : Char) : Piece :=
  if c.toNat < 0x20 ∧ c ∉ ['\n', '\r', '\t', '\x08', '\x0c'] then .unit c.toNat else .char c

/-- Every character is printed in a form that is read as one piece. -/
theorem pieces_jsonChar (c : Char) (rest : List Char) :
    pieces (jsonChar c ++ rest) =
      (pieces rest).map fun read => (pieceOf c :: read.1, read.2) := by
  unfold jsonChar
  split_ifs with hquote hslash hn hr ht hb hf hcontrol
  · subst hquote
    exact pieces_escape (by decide) (by decide) rest
  · subst hslash
    exact pieces_escape (by decide) (by decide) rest
  · subst hn
    exact pieces_escape (by decide) (by decide) rest
  · subst hr
    exact pieces_escape (by decide) (by decide) rest
  · subst ht
    exact pieces_escape (by decide) (by decide) rest
  · subst hb
    exact pieces_escape (by decide) (by decide) rest
  · subst hf
    exact pieces_escape (by decide) (by decide) rest
  · have hpiece : pieceOf c = .unit c.toNat := by
      simp [pieceOf, hcontrol, hn, hr, ht, hb, hf]
    rw [hpiece]
    exact pieces_unit hcontrol rest
  · have hpiece : pieceOf c = .char c := if_neg fun h => hcontrol h.1
    rw [hpiece]
    exact pieces_self hquote hslash hcontrol rest

theorem pieces_flatMap_jsonChar (cs rest : List Char) :
    pieces (cs.flatMap jsonChar ++ '"' :: rest) = some (cs.map pieceOf, rest) := by
  induction cs with
  | nil => rfl
  | cons c cs ih =>
    rw [List.flatMap_cons, List.append_assoc, pieces_jsonChar, ih]
    rfl

/-- A unit that is no half of a surrogate pair stands for its character. -/
theorem join_unit {n : Nat} (h : n < 0xD800) (ps : List Piece) :
    join (.unit n :: ps) = (join ps).map (Char.ofNat n :: ·) := by
  have hhigh : isHighSurrogate n = false := by
    rw [isHighSurrogate, decide_eq_false_iff_not]
    omega
  have hlow : isLowSurrogate n = false := by
    rw [isLowSurrogate, decide_eq_false_iff_not]
    omega
  rcases ps with _ | ⟨_ | _, _⟩ <;> simp [join, hhigh, hlow]

theorem join_map_pieceOf (cs : List Char) : join (cs.map pieceOf) = some cs := by
  induction cs with
  | nil => rfl
  | cons c cs ih =>
    rw [List.map_cons, pieceOf]
    split_ifs with h
    · rw [join_unit (by omega), ih, Option.map_some, Char.ofNat_toNat]
    · rw [join, ih]
      rfl

/-- A printed string is read back, whatever it contains. -/
theorem string_json (s : String) (rest : List Char) :
    string (s.toList.flatMap jsonChar ++ '"' :: rest) = some (some s, rest) := by
  rw [string, pieces_flatMap_jsonChar]
  show some ((join (s.toList.map pieceOf)).map String.ofList, rest) = _
  rw [join_map_pieceOf, Option.map_some, String.ofList_toList]

/-! ### Steps of the reader -/

section Steps

variable {fuel depth : Nat} {cs more rest : List Char} {t : Tree}

theorem value_string (s : String) :
    value (fuel + 1) depth (json s.toList ++ rest) = some (.string s, rest) := by
  have hopen : json s.toList ++ rest = '"' :: (s.toList.flatMap jsonChar ++ '"' :: rest) := by
    simp [json]
  rw [hopen, value, skipBlanks_cons (by decide)]
  show (string _).bind _ = _
  rw [string_json]
  rfl

theorem value_array {ts : List Tree} (h : items fuel (depth - 1) cs = some (ts, rest)) :
    value (fuel + 1) depth ('[' :: cs) =
      some (if depth = 0 then .unreadable else .array ts, rest) := by
  rw [value, skipBlanks_cons (by decide)]
  show (items fuel (depth - 1) cs).bind _ = _
  rw [h]
  rfl

theorem items_of_head {c : Char} (hblank : isBlank c = false) (hclose : c ≠ ']') :
    items (fuel + 1) depth (c :: cs) = moreItems fuel depth (c :: cs) := by
  rw [items, skipBlanks_cons hblank]
  split
  · rename_i heq
    exact absurd (List.cons.inj heq).1 hclose
  · rfl

theorem moreItems_last (h : value fuel depth cs = some (t, ']' :: rest)) :
    moreItems (fuel + 1) depth cs = some ([t], rest) := by
  rw [moreItems, h]
  rfl

theorem moreItems_comma {ts : List Tree} (h : value fuel depth cs = some (t, ',' :: more))
    (hmore : moreItems fuel depth more = some (ts, rest)) :
    moreItems (fuel + 1) depth cs = some (t :: ts, rest) := by
  rw [moreItems, h]
  show (moreItems fuel depth more).bind _ = _
  rw [hmore]
  rfl

theorem objectTree_keyed (ms : List (String × Tree)) :
    objectTree (ms.map fun m => (some m.1, m.2)) = .object ms := by
  have hkeys : (ms.map fun m => ((some m.1 : Option String), m.2)).mapM
      (fun member => member.1.map (·, member.2)) = some ms := by
    induction ms with
    | nil => rfl
    | cons m ms ih => rw [List.map_cons, List.mapM_cons, ih]; rfl
  rw [objectTree]
  split
  · rename_i members hmembers
    cases hkeys.symm.trans hmembers
    rfl
  · rename_i hnone
    cases hkeys.symm.trans hnone

theorem value_object {ms : List (String × Tree)}
    (h : members fuel (depth - 1) cs = ⟨ms.map fun m => (some m.1, m.2), some rest⟩) :
    value (fuel + 1) depth ('{' :: cs) =
      some (if depth = 0 then .unreadable else .object ms, rest) := by
  rw [value, skipBlanks_cons (by decide)]
  show ((members fuel (depth - 1) cs).rest.bind fun left =>
    some (if depth = 0 then Tree.unreadable
      else objectTree (members fuel (depth - 1) cs).found, left)) = _
  rw [h, objectTree_keyed]
  rfl

theorem member_json (key : String) (h : value fuel depth cs = some (t, rest)) :
    member (fuel + 1) depth (json key.toList ++ ':' :: cs) = some (some key, t, rest) := by
  have hopen : json key.toList ++ ':' :: cs =
      '"' :: (key.toList.flatMap jsonChar ++ '"' :: ':' :: cs) := by
    simp [json]
  rw [hopen, member, skipBlanks_cons (by decide)]
  show (string _).bind _ = _
  rw [string_json]
  show (value fuel depth cs).bind _ = _
  rw [h]
  rfl

theorem members_of_head {c : Char} (hblank : isBlank c = false) (hclose : c ≠ '}') :
    members (fuel + 1) depth (c :: cs) = moreMembers fuel depth (c :: cs) := by
  rw [members, skipBlanks_cons hblank]
  split
  · rename_i heq
    exact absurd (List.cons.inj heq).1 hclose
  · rfl

theorem moreMembers_last {key : Option String}
    (h : member fuel depth cs = some (key, t, '}' :: rest)) :
    moreMembers (fuel + 1) depth cs = ⟨[(key, t)], some rest⟩ := by
  rw [moreMembers, h]
  rfl

theorem moreMembers_comma {key : Option String} {ms : List (Option String × Tree)}
    (h : member fuel depth cs = some (key, t, ',' :: more))
    (hmore : moreMembers fuel depth more = ⟨ms, some rest⟩) :
    moreMembers (fuel + 1) depth cs = ⟨(key, t) :: ms, some rest⟩ := by
  rw [moreMembers, h]
  show Members.mk ((key, t) :: (moreMembers fuel depth more).found)
    (moreMembers fuel depth more).rest = _
  rw [hmore]

end Steps

end RecordGuard.Json.Reader

namespace RecordGuard.Json

/-- The text of the number, read alone, is the number. -/
def Number.IsLegible (n : Number) : Prop := n.reread? = some n

theorem Number.isLegible_integer {n : Int} (h : isInteger n = true) : (integer n).IsLegible :=
  Reader.reread?_integer h

namespace Value

/-! ### Values -/

mutual

/-- How many containers stand around the innermost part of a value. -/
def nesting : Value → Nat
  | .array items => nestingOfItems items + 1
  | .object members => nestingOfMembers members + 1
  | _ => 0
termination_by structural v => v

/-- The nesting of the deepest item. -/
def nestingOfItems : List Value → Nat
  | [] => 0
  | v :: vs => max (nesting v) (nestingOfItems vs)
termination_by structural vs => vs

/-- The nesting of the deepest member. -/
def nestingOfMembers : List (String × Value) → Nat
  | [] => 0
  | (_, v) :: ms => max (nesting v) (nestingOfMembers ms)
termination_by structural ms => ms

end

mutual

/-- What the text of a value is read as where `depth` containers may still be opened. -/
def reread : Value → Nat → Tree
  | .null, _ => .null
  | .bool b, _ => .bool b
  | .number n, _ => (n.reread?.map .number).getD .unreadable
  | .string s, _ => .string s
  | .array items, depth => if depth = 0 then .unreadable else .array (rereadItems items (depth - 1))
  | .object members, depth =>
    if depth = 0 then .unreadable else .object (rereadMembers members (depth - 1))
termination_by structural v => v

/-- What the texts of items are read as. -/
def rereadItems : List Value → Nat → List Tree
  | [], _ => []
  | v :: vs, depth => reread v depth :: rereadItems vs depth
termination_by structural vs => vs

/-- What the texts of members are read as. -/
def rereadMembers : List (String × Value) → Nat → List (String × Tree)
  | [], _ => []
  | (k, v) :: ms, depth => (k, reread v depth) :: rereadMembers ms depth
termination_by structural ms => ms

end

/-- A printed value opens neither with a blank nor with a closing bracket. -/
theorem exists_compactChars_eq (v : Value) :
    ∃ c cs, v.compactChars = c :: cs ∧ Reader.isBlank c = false ∧ c ≠ ']' := by
  cases v with
  | null => exact ⟨_, _, rfl, by decide, by decide⟩
  | bool b => cases b <;> exact ⟨_, _, rfl, by decide, by decide⟩
  | number n =>
    obtain ⟨c, cs, heq, hopens⟩ := Reader.exists_of_number (Reader.number_text n)
    exact ⟨c, cs, heq, hopens.isBlank_eq_false, hopens.ne (by decide) (by decide)⟩
  | string s => exact ⟨_, _, rfl, by decide, by decide⟩
  | array items => exact ⟨_, _, rfl, by decide, by decide⟩
  | object members => exact ⟨_, _, rfl, by decide, by decide⟩

theorem compactItems_cons (v : Value) (vs : List Value) :
    compactItems (v :: vs) =
      v.compactChars ++ if vs.isEmpty then [] else ',' :: compactItems vs := by
  cases vs with
  | nil => simp [compactItems]
  | cons w vs => rfl

theorem compactMembers_cons (key : String) (v : Value) (ms : List (String × Value)) :
    compactMembers ((key, v) :: ms) =
      Text.Quoted.json key.toList ++ ':' :: v.compactChars ++
        if ms.isEmpty then [] else ',' :: compactMembers ms := by
  cases ms with
  | nil => simp [compactMembers]
  | cons m ms => rfl

open Reader (EndsNumber endsNumber_bracket endsNumber_brace endsNumber_comma)

mutual

/-- A printed value is read, with at most four steps for each of its characters. -/
theorem value_compactChars : (v : Value) → {fuel depth : Nat} → {rest : List Char} →
    4 * v.compactChars.length ≤ fuel → EndsNumber rest →
    Reader.value fuel depth (v.compactChars ++ rest) = some (v.reread depth, rest)
  | .null, fuel + 1, _, _, _, _ => rfl
  | .bool true, fuel + 1, _, _, _, _ => rfl
  | .bool false, fuel + 1, _, _, _, _ => rfl
  | .number n, fuel, depth, rest, hfuel, hr => by
    have hread := Reader.number_text n
    obtain ⟨c, cs, heq, hopens⟩ := Reader.exists_of_number hread
    have happend := Reader.number_append hread hr
    rw [compactChars, heq] at hfuel ⊢
    rw [heq] at happend
    cases fuel with
    | zero => simp at hfuel
    | succ fuel => rw [List.cons_append, Reader.value_of_opensNumber hopens]; exact happend
  | .string s, fuel + 1, _, _, _, _ => Reader.value_string s
  | .array [], fuel + 2, _, _, _, _ => Reader.value_array rfl
  | .array (v :: vs), fuel + 2, depth, rest, hfuel, _ => by
    -- the two brackets pay for the steps before the first item
    have hitems : Reader.moreItems fuel (depth - 1) (compactItems (v :: vs) ++ ']' :: rest) =
        some (rereadItems (v :: vs) (depth - 1), rest) := by
      refine moreItems_compactItems v vs ?_
      simp only [compactChars, List.length_cons, List.length_append, List.length_nil] at hfuel
      omega
    obtain ⟨c, cs, heq, hblank, hclose⟩ := exists_compactChars_eq v
    have hopen : compactItems (v :: vs) ++ ']' :: rest =
        c :: (cs ++ (if vs.isEmpty then [] else ',' :: compactItems vs) ++ ']' :: rest) := by
      rw [compactItems_cons, heq]
      rfl
    rw [hopen] at hitems
    rw [compactChars, List.cons_append, List.append_assoc, List.singleton_append, hopen]
    exact Reader.value_array ((Reader.items_of_head hblank hclose).trans hitems)
  | .object [], fuel + 2, _, _, _, _ => @Reader.value_object _ _ _ _ [] rfl
  | .object ((key, v) :: ms), fuel + 2, depth, rest, hfuel, _ => by
    have hmembers : Reader.moreMembers fuel (depth - 1)
          (compactMembers ((key, v) :: ms) ++ '}' :: rest) =
        ⟨(rereadMembers ((key, v) :: ms) (depth - 1)).map fun m => (some m.1, m.2), some rest⟩ := by
      refine moreMembers_compactMembers key v ms ?_
      simp only [compactChars, List.length_cons, List.length_append, List.length_nil] at hfuel
      omega
    rw [compactChars, List.cons_append, List.append_assoc, List.singleton_append]
    refine Reader.value_object (Eq.trans ?_ hmembers)
    rw [compactMembers_cons]
    exact Reader.members_of_head (by decide) (by decide)

/-- Printed items are read up to the closing bracket. -/
theorem moreItems_compactItems : (v : Value) → (vs : List Value) → {fuel depth : Nat} →
    {rest : List Char} → 4 * (compactItems (v :: vs)).length < fuel →
    Reader.moreItems fuel depth (compactItems (v :: vs) ++ ']' :: rest) =
      some (rereadItems (v :: vs) depth, rest)
  | v, [], fuel + 1, depth, rest, hfuel =>
    Reader.moreItems_last
      (value_compactChars v (Nat.le_of_lt_succ hfuel) (endsNumber_bracket rest))
  | v, w :: vs, fuel + 1, depth, rest, hfuel => by
    rw [compactItems, List.length_append, List.length_cons] at hfuel
    rw [compactItems, List.append_assoc, List.cons_append]
    exact Reader.moreItems_comma
      (value_compactChars v (by omega) (endsNumber_comma _))
      (moreItems_compactItems w vs (by omega))

/-- Printed members are read up to the closing brace. -/
theorem moreMembers_compactMembers : (key : String) → (v : Value) →
    (ms : List (String × Value)) → {fuel depth : Nat} → {rest : List Char} →
    4 * (compactMembers ((key, v) :: ms)).length < fuel →
    Reader.moreMembers fuel depth (compactMembers ((key, v) :: ms) ++ '}' :: rest) =
      ⟨(rereadMembers ((key, v) :: ms) depth).map fun m => (some m.1, m.2), some rest⟩
  | key, v, [], fuel + 2, depth, rest, hfuel => by
    rw [compactMembers, List.length_append, List.length_cons] at hfuel
    rw [compactMembers, List.append_assoc, List.cons_append]
    exact Reader.moreMembers_last (Reader.member_json key
      (value_compactChars v (by omega) (endsNumber_brace rest)))
  | key, v, (key', w) :: ms, fuel + 2, depth, rest, hfuel => by
    simp only [compactMembers, List.length_append, List.length_cons] at hfuel
    rw [compactMembers, List.append_assoc, List.append_assoc, List.cons_append, List.cons_append]
    exact Reader.moreMembers_comma
      (Reader.member_json key (value_compactChars v (by omega) (endsNumber_comma _)))
      (moreMembers_compactMembers key' w ms (by omega))

end

end Value

/-- What the text of a value is read as. -/
theorem Tree.read?_compact_eq (v : Value) :
    Tree.read? v.compact = some (v.reread Reader.maxDepth) := by
  have hread : Reader.first (v.compactChars ++ []) = some (v.reread Reader.maxDepth, []) :=
    Value.value_compactChars v (by rw [List.append_nil]; exact Nat.le_add_right _ 4)
      Reader.endsNumber_nil
  rw [List.append_nil] at hread
  rw [Tree.read?, Value.compact, String.toList_ofList, hread]
  rfl

namespace Value

/-! ### Legible values -/

mutual

theorem reread_of_isLegible : (v : Value) → {depth : Nat} → (∀ n ∈ v.numbers, n.IsLegible) →
    v.nesting ≤ depth → v.reread depth = Tree.ofValue v
  | .null, _, _, _ => rfl
  | .bool _, _, _, _ => rfl
  | .string _, _, _, _ => rfl
  | .number n, _, hn, _ => by
    rw [reread, hn n (List.mem_singleton_self n)]
    rfl
  | .array items, depth + 1, hn, hdepth => by
    rw [reread, if_neg (Nat.succ_ne_zero depth), Tree.ofValue]
    exact congrArg Tree.array (rereadItems_of_isLegible items hn (Nat.le_of_succ_le_succ hdepth))
  | .object members, depth + 1, hn, hdepth => by
    rw [reread, if_neg (Nat.succ_ne_zero depth), Tree.ofValue]
    exact congrArg Tree.object
      (rereadMembers_of_isLegible members hn (Nat.le_of_succ_le_succ hdepth))

theorem rereadItems_of_isLegible : (vs : List Value) → {depth : Nat} →
    (∀ n ∈ numbersOfItems vs, n.IsLegible) → nestingOfItems vs ≤ depth →
    rereadItems vs depth = Tree.ofItems vs
  | [], _, _, _ => rfl
  | v :: vs, _, hn, hdepth => by
    rw [rereadItems, Tree.ofItems,
      reread_of_isLegible v (fun n h => hn n (List.mem_append_left _ h))
        (le_trans (le_max_left _ _) hdepth),
      rereadItems_of_isLegible vs (fun n h => hn n (List.mem_append_right _ h))
        (le_trans (le_max_right _ _) hdepth)]

theorem rereadMembers_of_isLegible : (ms : List (String × Value)) → {depth : Nat} →
    (∀ n ∈ numbersOfMembers ms, n.IsLegible) → nestingOfMembers ms ≤ depth →
    rereadMembers ms depth = Tree.ofMembers ms
  | [], _, _, _ => rfl
  | (_, v) :: ms, _, hn, hdepth => by
    rw [rereadMembers, Tree.ofMembers,
      reread_of_isLegible v (fun n h => hn n (List.mem_append_left _ h))
        (le_trans (le_max_left _ _) hdepth),
      rereadMembers_of_isLegible ms (fun n h => hn n (List.mem_append_right _ h))
        (le_trans (le_max_right _ _) hdepth)]

end

end Value

/-- The text of a legible value is read as the value is written. -/
theorem Tree.read?_compact {v : Value} (hn : ∀ n ∈ v.numbers, n.IsLegible)
    (hdepth : v.nesting ≤ Reader.maxDepth) : Tree.read? v.compact = some (Tree.ofValue v) := by
  rw [Tree.read?_compact_eq, Value.reread_of_isLegible v hn hdepth]

namespace Value

/-- The value comes back as it is written: it is canonical and not nested too deep, and its numbers
are legible. -/
structure ComesBack (v : Value) : Prop where
  numbers : ∀ n ∈ v.numbers, n.IsLegible
  nesting_le : v.nesting ≤ Reader.maxDepth
  isCanonical : v.IsCanonical

instance (v : Value) : Decidable v.ComesBack :=
  have hiff : ((∀ n ∈ v.numbers, n.reread? = some n) ∧ v.nesting ≤ Reader.maxDepth ∧
      v.IsCanonical) ↔ v.ComesBack :=
    ⟨fun h => ⟨h.1, h.2.1, h.2.2⟩, fun h => ⟨h.numbers, h.nesting_le, h.isCanonical⟩⟩
  decidable_of_iff _ hiff

theorem ComesBack.read?_compact {v : Value} (h : v.ComesBack) : read? v.compact = some v := by
  rw [read?, Tree.read?_compact h.numbers h.nesting_le, Option.bind_some, Tree.value?,
    Tree.toValue?_ofValue, Option.map_some, canonical_of_isCanonical v h.isCanonical]

/-! ### Values that can be read -/

/-- The text of the value can be read: it is not nested too deep, and no number is too large. -/
structure IsReadable (v : Value) : Prop where
  nesting_le : v.nesting ≤ Reader.maxDepth
  reread?_ne_none : ∀ n ∈ v.numbers, n.reread? ≠ none

mutual

theorem toValue?_reread : (v : Value) → (depth : Nat) → (w : Value) →
    ((v.reread depth).toValue? = some w ↔
      (v.nesting ≤ depth ∧ ∀ n ∈ v.numbers, n.reread? ≠ none) ∧ w = v.readBack)
  | .null, _, _ => by simp [reread, Tree.toValue?, nesting, numbers, readBack, eq_comm]
  | .bool _, _, _ => by simp [reread, Tree.toValue?, nesting, numbers, readBack, eq_comm]
  | .string _, _, _ => by simp [reread, Tree.toValue?, nesting, numbers, readBack, eq_comm]
  | .number n, _, _ => by
    cases hn : n.reread? <;>
      simp [reread, Tree.toValue?, nesting, numbers, readBack, Number.readBack, hn, eq_comm]
  | .array items, 0, _ => by simp [reread, Tree.toValue?, nesting]
  | .array items, depth + 1, w => by
    rw [reread, if_neg (Nat.succ_ne_zero depth), Tree.toValue?, Option.map_eq_some_iff]
    simp only [Nat.add_sub_cancel, toItems?_rereadItems items, nesting, numbers, readBack,
      Nat.add_le_add_iff_right]
    constructor
    · rintro ⟨vs, ⟨hreadable, rfl⟩, rfl⟩
      exact ⟨hreadable, rfl⟩
    · rintro ⟨hreadable, rfl⟩
      exact ⟨_, ⟨hreadable, rfl⟩, rfl⟩
  | .object members, 0, _ => by simp [reread, Tree.toValue?, nesting]
  | .object members, depth + 1, w => by
    rw [reread, if_neg (Nat.succ_ne_zero depth), Tree.toValue?, Option.map_eq_some_iff]
    simp only [Nat.add_sub_cancel, toMembers?_rereadMembers members, nesting, numbers, readBack,
      Nat.add_le_add_iff_right]
    constructor
    · rintro ⟨ms, ⟨hreadable, rfl⟩, rfl⟩
      exact ⟨hreadable, rfl⟩
    · rintro ⟨hreadable, rfl⟩
      exact ⟨_, ⟨hreadable, rfl⟩, rfl⟩

theorem toItems?_rereadItems : (vs : List Value) → (depth : Nat) → (ws : List Value) →
    (Tree.toItems? (rereadItems vs depth) = some ws ↔
      (nestingOfItems vs ≤ depth ∧ ∀ n ∈ numbersOfItems vs, n.reread? ≠ none) ∧
        ws = readBackItems vs)
  | [], _, _ => by
    simp [rereadItems, Tree.toItems?, nestingOfItems, numbersOfItems, readBackItems, eq_comm]
  | v :: vs, depth, ws => by
    simp only [rereadItems, Tree.toItems?, Option.bind_eq_bind, Option.bind_eq_some_iff,
      Option.pure_def, Option.some.injEq, toValue?_reread v, toItems?_rereadItems vs,
      nestingOfItems, numbersOfItems, readBackItems, max_le_iff, List.forall_mem_append]
    constructor
    · rintro ⟨_, ⟨hv, rfl⟩, _, ⟨hvs, rfl⟩, rfl⟩
      exact ⟨⟨⟨hv.1, hvs.1⟩, hv.2, hvs.2⟩, rfl⟩
    · rintro ⟨⟨hnesting, hnumbers⟩, rfl⟩
      exact ⟨_, ⟨⟨hnesting.1, hnumbers.1⟩, rfl⟩, _, ⟨⟨hnesting.2, hnumbers.2⟩, rfl⟩, rfl⟩

theorem toMembers?_rereadMembers : (ms : List (String × Value)) → (depth : Nat) →
    (ns : List (String × Value)) →
    (Tree.toMembers? (rereadMembers ms depth) = some ns ↔
      (nestingOfMembers ms ≤ depth ∧ ∀ n ∈ numbersOfMembers ms, n.reread? ≠ none) ∧
        ns = readBackMembers ms)
  | [], _, _ => by
    simp [rereadMembers, Tree.toMembers?, nestingOfMembers, numbersOfMembers, readBackMembers,
      eq_comm]
  | (k, v) :: ms, depth, ns => by
    simp only [rereadMembers, Tree.toMembers?, Option.bind_eq_bind, Option.bind_eq_some_iff,
      Option.pure_def, Option.some.injEq, toValue?_reread v, toMembers?_rereadMembers ms,
      nestingOfMembers, numbersOfMembers, readBackMembers, max_le_iff, List.forall_mem_append]
    constructor
    · rintro ⟨_, ⟨hv, rfl⟩, _, ⟨hms, rfl⟩, rfl⟩
      exact ⟨⟨⟨hv.1, hms.1⟩, hv.2, hms.2⟩, rfl⟩
    · rintro ⟨⟨hnesting, hnumbers⟩, rfl⟩
      exact ⟨_, ⟨⟨hnesting.1, hnumbers.1⟩, rfl⟩, _, ⟨⟨hnesting.2, hnumbers.2⟩, rfl⟩, rfl⟩

end

/-- What is read from the text of a value is what `readBack` says, in canonical form, and there is
something to be read exactly if the value is readable. -/
theorem read?_compact_eq_some_iff {v w : Value} :
    read? v.compact = some w ↔ v.IsReadable ∧ w = v.readBack.canonical := by
  have hiff (u : Value) : (v.reread Reader.maxDepth).toValue? = some u ↔
      v.IsReadable ∧ u = v.readBack := by
    rw [toValue?_reread]
    exact and_congr_left' ⟨fun h => ⟨h.1, h.2⟩, fun h => ⟨h.1, h.2⟩⟩
  rw [read?, Tree.read?_compact_eq, Option.bind_some, Tree.value?, Option.map_eq_some_iff]
  simp only [hiff]
  constructor
  · rintro ⟨u, ⟨hreadable, rfl⟩, rfl⟩
    exact ⟨hreadable, rfl⟩
  · rintro ⟨hreadable, rfl⟩
    exact ⟨_, ⟨hreadable, rfl⟩, rfl⟩

theorem eq_readBack_of_read? {v w : Value} (hv : v.IsCanonical) (h : read? v.compact = some w) :
    w = v.readBack := by
  obtain ⟨-, rfl⟩ := read?_compact_eq_some_iff.1 h
  exact canonical_of_isCanonical v.readBack (isCanonical_readBack v hv)

end Value

end RecordGuard.Json
