import Mathlib.Data.List.TakeWhile
import Mathlib.Tactic.Positivity
import Mathlib.Tactic.SplitIfs
import RecordGuard.Proofs.ReadBack

/-!
# Printed numbers are read back

A number is read up to the first character that cannot belong to one, so that it comes back in
front of any text that begins otherwise if it does so alone (`number_append`). The text of an
integer is read as the integer (`reread?_integer`), and that of a double at least as some number
(`number_text`): which one, depends on how the reader rounds.
-/

namespace RecordGuard

namespace Decimal

/-! ### Shortest decimals -/

theorem Interval.ne_zero_of_onGrid? {i : Interval} {grid : Int} {n : Nat}
    (h : i.onGrid? grid = some n) : n ≠ 0 := by
  unfold onGrid? at h
  dsimp only at h
  -- the point below the value is in question only if it is not zero
  have hne {held : Bool} {below : Nat} (hpoint : (held && below != 0) = true) : below ≠ 0 :=
    bne_iff_ne.1 (Bool.and_eq_true_iff.1 hpoint).2
  split at h
  case h_1 hbelow _ =>
    split_ifs at h <;> cases h
    exacts [hne hbelow, Nat.succ_ne_zero _, hne hbelow, Nat.succ_ne_zero _]
  case h_2 hbelow _ =>
    cases h
    exact hne hbelow
  case h_3 =>
    cases h
    exact Nat.succ_ne_zero _
  case h_4 => cases h

theorem Interval.digits_search_ne_zero (i : Interval) (fuel : Nat) (grid : Int) :
    (i.search fuel grid).digits ≠ 0 := by
  induction fuel generalizing grid with
  | zero => exact Nat.one_ne_zero
  | succ fuel ih =>
    rw [search]
    cases hgrid : i.onGrid? grid with
    | none => exact ih (grid - 1)
    | some n => exact ne_zero_of_onGrid? hgrid

theorem Numeral.digits_trim_ne_zero {d : Numeral} (h : d.digits ≠ 0) (fuel : Nat) :
    (d.trim fuel).digits ≠ 0 := by
  induction fuel generalizing d with
  | zero => exact h
  | succ fuel ih =>
    rw [trim]
    split_ifs with hzero
    · exact ih (by dsimp only; omega)
    · exact h

theorem digits_shortest_ne_zero (significand : Nat) (exponent : Int) (narrow : Bool) :
    (shortest significand exponent narrow).digits ≠ 0 :=
  Numeral.digits_trim_ne_zero (Interval.digits_search_ne_zero _ _ _) _

end Decimal

namespace Json.Reader

theorem skipBlanks_cons {c : Char} (h : isBlank c = false) (cs : List Char) :
    skipBlanks (c :: cs) = c :: cs := by
  rw [skipBlanks, List.dropWhile_cons_of_neg (by simp [h])]

/-! ### Where a number ends -/

/-- No character of a number comes first. -/
def EndsNumber (rest : List Char) : Prop :=
  ∀ c ∈ rest.head?, isDigit c = false ∧ c ≠ '.' ∧ c ≠ 'e' ∧ c ≠ 'E'

theorem endsNumber_nil : EndsNumber [] := fun c hc => by cases hc

theorem endsNumber_comma (rest : List Char) : EndsNumber (',' :: rest) := by
  intro c hc
  cases hc
  decide

theorem endsNumber_bracket (rest : List Char) : EndsNumber (']' :: rest) := by
  intro c hc
  cases hc
  decide

theorem endsNumber_brace (rest : List Char) : EndsNumber ('}' :: rest) := by
  intro c hc
  cases hc
  decide

/-- Text behind a number does not lengthen a run of digits in it. -/
theorem span_append {rest : List Char} (hr : EndsNumber rest) (cs : List Char) :
    (cs ++ rest).takeWhile isDigit = cs.takeWhile isDigit ∧
      (cs ++ rest).dropWhile isDigit = cs.dropWhile isDigit ++ rest := by
  induction cs with
  | nil =>
    cases rest with
    | nil => exact ⟨rfl, rfl⟩
    | cons c rest =>
      have hc : isDigit c = false := (hr c rfl).1
      simp [hc]
  | cons c cs ih => cases hc : isDigit c <;> simp [hc, ih.1, ih.2]

theorem digits_append {cs ds after rest : List Char} (h : digits cs = some (ds, after))
    (hr : EndsNumber rest) : digits (cs ++ rest) = some (ds, after ++ rest) := by
  obtain ⟨htake, hdrop⟩ := span_append hr cs
  rw [digits] at h ⊢
  rw [htake, hdrop]
  cases hds : cs.takeWhile isDigit with
  | nil =>
    rw [hds] at h
    cases h
  | cons d ds =>
    rw [hds] at h
    cases h
    rfl

theorem wholePart_append {cs ds after rest : List Char} (h : wholePart cs = some (ds, after))
    (hr : EndsNumber rest) : wholePart (cs ++ rest) = some (ds, after ++ rest) := by
  rw [wholePart] at h ⊢
  obtain ⟨⟨found, left⟩, hdigits, h⟩ := Option.bind_eq_some_iff.1 h
  rw [digits_append hdigits hr, Option.bind_eq_bind, Option.bind_some]
  dsimp only at h ⊢
  split at h
  · cases h
  · cases h
    rfl

theorem fractionPart_of_head {cs : List Char} (h : ∀ c ∈ cs.head?, c ≠ '.') :
    fractionPart cs = some (none, cs) := by
  rw [fractionPart]
  rintro ds rfl
  exact h '.' rfl rfl

theorem fractionPart_append {cs after rest : List Char} {fraction : Option (List Char)}
    (h : fractionPart cs = some (fraction, after)) (hr : EndsNumber rest) :
    fractionPart (cs ++ rest) = some (fraction, after ++ rest) := by
  cases cs with
  | nil =>
    cases h
    exact fractionPart_of_head fun c hc => (hr c hc).2.1
  | cons c cs =>
    by_cases hc : c = '.'
    · subst hc
      rw [fractionPart] at h
      obtain ⟨⟨found, left⟩, hdigits, heq⟩ := Option.map_eq_some_iff.1 h
      cases heq
      rw [List.cons_append, fractionPart, digits_append hdigits hr]
      rfl
    · rw [fractionPart_of_head (by simpa using hc)] at h
      cases h
      exact fractionPart_of_head (by simpa using hc)

/-- The power of ten after its mark. -/
def markedPower (cs : List Char) : Option (Option (Bool × List Char) × List Char) :=
  (digits (powerSign cs).2).map fun read => (some ((powerSign cs).1, read.1), read.2)

theorem markedPower_append {cs after rest : List Char} {power : Option (Bool × List Char)}
    (h : markedPower cs = some (power, after)) (hr : EndsNumber rest) :
    markedPower (cs ++ rest) = some (power, after ++ rest) := by
  rw [markedPower] at h ⊢
  obtain ⟨⟨found, left⟩, hdigits, heq⟩ := Option.map_eq_some_iff.1 h
  cases heq
  have hsign : powerSign (cs ++ rest) = ((powerSign cs).1, (powerSign cs).2 ++ rest) := by
    cases cs with
    | nil => cases hdigits
    | cons c cs =>
      by_cases hminus : c = '-'
      · subst hminus
        rfl
      · by_cases hplus : c = '+'
        · subst hplus
          rfl
        · simp [powerSign, hminus, hplus]
  rw [hsign, digits_append hdigits hr]
  rfl

theorem powerPart_eq (cs : List Char) :
    powerPart cs =
      match cs with
      | 'e' :: rest => markedPower rest
      | 'E' :: rest => markedPower rest
      | cs => some (none, cs) := rfl

theorem powerPart_of_head {cs : List Char} (h : ∀ c ∈ cs.head?, c ≠ 'e' ∧ c ≠ 'E') :
    powerPart cs = some (none, cs) := by
  rw [powerPart_eq]
  split
  · exact absurd rfl (h 'e' rfl).1
  · exact absurd rfl (h 'E' rfl).2
  · rfl

theorem powerPart_append {cs after rest : List Char} {power : Option (Bool × List Char)}
    (h : powerPart cs = some (power, after)) (hr : EndsNumber rest) :
    powerPart (cs ++ rest) = some (power, after ++ rest) := by
  cases cs with
  | nil =>
    cases h
    exact powerPart_of_head fun c hc => (hr c hc).2.2
  | cons c cs =>
    by_cases hmark : c = 'e' ∨ c = 'E'
    · rcases hmark with rfl | rfl
      · exact markedPower_append h hr
      · exact markedPower_append h hr
    · have hc : c ≠ 'e' ∧ c ≠ 'E' := not_or.1 hmark
      rw [powerPart_of_head (by simpa using hc)] at h
      cases h
      exact powerPart_of_head (by simpa using hc)

/-- The sign in front of a number, and what follows it. -/
def signed : List Char → Bool × List Char
  | '-' :: rest => (true, rest)
  | cs => (false, cs)

theorem signed_of_ne {c : Char} (h : c ≠ '-') (cs : List Char) :
    signed (c :: cs) = (false, c :: cs) := by
  rw [signed]
  rintro rest heq
  exact h (List.cons.inj heq).1

theorem numberText_eq (cs : List Char) :
    numberText cs =
      (wholePart (signed cs).2).bind fun whole =>
        (fractionPart whole.2).bind fun fraction =>
          (powerPart fraction.2).bind fun power =>
            some (⟨(signed cs).1, whole.1, fraction.1, power.1⟩, power.2) := rfl

/-- A number is read up to the text behind it. -/
theorem numberText_append {cs after rest : List Char} {t : NumberText}
    (h : numberText cs = some (t, after)) (hr : EndsNumber rest) :
    numberText (cs ++ rest) = some (t, after ++ rest) := by
  rw [numberText_eq] at h
  obtain ⟨⟨whole, cs₁⟩, hwhole, h⟩ := Option.bind_eq_some_iff.1 h
  obtain ⟨⟨fraction, cs₂⟩, hfraction, h⟩ := Option.bind_eq_some_iff.1 h
  obtain ⟨⟨power, cs₃⟩, hpower, h⟩ := Option.bind_eq_some_iff.1 h
  cases h
  have hsigned : signed (cs ++ rest) = ((signed cs).1, (signed cs).2 ++ rest) := by
    cases cs with
    | nil => cases hwhole
    | cons c cs =>
      by_cases hminus : c = '-'
      · subst hminus
        rfl
      · rw [List.cons_append, signed_of_ne hminus, signed_of_ne hminus, List.cons_append]
  rw [numberText_eq, hsigned, wholePart_append hwhole hr, Option.bind_some,
    fractionPart_append hfraction hr, Option.bind_some, powerPart_append hpower hr,
    Option.bind_some]

theorem number_append {cs after rest : List Char} {t : Tree} (h : number cs = some (t, after))
    (hr : EndsNumber rest) : number (cs ++ rest) = some (t, after ++ rest) := by
  obtain ⟨⟨text, left⟩, htext, h⟩ := Option.bind_eq_some_iff.1 h
  cases h
  rw [number, numberText_append htext hr]
  rfl

/-- The character is a sign or a digit. -/
def OpensNumber (c : Char) : Prop := c = '-' ∨ isDigit c = true

theorem exists_of_number {cs after : List Char} {t : Tree} (h : number cs = some (t, after)) :
    ∃ c rest, cs = c :: rest ∧ OpensNumber c := by
  obtain ⟨_, htext, -⟩ := Option.bind_eq_some_iff.1 h
  rw [numberText_eq] at htext
  obtain ⟨_, hwhole, -⟩ := Option.bind_eq_some_iff.1 htext
  obtain ⟨_, hdigits, -⟩ := Option.bind_eq_some_iff.1 hwhole
  cases cs with
  | nil => cases hdigits
  | cons c cs =>
    refine ⟨c, cs, rfl, ?_⟩
    by_cases hminus : c = '-'
    · exact Or.inl hminus
    · right
      by_contra hdigit
      rw [signed_of_ne hminus, digits, List.takeWhile_cons_of_neg hdigit] at hdigits
      cases hdigits

theorem OpensNumber.ne {c d : Char} (h : OpensNumber c) (hminus : d ≠ '-')
    (hdigit : isDigit d = false) : c ≠ d := by
  rintro rfl
  rcases h with h | h
  · exact hminus h
  · rw [hdigit] at h
    cases h

theorem OpensNumber.isBlank_eq_false {c : Char} (h : OpensNumber c) : isBlank c = false := by
  simp [isBlank, h.ne (d := ' ') (by decide) (by decide), h.ne (d := '\n') (by decide) (by decide),
    h.ne (d := '\t') (by decide) (by decide), h.ne (d := '\r') (by decide) (by decide)]

/-- Nothing but a number opens with a sign or a digit. -/
theorem value_of_opensNumber {c : Char} (h : OpensNumber c) (fuel depth : Nat) (cs : List Char) :
    value (fuel + 1) depth (c :: cs) = number (c :: cs) := by
  rw [value, skipBlanks_cons h.isBlank_eq_false]
  split
  case h_7 => rfl
  all_goals
    rename_i heq
    exact absurd (List.cons.inj heq).1 (h.ne (by decide) (by decide))

/-! ### Integers -/

theorem isDigit_of_mem_toDigits {n : Nat} {c : Char} (h : c ∈ Nat.toDigits 10 n) :
    isDigit c = true := by
  have hdigit := Nat.isDigit_of_mem_toDigits (by decide) (by decide) h
  rw [Char.isDigit, Bool.and_eq_true, decide_eq_true_eq, decide_eq_true_eq] at hdigit
  exact decide_eq_true hdigit

theorem digits_toDigits (n : Nat) : digits (Nat.toDigits 10 n) = some (Nat.toDigits 10 n, []) := by
  have hall : ∀ c ∈ Nat.toDigits 10 n, isDigit c = true := fun _ => isDigit_of_mem_toDigits
  rw [digits, List.takeWhile_eq_self_iff.2 hall, List.dropWhile_eq_nil_iff.2 hall]
  cases hds : Nat.toDigits 10 n with
  | nil => exact absurd hds Nat.toDigits_ne_nil
  | cons d ds => rfl

/-- Only zero has a leading zero. -/
theorem eq_zero_of_toDigits_eq {n : Nat} {cs : List Char} (h : Nat.toDigits 10 n = '0' :: cs) :
    n = 0 := by
  induction n using Nat.strongRecOn generalizing cs with
  | ind n ih =>
    by_cases hn : n < 10
    · rw [Nat.toDigits_of_lt_base hn] at h
      have hdigit : ∀ k < 10, Nat.digitChar k = '0' → k = 0 := by decide
      exact hdigit n hn (List.cons.inj h).1
    · rw [Nat.toDigits_of_base_le (by decide) (by omega)] at h
      have hne : Nat.toDigits 10 (n / 10) ≠ [] := Nat.toDigits_ne_nil
      obtain ⟨d, ds, hds⟩ := List.exists_cons_of_ne_nil hne
      rw [hds] at h
      obtain rfl := (List.cons.inj h).1
      have hzero := ih (n / 10) (by omega) hds
      omega

theorem wholePart_toDigits (n : Nat) :
    wholePart (Nat.toDigits 10 n) = some (Nat.toDigits 10 n, []) := by
  rw [wholePart, digits_toDigits, Option.bind_eq_bind, Option.bind_some]
  dsimp only
  split
  · rename_i hds
    rw [eq_zero_of_toDigits_eq hds] at hds
    cases hds
  · rfl

theorem absorb_eq {limit n : Nat} {ds : List Char} (h : Nat.ofDigitChars 10 ds n ≤ limit) :
    absorb limit n ds = (Nat.ofDigitChars 10 ds n, []) := by
  induction ds generalizing n with
  | nil => rfl
  | cons d ds ih =>
    rw [Nat.ofDigitChars_cons, Nat.mul_comm 10 n] at h ⊢
    have hle : n * 10 + digitValue d ≤ limit := by
      refine le_trans ?_ h
      rw [Nat.ofDigitChars_eq_ofDigitChars_zero]
      exact le_trans (Nat.le_mul_of_pos_left _ (by positivity)) (Nat.le_add_right _ _)
    rw [absorb, if_pos hle]
    exact ih h

theorem absorb_toDigits {n : Nat} (h : n ≤ maxSignificand) :
    absorb maxSignificand 0 (Nat.toDigits 10 n) = (n, []) := by
  rw [absorb_eq (by rw [Nat.ofDigitChars_ten_toDigits]; exact h), Nat.ofDigitChars_ten_toDigits]

theorem signed_integerText (n : Int) :
    signed (Number.integerText n) = (decide (n < 0), Nat.toDigits 10 n.natAbs) := by
  rw [Number.integerText]
  split_ifs with hn
  · rw [decide_eq_true hn]
    rfl
  · rw [decide_eq_false hn]
    cases hds : Nat.toDigits 10 n.natAbs with
    | nil => rfl
    | cons d ds =>
      have hd : isDigit d = true := isDigit_of_mem_toDigits (hds ▸ List.mem_cons_self)
      have hminus : d ≠ '-' := by
        rintro rfl
        cases hd
      exact signed_of_ne hminus ds

theorem integral_natAbs {n : Int} (h : Number.isInteger n = true) :
    integral (decide (n < 0)) n.natAbs = .integer n := by
  obtain ⟨hlow, -⟩ := of_decide_eq_true h
  by_cases hn : n < 0
  · rw [decide_eq_true hn, integral, if_pos rfl, if_neg (by omega), if_pos (by omega)]
    congr 1
    omega
  · rw [decide_eq_false hn, integral, if_neg Bool.false_ne_true]
    congr 1
    omega

theorem numberText_integerText (n : Int) :
    numberText (Number.integerText n) =
      some (⟨decide (n < 0), Nat.toDigits 10 n.natAbs, none, none⟩, []) := by
  rw [numberText_eq, signed_integerText, wholePart_toDigits]
  rfl

/-- The text of an integer is read as the integer. -/
theorem reread?_integer {n : Int} (h : Number.isInteger n = true) :
    (Number.integer n).reread? = some (.integer n) := by
  have hmax : n.natAbs ≤ maxSignificand := by
    obtain ⟨hlow, hhigh⟩ := of_decide_eq_true h
    rw [maxSignificand]
    simp only [Word.half64, Word.limit64] at *
    omega
  rw [Number.reread?, Number.text, numberText_integerText, Option.bind_some, NumberText.value?,
    absorb_toDigits hmax, ← integral_natAbs h]
  rfl

/-! ### Doubles -/

/-- The characters are digits, at least one. -/
def IsDigits (cs : List Char) : Prop := cs ≠ [] ∧ ∀ c ∈ cs, isDigit c = true

theorem isDigits_toDigits (n : Nat) : IsDigits (Nat.toDigits 10 n) :=
  ⟨Nat.toDigits_ne_nil, fun _ => isDigit_of_mem_toDigits⟩

/-- Digits are read up to the first character that is none. -/
theorem digits_of_isDigits {ds rest : List Char} (h : IsDigits ds)
    (hr : ∀ c ∈ rest.head?, isDigit c = false) : digits (ds ++ rest) = some (ds, rest) := by
  have hrest : rest.takeWhile isDigit = [] ∧ rest.dropWhile isDigit = rest := by
    cases rest with
    | nil => exact ⟨rfl, rfl⟩
    | cons c rest =>
      have hc := hr c rfl
      exact ⟨by simp [hc], by simp [hc]⟩
  obtain ⟨hne, hall⟩ := h
  rw [digits, List.takeWhile_append_of_pos hall, List.dropWhile_append_of_pos hall, hrest.1,
    hrest.2, List.append_nil]
  cases ds with
  | nil => exact absurd rfl hne
  | cons d ds => rfl

theorem wholePart_of_isDigits {ds rest : List Char} (h : IsDigits ds)
    (hlead : ∀ d more, ds ≠ '0' :: d :: more) (hr : ∀ c ∈ rest.head?, isDigit c = false) :
    wholePart (ds ++ rest) = some (ds, rest) := by
  rw [wholePart, digits_of_isDigits h hr, Option.bind_eq_bind, Option.bind_some]
  dsimp only
  split
  · exact absurd rfl (hlead _ _)
  · rfl

theorem fractionPart_of_isDigits {ds rest : List Char} (h : IsDigits ds)
    (hr : ∀ c ∈ rest.head?, isDigit c = false) :
    fractionPart ('.' :: (ds ++ rest)) = some (some ds, rest) := by
  rw [fractionPart, digits_of_isDigits h hr]
  rfl

theorem powerPart_of_isDigits {ds : List Char} (h : IsDigits ds) (negative : Bool) :
    powerPart ('e' :: (if negative then '-' else '+') :: ds) = some (some (negative, ds), []) := by
  have hdigits : digits (ds ++ []) = some (ds, []) :=
    digits_of_isDigits h fun c hc => by cases hc
  rw [List.append_nil] at hdigits
  rw [powerPart_eq]
  cases negative with
  | false => show (digits ds).map _ = _; rw [hdigits]; rfl
  | true => show (digits ds).map _ = _; rw [hdigits]; rfl

/-- The characters are those of a number without a sign. -/
def IsMagnitude (cs : List Char) : Prop :=
  ∃ whole r₁ fraction r₂ power, wholePart cs = some (whole, r₁) ∧
    fractionPart r₁ = some (fraction, r₂) ∧ powerPart r₂ = some (power, [])

/-- With a sign or without one, a magnitude is read as a number. -/
theorem IsMagnitude.exists_numberText {cs : List Char} (h : IsMagnitude cs) (negative : Bool) :
    ∃ t, numberText (if negative then '-' :: cs else cs) = some (t, []) := by
  obtain ⟨whole, r₁, fraction, r₂, power, hwhole, hfraction, hpower⟩ := h
  have hsigned : signed (if negative then '-' :: cs else cs) = (negative, cs) := by
    cases negative with
    | true => rfl
    | false =>
      cases cs with
      | nil => cases hwhole
      | cons c cs =>
        refine signed_of_ne ?_ cs
        rintro rfl
        cases hwhole
  rw [numberText_eq, hsigned, hwhole, Option.bind_some, hfraction, Option.bind_some, hpower]
  exact ⟨_, rfl⟩

/-- Only a zero opens with a zero. -/
theorem toDigits_append_ne {n : Nat} (h : n ≠ 0) (more : List Char) (d : Char) (ds : List Char) :
    Nat.toDigits 10 n ++ more ≠ '0' :: d :: ds := by
  intro heq
  obtain ⟨first, rest, hdigits⟩ :=
    List.exists_cons_of_ne_nil (Nat.toDigits_ne_nil (b := 10) (n := n))
  rw [hdigits, List.cons_append] at heq
  rw [(List.cons.inj heq).1] at hdigits
  exact h (eq_zero_of_toDigits_eq hdigits)

theorem isMagnitude_of_point {ds fs : List Char} (hds : IsDigits ds) (hfs : IsDigits fs)
    (hlead : ∀ d more, ds ≠ '0' :: d :: more) : IsMagnitude (ds ++ '.' :: fs) := by
  have hfraction : fractionPart ('.' :: (fs ++ [])) = some (some fs, []) :=
    fractionPart_of_isDigits hfs fun c hc => by cases hc
  rw [List.append_nil] at hfraction
  exact ⟨_, _, _, _, _, wholePart_of_isDigits hds hlead fun c hc => by cases hc; rfl, hfraction, rfl⟩

/-- One digit in front of the point, if there are more, and a power of ten. -/
theorem isMagnitude_of_power {n : Nat} (h : n ≠ 0) {ps : List Char} (hps : IsDigits ps)
    (negative : Bool) :
    IsMagnitude ((match Nat.toDigits 10 n with
      | first :: second :: rest => first :: '.' :: second :: rest
      | few => few) ++ ['e', if negative then '-' else '+'] ++ ps) := by
  have hpower := powerPart_of_isDigits hps negative
  obtain ⟨hne, hall⟩ := isDigits_toDigits n
  have hlead := toDigits_append_ne h []
  rw [List.append_nil] at hlead
  rw [List.append_assoc]
  cases hdigits : Nat.toDigits 10 n with
  | nil => exact absurd hdigits hne
  | cons first rest =>
    rw [hdigits] at hall hlead
    obtain ⟨hfirst, hrest⟩ := List.forall_mem_cons.1 hall
    have hone : IsDigits [first] := ⟨List.cons_ne_nil _ _, by simpa using hfirst⟩
    cases rest with
    | nil =>
      show IsMagnitude ([first] ++ 'e' :: (if negative then '-' else '+') :: ps)
      exact ⟨_, _, _, _, _, wholePart_of_isDigits hone hlead fun c hc => by cases hc; rfl, rfl,
        hpower⟩
    | cons second rest =>
      show IsMagnitude ([first] ++ '.' :: ((second :: rest) ++
        'e' :: (if negative then '-' else '+') :: ps))
      have hfraction : fractionPart ('.' :: ((second :: rest) ++
          'e' :: (if negative then '-' else '+') :: ps)) =
            some (some (second :: rest), 'e' :: (if negative then '-' else '+') :: ps) :=
        fractionPart_of_isDigits ⟨List.cons_ne_nil _ _, hrest⟩ fun c hc => by cases hc; rfl
      refine ⟨_, _, _, _, _, wholePart_of_isDigits hone (fun d more heq => ?_)
        (fun c hc => by cases hc; rfl), hfraction, hpower⟩
      cases (List.cons.inj heq).2

/-- A decimal that is not zero is written as a number. -/
theorem isMagnitude_render {d : Decimal.Numeral} (h : d.digits ≠ 0) :
    IsMagnitude (Number.doubleStyle.render d) := by
  have hdigits := isDigits_toDigits d.digits
  have hlead := toDigits_append_ne h
  have hzeros (n : Nat) : ∀ c ∈ List.replicate n '0', isDigit c = true := fun c hc => by
    rw [List.eq_of_mem_replicate hc]
    rfl
  have hzero : IsDigits ['0'] := ⟨List.cons_ne_nil _ _, hzeros 1⟩
  rw [Decimal.Style.render]
  dsimp only
  split_ifs with hint hpoint hsmall
  · -- zeros up to the point
    refine isMagnitude_of_point ⟨List.append_ne_nil_of_left_ne_nil hdigits.1 _,
        List.forall_mem_append.2 ⟨hdigits.2, hzeros _⟩⟩ hzero (hlead _)
  · -- the point among the digits
    set k := ((Nat.toDigits 10 d.digits).length + d.exponent : Int).toNat with hk
    have hsplit := List.take_append_drop k (Nat.toDigits 10 d.digits)
    have hall := List.forall_mem_append.1 (hsplit.symm ▸ hdigits.2)
    refine isMagnitude_of_point ⟨?_, hall.1⟩ ⟨?_, hall.2⟩ fun c more heq => ?_
    · rw [Ne, List.take_eq_nil_iff]
      rintro (hzero | hnil)
      · omega
      · exact hdigits.1 hnil
    · rw [Ne, List.drop_eq_nil_iff]
      omega
    · rw [heq] at hsplit
      exact hlead [] c _ (by rw [List.append_nil]; exact hsplit.symm)
  · -- zeros behind the point
    refine isMagnitude_of_point hzero
      ⟨List.append_ne_nil_of_right_ne_nil _ hdigits.1,
        List.forall_mem_append.2 ⟨hzeros _, hdigits.2⟩⟩ fun c more heq => ?_
    cases (List.cons.inj heq).2
  · exact isMagnitude_of_power h (isDigits_toDigits _) false
  · exact isMagnitude_of_power h (isDigits_toDigits _) true

/-- The text of a double is the text of a number. -/
theorem exists_numberText_doubleText (d : Double) :
    ∃ t, numberText (Number.doubleText d) = some (t, []) := by
  have hmagnitude : IsMagnitude (if d.isZero then ['0', '.', '0']
      else Number.doubleStyle.render (Decimal.shortest d.significand d.exponent
        (d.significand == Double.minSignificand && decide (Double.minExponent < d.exponent)))) := by
    split_ifs
    · exact ⟨['0'], ['.', '0'], some ['0'], [], none, rfl, rfl, rfl⟩
    · exact isMagnitude_render (Decimal.digits_shortest_ne_zero _ _ _)
  exact hmagnitude.exists_numberText d.negative

/-- The text of a number is the text of some number. -/
theorem exists_numberText (n : Number) : ∃ t, numberText n.text = some (t, []) := by
  cases n with
  | integer n => exact ⟨_, numberText_integerText n⟩
  | double d => exact exists_numberText_doubleText d

/-- The text of a number is read to its end, as another number perhaps. -/
theorem number_text (n : Number) :
    number n.text = some ((n.reread?.map Tree.number).getD .unreadable, []) := by
  obtain ⟨t, ht⟩ := exists_numberText n
  rw [number, Number.reread?, ht]
  rfl

end Json.Reader

end RecordGuard
