import Mathlib.Algebra.Field.Rat
import Mathlib.Data.Nat.Digits.Defs

/-!
# The number literals of Go

Integer and floating-point literals with the exact values that they have.  The same digits can
have different values: without a point or an exponent, a leading zero makes a literal octal.

* `Number.Digits`, `Number.positional` — the digits of a base, with underscores between them, and
  the number that they stand for;
* `Number.IntegerLiteral`, `Number.FloatLiteral` — the literals;
* `Number.Denotes` — a literal behind an optional minus sign;
* `Number.positional_octal_lt`, `Number.positional_octal_eq` — digits read as octal ones.
-/

namespace ServiceWiring.Number

/-! ## Digits -/

/-- The value of a digit of a base up to sixteen. -/
def digitOf (c : Char) : Option ℕ :=
  if c.isDigit then some (c.toNat - '0'.toNat)
  else if 'a' ≤ c ∧ c ≤ 'f' then some (c.toNat - 'a'.toNat + 10)
  else if 'A' ≤ c ∧ c ≤ 'F' then some (c.toNat - 'A'.toNat + 10)
  else none

/-- A text of digits of a base, with at most one underscore between any two, and their values. -/
inductive Digits (base : ℕ) : List Char → List ℕ → Prop where
  | single {c : Char} {d : ℕ} (hc : digitOf c = some d) (hd : d < base) : Digits base [c] [d]
  | cons {c : Char} {d : ℕ} (hc : digitOf c = some d) (hd : d < base) {cs : List Char}
      {ds : List ℕ} (h : Digits base cs ds) : Digits base (c :: cs) (d :: ds)
  | separated {c : Char} {d : ℕ} (hc : digitOf c = some d) (hd : d < base) {cs : List Char}
      {ds : List ℕ} (h : Digits base cs ds) : Digits base (c :: '_' :: cs) (d :: ds)

/-- The number that digits stand for, the highest one first. -/
def positional (base : ℕ) (ds : List ℕ) : ℕ :=
  Nat.ofDigits base ds.reverse

theorem positional_eq_foldl (base : ℕ) (ds : List ℕ) :
    positional base ds = ds.foldl (fun n d => base * n + d) 0 := by
  rw [positional, Nat.ofDigits_eq_foldr, List.foldr_reverse]
  congr
  ext n d
  exact Nat.add_comm ..

/-- The number that digits in front of a point and behind it stand for. -/
def mantissa (base : ℕ) (whole fraction : List ℕ) : ℚ :=
  positional base (whole ++ fraction) / (base : ℚ) ^ fraction.length

/-! ## Literals -/

/-- An underscore, or nothing. -/
def IsSeparator (text : List Char) : Prop :=
  text = [] ∨ text = ['_']

/-- The letters that mark a base. -/
def baseLetters : List (Char × ℕ) :=
  [('b', 2), ('B', 2), ('o', 8), ('O', 8), ('x', 16), ('X', 16)]

/-- An integer literal with its value. -/
inductive IntegerLiteral : List Char → ℕ → Prop where
  | zero : IntegerLiteral ['0'] 0
  | decimal {text : List Char} {ds : List ℕ} (hfirst : text.head? ≠ some '0')
      (h : Digits 10 text ds) : IntegerLiteral text (positional 10 ds)
  | octal {separator text : List Char} {ds : List ℕ} (hseparator : IsSeparator separator)
      (h : Digits 8 text ds) : IntegerLiteral ('0' :: (separator ++ text)) (positional 8 ds)
  | lettered {letter : Char} {base : ℕ} (hletter : (letter, base) ∈ baseLetters)
      {separator text : List Char} {ds : List ℕ} (hseparator : IsSeparator separator)
      (h : Digits base text ds) :
      IntegerLiteral ('0' :: letter :: (separator ++ text)) (positional base ds)

/-- An optional sign, with the factor that it stands for. -/
inductive Sign : List Char → ℤ → Prop where
  | none : Sign [] 1
  | plus : Sign ['+'] 1
  | minus : Sign ['-'] (-1)

/-- An exponent behind one of some letters. -/
inductive Exponent (letters : List Char) : List Char → ℤ → Prop where
  | mk {letter : Char} (hletter : letter ∈ letters) {sign : List Char} {s : ℤ} (hsign : Sign sign s)
      {text : List Char} {ds : List ℕ} (h : Digits 10 text ds) :
      Exponent letters (letter :: (sign ++ text)) (s * positional 10 ds)

/-- The digits of a floating-point literal, in front of a point and behind it. -/
inductive Mantissa (base : ℕ) : List Char → List ℕ → List ℕ → Prop where
  | whole {text : List Char} {ds : List ℕ} (h : Digits base text ds) : Mantissa base text ds []
  | point {text : List Char} {ds : List ℕ} (h : Digits base text ds) :
      Mantissa base (text ++ ['.']) ds []
  | both {text text' : List Char} {ds ds' : List ℕ} (h : Digits base text ds)
      (h' : Digits base text' ds') : Mantissa base (text ++ '.' :: text') ds ds'
  | fraction {text : List Char} {ds : List ℕ} (h : Digits base text ds) :
      Mantissa base ('.' :: text) [] ds

/-- A floating-point literal with its value. -/
inductive FloatLiteral : List Char → ℚ → Prop where
  | pointed {text : List Char} {ds ds' : List ℕ} (h : Mantissa 10 text ds ds')
      (hpoint : '.' ∈ text) : FloatLiteral text (mantissa 10 ds ds')
  | scaled {text text' : List Char} {ds ds' : List ℕ} {k : ℤ} (h : Mantissa 10 text ds ds')
      (h' : Exponent ['e', 'E'] text' k) :
      FloatLiteral (text ++ text') (mantissa 10 ds ds' * (10 : ℚ) ^ k)
  | hexadecimal {letter : Char} (hletter : letter ∈ ['x', 'X']) {separator text text' : List Char}
      {ds ds' : List ℕ} {k : ℤ} (hseparator : IsSeparator separator)
      (hwhole : separator ≠ [] → ds ≠ []) (h : Mantissa 16 text ds ds')
      (h' : Exponent ['p', 'P'] text' k) :
      FloatLiteral ('0' :: letter :: (separator ++ (text ++ text')))
        (mantissa 16 ds ds' * (2 : ℚ) ^ k)

/-- A number literal with its value. -/
inductive Literal : List Char → ℚ → Prop where
  | integer {text : List Char} {n : ℕ} (h : IntegerLiteral text n) : Literal text n
  | float {text : List Char} {q : ℚ} (h : FloatLiteral text q) : Literal text q

/-- A number literal behind an optional minus sign, with the value of the expression. -/
inductive Denotes : List Char → ℚ → Prop where
  | plain {text : List Char} {q : ℚ} (h : Literal text q) : Denotes text q
  | negated {text : List Char} {q : ℚ} (h : Literal text q) : Denotes ('-' :: text) (-q)

/-! ## Decimal digits -/

/-- A text of decimal digits. -/
def AllDigits (text : List Char) : Prop :=
  ∀ c ∈ text, c.isDigit = true

instance (text : List Char) : Decidable (AllDigits text) :=
  List.decidableBAll (fun c : Char => c.isDigit = true) text

/-- Nothing but digits is in a text of digits. -/
theorem AllDigits.not_mem {text : List Char} (h : AllDigits text) {c : Char}
    (hc : c.isDigit = false) : c ∉ text := by
  intro hmem
  rw [h c hmem] at hc
  cases hc

/-- The values of decimal digits. -/
def digitValues (text : List Char) : List ℕ :=
  text.map fun c => c.toNat - '0'.toNat

theorem digitOf_decimal {c : Char} (h : c.isDigit = true) :
    digitOf c = some (c.toNat - '0'.toNat) := by
  rw [digitOf, if_pos h]

theorem digit_lt_ten {c : Char} (h : c.isDigit = true) : c.toNat - '0'.toNat < 10 := by
  have hrange : 48 ≤ c.toNat ∧ c.toNat ≤ 57 := by
    simpa [Char.isDigit, UInt32.le_iff_toNat_le] using h
  have hzero : '0'.toNat = 48 := rfl
  omega

/-- Decimal digits below a base are digits of the base. -/
theorem digits_of_allDigits {base : ℕ} {text : List Char} (h : AllDigits text) (hne : text ≠ [])
    (hbase : ∀ d ∈ digitValues text, d < base) : Digits base text (digitValues text) := by
  induction text with
  | nil => exact absurd rfl hne
  | cons c text ih =>
      have hc := digitOf_decimal (h c (List.mem_cons_self ..))
      have hd := hbase _ (List.mem_cons_self ..)
      cases text with
      | nil => exact .single hc hd
      | cons next text =>
          refine .cons hc hd (ih (fun c hc => h c (List.mem_cons_of_mem _ hc))
            (List.cons_ne_nil _ _) fun d hd => hbase d (List.mem_cons_of_mem _ hd))

theorem digits_decimal {text : List Char} (h : AllDigits text) (hne : text ≠ []) :
    Digits 10 text (digitValues text) := by
  refine digits_of_allDigits h hne fun d hd => ?_
  obtain ⟨c, hc, rfl⟩ := List.mem_map.mp hd
  exact digit_lt_ten (h c hc)

/-- The values of decimal digits without underscores, and their base. -/
theorem Digits.of_allDigits {base : ℕ} {text : List Char} {ds : List ℕ} (h : Digits base text ds)
    (hall : AllDigits text) : ds = digitValues text ∧ ∀ d ∈ ds, d < base := by
  induction h with
  | single hc hd =>
      rw [digitOf_decimal (hall _ (List.mem_cons_self ..))] at hc
      exact ⟨by rw [← Option.some.inj hc]; rfl, by simpa using hd⟩
  | cons hc hd _ ih =>
      rw [digitOf_decimal (hall _ (List.mem_cons_self ..))] at hc
      obtain ⟨rfl, hbase⟩ := ih fun c hc => hall c (List.mem_cons_of_mem _ hc)
      exact ⟨by rw [← Option.some.inj hc]; rfl, by simpa using ⟨hd, hbase⟩⟩
  | separated => exact absurd (by simp) (hall.not_mem (c := '_') rfl)

/-! ## Decimal digits read as octal ones -/

theorem le_ofDigits {base : ℕ} (hbase : 0 < base) {ds : List ℕ} {d : ℕ} (h : d ∈ ds) :
    d ≤ Nat.ofDigits base ds := by
  induction ds with
  | nil => cases h
  | cons first ds ih =>
      rw [Nat.ofDigits_cons]
      rcases List.mem_cons.mp h with rfl | h
      · exact Nat.le_add_right _ _
      · calc d ≤ Nat.ofDigits base ds := ih h
          _ ≤ base * Nat.ofDigits base ds := Nat.le_mul_of_pos_left _ hbase
          _ ≤ _ := Nat.le_add_left _ _

/-- From eight on, octal digits stand for less than the same decimal ones. -/
theorem positional_octal_lt {ds : List ℕ} (hds : ∀ d ∈ ds, d < 8) (h : 8 ≤ positional 10 ds) :
    positional 8 ds < positional 10 ds := by
  unfold positional at *
  cases hcases : ds.reverse with
  | nil =>
      rw [hcases] at h
      exact absurd h (by decide)
  | cons last front =>
      have hlast : last < 8 := hds last (List.mem_reverse.mp (by simp [hcases]))
      have hle := Nat.ofDigits_monotone front (show 8 ≤ 10 by decide)
      rw [hcases, Nat.ofDigits_cons] at h
      rw [Nat.ofDigits_cons, Nat.ofDigits_cons]
      omega

/-- Below eight, decimal digits are octal ones and stand for the same number. -/
theorem positional_octal_eq {ds : List ℕ} (h : positional 10 ds < 8) :
    (∀ d ∈ ds, d < 8) ∧ positional 8 ds = positional 10 ds := by
  constructor
  · intro d hd
    exact Nat.lt_of_le_of_lt (le_ofDigits (by decide) (List.mem_reverse.mpr hd)) h
  · unfold positional at *
    cases hcases : ds.reverse with
    | nil => rfl
    | cons last front =>
        have hle := Nat.ofDigits_monotone front (show 8 ≤ 10 by decide)
        rw [hcases, Nat.ofDigits_cons] at h
        rw [Nat.ofDigits_cons, Nat.ofDigits_cons]
        omega

theorem positional_zero_cons (base : ℕ) (ds : List ℕ) :
    positional base (0 :: ds) = positional base ds := by
  rw [positional, List.reverse_cons, Nat.ofDigits_append_zero]
  rfl

/-! ## Literals of digits -/

theorem not_isDigit_of_mem_baseLetters : ∀ entry ∈ baseLetters, entry.1.isDigit = false := by
  decide

/-- A literal of digits behind a zero is octal. -/
theorem IntegerLiteral.octal_of_digits {text : List Char} (hall : AllDigits text) (hne : text ≠ [])
    {n : ℕ} (h : IntegerLiteral ('0' :: text) n) :
    (∀ d ∈ digitValues text, d < 8) ∧ n = positional 8 (digitValues text) := by
  generalize hcs : '0' :: text = cs at h
  cases h with
  | zero => exact absurd (List.cons.inj hcs).2 hne
  | decimal hfirst _ =>
      rw [← hcs] at hfirst
      exact absurd rfl hfirst
  | @octal separator text' ds hseparator h =>
      have htext : text = separator ++ text' := (List.cons.inj hcs).2
      rcases hseparator with rfl | rfl
      · obtain rfl : text = text' := htext
        obtain ⟨rfl, hbase⟩ := h.of_allDigits hall
        exact ⟨hbase, rfl⟩
      · exact absurd (by simp [htext]) (hall.not_mem (c := '_') rfl)
  | @lettered letter base hletter separator text' ds _ _ =>
      have htext : text = letter :: (separator ++ text') := (List.cons.inj hcs).2
      have hother := not_isDigit_of_mem_baseLetters _ hletter
      exact absurd (by simp [htext]) (hall.not_mem hother)

/-- A floating-point literal holds something else than digits. -/
theorem FloatLiteral.not_allDigits {text : List Char} {q : ℚ} (h : FloatLiteral text q) :
    ¬ AllDigits text := by
  intro hall
  cases h with
  | pointed _ hpoint => exact hall.not_mem rfl hpoint
  | scaled _ h' =>
      cases h' with
      | @mk letter hletter =>
          have hother : ∀ c ∈ ['e', 'E'], c.isDigit = false := by simp
          exact hall.not_mem (hother letter hletter) (by simp)
  | @hexadecimal letter hletter =>
      have hother : ∀ c ∈ ['x', 'X'], c.isDigit = false := by simp
      exact hall.not_mem (hother letter hletter) (by simp)

/-- A text that starts with a digit or a point. -/
def StartsAsNumber (text : List Char) : Prop :=
  ∃ c rest, text = c :: rest ∧ (c = '.' ∨ (digitOf c).isSome = true)

theorem StartsAsNumber.append {text : List Char} (h : StartsAsNumber text) (more : List Char) :
    StartsAsNumber (text ++ more) := by
  obtain ⟨c, rest, rfl, hc⟩ := h
  exact ⟨c, rest ++ more, rfl, hc⟩

theorem StartsAsNumber.ne_sign {text : List Char} (h : StartsAsNumber text) {c : Char}
    (hc : c ∈ ['+', '-']) (rest : List Char) : text ≠ c :: rest := by
  obtain ⟨first, behind, rfl, hfirst⟩ := h
  intro heq
  obtain rfl : first = c := (List.cons.inj heq).1
  have hother : ∀ c ∈ ['+', '-'], ¬ (c = '.' ∨ (digitOf c).isSome = true) := by simp [digitOf]
  exact hother first hc hfirst

theorem Digits.starts {base : ℕ} {text : List Char} {ds : List ℕ} (h : Digits base text ds) :
    StartsAsNumber text := by
  cases h with
  | single hc _ => exact ⟨_, _, rfl, .inr (by rw [hc]; rfl)⟩
  | cons hc _ _ => exact ⟨_, _, rfl, .inr (by rw [hc]; rfl)⟩
  | separated hc _ _ => exact ⟨_, _, rfl, .inr (by rw [hc]; rfl)⟩

theorem Mantissa.starts {base : ℕ} {text : List Char} {ds ds' : List ℕ}
    (h : Mantissa base text ds ds') : StartsAsNumber text := by
  cases h with
  | whole h => exact h.starts
  | point h => exact h.starts.append _
  | both h _ => exact h.starts.append _
  | fraction _ => exact ⟨_, _, rfl, .inl rfl⟩

/-- No literal starts with a sign. -/
theorem Literal.starts {text : List Char} {q : ℚ} (h : Literal text q) : StartsAsNumber text := by
  have hzero : ∀ rest, StartsAsNumber ('0' :: rest) := fun rest => ⟨_, _, rfl, .inr rfl⟩
  cases h with
  | integer h =>
      cases h with
      | zero => exact hzero _
      | decimal _ h => exact h.starts
      | octal _ _ => exact hzero _
      | lettered _ _ _ => exact hzero _
  | float h =>
      cases h with
      | pointed h _ => exact h.starts
      | scaled h _ => exact h.starts.append _
      | hexadecimal _ _ _ _ _ => exact hzero _

theorem denotes_unsigned_iff {text : List Char} (htext : StartsAsNumber text) {q : ℚ} :
    Denotes text q ↔ Literal text q := by
  constructor
  · intro h
    cases h with
    | plain h => exact h
    | negated _ => exact absurd rfl (htext.ne_sign (by decide) _)
  · exact .plain

theorem denotes_minus_iff {text : List Char} {q : ℚ} :
    Denotes ('-' :: text) (-q) ↔ Literal text q := by
  constructor
  · intro h
    generalize hq : -q = r at h
    cases h with
    | plain h => exact absurd rfl (h.starts.ne_sign (by decide) _)
    | negated h =>
        rw [neg_inj] at hq
        rwa [hq]
  · exact .negated

/-- What is behind a sign starts as a number, so a text has one sign at most. -/
theorem Sign.append_inj {sign sign' text text' : List Char} {s s' : ℤ} (hsign : Sign sign s)
    (hsign' : Sign sign' s') (htext : StartsAsNumber text) (htext' : StartsAsNumber text')
    (h : sign ++ text = sign' ++ text') : text = text' := by
  cases hsign with
  | none =>
      cases hsign' with
      | none => exact h
      | plus => exact absurd h (htext.ne_sign (by decide) _)
      | minus => exact absurd h (htext.ne_sign (by decide) _)
  | plus =>
      cases hsign' with
      | none => exact absurd h.symm (htext'.ne_sign (by decide) _)
      | plus => exact (List.cons.inj h).2
      | minus => exact absurd (List.cons.inj h).1 (by decide)
  | minus =>
      cases hsign' with
      | none => exact absurd h.symm (htext'.ne_sign (by decide) _)
      | plus => exact absurd (List.cons.inj h).1 (by decide)
      | minus => exact (List.cons.inj h).2

end ServiceWiring.Number
