import Mathlib.Data.List.TakeWhile
import Mathlib.Tactic.NormNum
import ServiceWiring.Generated.Default
import ServiceWiring.Proofs.NumberLiteral

/-!
# Defaults of floating-point fields

The default of a floating-point field is accepted as a decimal number and written into Go code as
it is, without a plus sign.  There it denotes the same number, unless it is an integer with a
leading zero from eight on: Go reads that as octal.

* `Number.UnsignedDecimal`, `Number.DecimalText` — the decimal numbers, with the values they have;
* `Number.exists_decimalText` — every accepted text is one;
* `Number.ReadsAsOctal` — the texts that Go reads as octal numbers, or not at all;
* `Number.UnsignedDecimal.literal_iff` — which decimals are literals of the same value;
* `DefaultValue.float_denotes_iff` — which defaults keep their value.
-/

namespace ServiceWiring

open Text

namespace Number

/-! ## Decimal numbers -/

/-- A decimal exponent of digits only, or nothing. -/
def IsScale (text : List Char) (k : ℤ) : Prop :=
  text = [] ∧ k = 0 ∨ ∃ letter sign s ds, letter ∈ ['e', 'E'] ∧ Sign sign s ∧ AllDigits ds ∧ ds ≠ []
    ∧ text = letter :: (sign ++ ds) ∧ k = s * positional 10 (digitValues ds)

/-- A decimal number without a sign: digits, maybe with a point among them, and maybe an
    exponent. -/
inductive UnsignedDecimal : List Char → ℚ → Prop where
  | mk {whole point fraction exponent : List Char} {k : ℤ} (hwhole : AllDigits whole)
      (hpoint : point = ['.'] ∨ point = [] ∧ fraction = []) (hfraction : AllDigits fraction)
      (hdigits : whole ≠ [] ∨ fraction ≠ []) (hexponent : IsScale exponent k) :
      UnsignedDecimal (whole ++ (point ++ (fraction ++ exponent)))
        (mantissa 10 (digitValues whole) (digitValues fraction) * (10 : ℚ) ^ k)

/-- A decimal number with an optional sign. -/
def DecimalText (text : List Char) (q : ℚ) : Prop :=
  ∃ sign s unsigned v, Sign sign s ∧ UnsignedDecimal unsigned v ∧ text = sign ++ unsigned
    ∧ q = s * v

/-- Digits behind a leading zero that stand for eight or more. -/
def IsOctal (text : List Char) : Prop :=
  ∃ ds, AllDigits ds ∧ 8 ≤ positional 10 (digitValues ds) ∧ text = '0' :: ds

/-- Such digits behind an optional sign: read as octal, they stand for another number, or for none
    at all. -/
def ReadsAsOctal (text : List Char) : Prop :=
  ∃ sign s digits, Sign sign s ∧ IsOctal digits ∧ text = sign ++ digits

/-! ## Accepted texts -/

theorem allDigits_takeWhile (cs : List Char) : AllDigits (cs.takeWhile Char.isDigit) :=
  fun _ hc => List.mem_takeWhile_imp hc

theorem exists_splitSign (text : List Char) :
    ∃ sign s, Sign sign s ∧ text = sign ++ (splitSign text).2 := by
  unfold splitSign
  split
  · exact ⟨_, _, .minus, rfl⟩
  · exact ⟨_, _, .plus, rfl⟩
  · exact ⟨_, _, .none, rfl⟩

theorem isScale_of_exponent? {text : List Char} {e : ℤ} (h : exponent? text = some e) :
    ∃ k, IsScale text k := by
  cases text with
  | nil => exact ⟨0, .inl ⟨rfl, rfl⟩⟩
  | cons c cs =>
      rw [exponent?] at h
      split at h
      · rename_i hletter
        dsimp only at h
        split at h
        · cases h
        · rename_i hdigits
          obtain ⟨sign, s, hsign, hcs⟩ := exists_splitSign cs
          have hletter : c ∈ ['e', 'E'] := by simpa using hletter
          have hds : (splitSign cs).2 ≠ [] ∧ AllDigits (splitSign cs).2 := by
            simpa [AllDigits] using hdigits
          exact ⟨_, .inr ⟨c, sign, s, _, hletter, hsign, hds.2, hds.1, by rw [← hcs], rfl⟩⟩
      · cases h

theorem exists_unsignedDecimal {text : List Char} {d : Decimal}
    (h : unsignedDecimal? text = some d) : ∃ v, UnsignedDecimal text v := by
  have hsplit : text = text.takeWhile Char.isDigit ++ text.dropWhile Char.isDigit :=
    List.takeWhile_append_dropWhile.symm
  have hwhole := allDigits_takeWhile text
  unfold unsignedDecimal? at h
  dsimp only at h
  split at h
  · rename_i more hpoint
    dsimp only at h
    split at h
    · cases h
    · rename_i hdigits
      obtain ⟨e, he, -⟩ := Option.bind_eq_some_iff.mp h
      obtain ⟨k, hk⟩ := isScale_of_exponent? he
      have hmore : more = more.takeWhile Char.isDigit ++ more.dropWhile Char.isDigit :=
        List.takeWhile_append_dropWhile.symm
      rw [Bool.and_eq_true, List.isEmpty_iff, List.isEmpty_iff, not_and_or] at hdigits
      rw [hsplit, hpoint, hmore]
      exact ⟨_, .mk hwhole (.inl rfl) (allDigits_takeWhile more) hdigits hk⟩
  · rename_i rest hrest
    dsimp only at h
    split at h
    · cases h
    · rename_i hdigits
      obtain ⟨e, he, -⟩ := Option.bind_eq_some_iff.mp h
      obtain ⟨k, hk⟩ := isScale_of_exponent? he
      rw [Bool.and_eq_true, List.isEmpty_iff, List.isEmpty_iff, not_and_or] at hdigits
      rw [hsplit]
      exact ⟨_, .mk hwhole (.inr ⟨rfl, rfl⟩) (fun c hc => (nomatch hc)) hdigits hk⟩

/-- Every text that is accepted is a decimal number. -/
theorem exists_decimalText {text : List Char} (h : isFiniteDecimal text = true) :
    ∃ q, DecimalText text q := by
  obtain ⟨d, hd, -⟩ := (Option.any_eq_true _ _).mp h
  obtain ⟨sign, s, hsign, htext⟩ := exists_splitSign text
  obtain ⟨v, hv⟩ := exists_unsignedDecimal hd
  exact ⟨_, sign, s, _, v, hsign, hv, htext, rfl⟩

/-! ## Decimals as literals -/

theorem UnsignedDecimal.starts {text : List Char} {v : ℚ} (h : UnsignedDecimal text v) :
    StartsAsNumber text := by
  cases h with
  | @mk whole point fraction exponent k hwhole hpoint hfraction hdigits hexponent =>
      cases whole with
      | cons c whole =>
          exact ⟨c, _, rfl, .inr (by rw [digitOf_decimal (hwhole c (List.mem_cons_self ..))]; rfl)⟩
      | nil =>
          rcases hpoint with rfl | ⟨-, rfl⟩
          · exact ⟨_, _, rfl, .inl rfl⟩
          · exact absurd rfl (hdigits.resolve_left (absurd rfl))

/-- Digits with a point among them are the mantissa of a literal. -/
theorem mantissa_of_digits {whole fraction : List Char} (hwhole : AllDigits whole)
    (hfraction : AllDigits fraction) (hdigits : whole ≠ [] ∨ fraction ≠ []) :
    Mantissa 10 (whole ++ '.' :: fraction) (digitValues whole) (digitValues fraction) := by
  by_cases hw : whole = []
  · subst hw
    exact .fraction (digits_decimal hfraction (hdigits.resolve_left (absurd rfl)))
  · by_cases hf : fraction = []
    · subst hf
      exact .point (digits_decimal hwhole hw)
    · exact .both (digits_decimal hwhole hw) (digits_decimal hfraction hf)

theorem mantissa_whole (base : ℕ) (ds : List ℕ) : mantissa base ds [] = positional base ds := by
  rw [mantissa, List.append_nil, List.length_nil, pow_zero, div_one]

/-- Decimal digits are an integer literal of the same value unless they are read as octal. -/
theorem integerLiteral_of_digits {text : List Char} (h : AllDigits text) (hne : text ≠ [])
    (hoctal : ¬ IsOctal text) : IntegerLiteral text (positional 10 (digitValues text)) := by
  by_cases hfirst : text.head? = some '0'
  · obtain ⟨ds, rfl⟩ := List.head?_eq_some_iff.mp hfirst
    have hds : AllDigits ds := fun c hc => h c (List.mem_cons_of_mem _ hc)
    have hvalue : positional 10 (digitValues ('0' :: ds)) = positional 10 (digitValues ds) :=
      positional_zero_cons 10 (digitValues ds)
    rw [hvalue]
    by_cases hempty : ds = []
    · subst hempty
      exact .zero
    · have hsmall : positional 10 (digitValues ds) < 8 := by
        rw [← Nat.not_le]
        exact fun hle => hoctal ⟨ds, hds, hle, rfl⟩
      obtain ⟨hbase, heq⟩ := positional_octal_eq hsmall
      rw [← heq]
      exact .octal (.inl rfl) (digits_of_allDigits hds hempty hbase)
  · exact .decimal hfirst (digits_decimal h hne)

/-- A decimal of digits only has no point and no exponent. -/
theorem UnsignedDecimal.of_allDigits {text : List Char} {v : ℚ} (h : UnsignedDecimal text v)
    (hall : AllDigits text) : v = positional 10 (digitValues text) := by
  cases h with
  | @mk whole point fraction exponent k hwhole hpoint hfraction hdigits hexponent =>
      rcases hpoint with rfl | ⟨rfl, rfl⟩
      · exact absurd (by simp) (hall.not_mem (c := '.') rfl)
      · rcases hexponent with ⟨rfl, rfl⟩ | ⟨letter, sign, s, ds, hletter, -, -, -, rfl, -⟩
        · simp [mantissa_whole, digitValues]
        · have hother : ∀ c ∈ ['e', 'E'], c.isDigit = false := by simp
          exact absurd (by simp) (hall.not_mem (hother letter hletter))

/-- A decimal is a literal of the same value exactly if it is not read as octal. -/
theorem UnsignedDecimal.literal_iff {text : List Char} {v : ℚ} (h : UnsignedDecimal text v) :
    Literal text v ↔ ¬ IsOctal text := by
  constructor
  · rintro hliteral ⟨ds, hds, hle, rfl⟩
    have hall : AllDigits ('0' :: ds) := by
      intro c hc
      rcases List.mem_cons.mp hc with rfl | hc
      · rfl
      · exact hds c hc
    have hne : ds ≠ [] := by
      rintro rfl
      exact absurd hle (by decide)
    have hv := h.of_allDigits hall
    rw [show digitValues ('0' :: ds) = 0 :: digitValues ds from rfl, positional_zero_cons] at hv
    -- digits alone can only be an integer, and with a zero in front that is an octal one
    generalize hcs : '0' :: ds = cs at hliteral hall
    cases hliteral with
    | float hfloat => exact hfloat.not_allDigits hall
    | @integer n hinteger =>
        rw [← hcs] at hinteger
        obtain ⟨hbase, rfl⟩ := hinteger.octal_of_digits hds hne
        have hlt := positional_octal_lt hbase hle
        exact absurd (Nat.cast_injective hv) (Nat.ne_of_lt hlt)
  · intro hoctal
    cases h with
    | @mk whole point fraction exponent k hwhole hpoint hfraction hdigits hexponent =>
        rcases hpoint with rfl | ⟨rfl, rfl⟩
        · have hmantissa := mantissa_of_digits hwhole hfraction hdigits
          rcases hexponent with ⟨rfl, rfl⟩ | ⟨letter, sign, s, ds, hletter, hsign, hds, hne, rfl,
            rfl⟩
          · rw [List.append_nil, zpow_zero, mul_one]
            exact .float (.pointed hmantissa (by simp))
          · have hscaled := FloatLiteral.scaled hmantissa
              (.mk hletter hsign (digits_decimal hds hne))
            rw [List.append_assoc] at hscaled
            exact .float hscaled
        · have hne : whole ≠ [] := hdigits.resolve_right (absurd rfl)
          rcases hexponent with ⟨rfl, rfl⟩ | ⟨letter, sign, s, ds, hletter, hsign, hds, hne', rfl,
            rfl⟩
          · -- neither a point nor an exponent
            rw [List.append_nil, List.append_nil, List.append_nil] at hoctal ⊢
            rw [zpow_zero, mul_one, show digitValues [] = [] from rfl, mantissa_whole]
            exact .integer (integerLiteral_of_digits hwhole hne hoctal)
          · exact .float (.scaled (.whole (digits_decimal hwhole hne))
              (.mk hletter hsign (digits_decimal hds hne')))

/-! ## Signs -/

theorem IsOctal.starts {text : List Char} (h : IsOctal text) : StartsAsNumber text := by
  obtain ⟨ds, -, -, rfl⟩ := h
  exact ⟨_, _, rfl, .inr rfl⟩

theorem readsAsOctal_iff {sign text : List Char} {s : ℤ} (hsign : Sign sign s)
    (htext : StartsAsNumber text) : ReadsAsOctal (sign ++ text) ↔ IsOctal text := by
  constructor
  · rintro ⟨sign', s', digits, hsign', hoctal, heq⟩
    rwa [hsign.append_inj hsign' htext hoctal.starts heq]
  · intro hoctal
    exact ⟨sign, s, text, hsign, hoctal, rfl⟩

theorem dropPlus_unsigned {text : List Char} (h : StartsAsNumber text) :
    trimStartWhere (· == '+') text = text := by
  obtain ⟨c, rest, rfl, -⟩ := id h
  refine List.dropWhile_cons_of_neg ?_
  rw [beq_iff_eq]
  rintro rfl
  exact h.ne_sign (by decide) rest rfl

/-- A decimal number without a plus sign denotes itself exactly if it is not read as octal. -/
theorem DecimalText.denotes_iff {text : List Char} {q : ℚ} (h : DecimalText text q) :
    Denotes (trimStartWhere (· == '+') text) q ↔ ¬ ReadsAsOctal text := by
  obtain ⟨sign, s, unsigned, v, hsign, hunsigned, rfl, rfl⟩ := h
  have hstarts := hunsigned.starts
  rw [readsAsOctal_iff hsign hstarts, ← hunsigned.literal_iff]
  cases hsign with
  | none =>
      rw [List.nil_append, dropPlus_unsigned hstarts, Int.cast_one, one_mul]
      exact denotes_unsigned_iff hstarts
  | plus =>
      have hdrop : trimStartWhere (· == '+') (['+'] ++ unsigned) = unsigned :=
        dropPlus_unsigned hstarts
      rw [hdrop, Int.cast_one, one_mul]
      exact denotes_unsigned_iff hstarts
  | minus =>
      rw [Int.cast_neg, Int.cast_one, neg_one_mul]
      exact denotes_minus_iff

end Number

/-! ## Defaults -/

namespace DefaultValue

/-- The default of a floating-point field is a decimal number, and the expression that is written
    for it denotes that number exactly if it is not read as octal. -/
theorem float_denotes_iff {bits : Nat} {value : Argument} {d : DefaultValue}
    (h : ofScalar (.float bits) value = .ok d) (imports : ResolvedImports) :
    (∃ q, Number.DecimalText (trim value.text.toList) q)
      ∧ ∀ q, Number.DecimalText (trim value.text.toList) q →
        (Number.Denotes (d.render imports).toList q
          ↔ ¬ Number.ReadsAsOctal (trim value.text.toList)) := by
  unfold ofScalar at h
  dsimp only at h
  split at h
  · rename_i haccepted
    refine ⟨Number.exists_decimalText haccepted, fun q hq => ?_⟩
    rw [← Except.ok.inj h, render, String.toList_ofList]
    exact hq.denotes_iff
  · cases h

/-- A default with leading zeros, a fraction and an exponent. -/
def paddedDefault : Argument :=
  ⟨.bare, "-007.50E+2"⟩

theorem decimalText_paddedDefault : Number.DecimalText "-007.50E+2".toList (-750) := by
  have hwhole : Number.AllDigits "007".toList := by decide
  have hfraction : Number.AllDigits "50".toList := by decide
  have hscale : Number.IsScale "E+2".toList 2 :=
    .inr ⟨'E', ['+'], 1, ['2'], by decide, .plus, by decide, by decide, rfl, by decide⟩
  have hvalue : Number.mantissa 10 (Number.digitValues "007".toList)
      (Number.digitValues "50".toList) * (10 : ℚ) ^ (2 : ℤ) = 750 := by
    have hdigits : Number.positional 10 (Number.digitValues "007".toList
        ++ Number.digitValues "50".toList) = 750 := by decide
    have hlength : (Number.digitValues "50".toList).length = 2 := by decide
    rw [Number.mantissa, hdigits, hlength]
    norm_num
  refine ⟨['-'], -1, _, _, .minus,
    .mk hwhole (.inl rfl) hfraction (.inl (by decide)) hscale, rfl, ?_⟩
  rw [hvalue]
  norm_num

/-- The default keeps its value. -/
theorem float_denotes_padded :
    ofScalar (.float 64) paddedDefault = .ok (.expression "-007.50E+2")
      ∧ Number.DecimalText "-007.50E+2".toList (-750)
      ∧ Number.Denotes "-007.50E+2".toList (-750) := by
  have haccepted : ofScalar (.float 64) paddedDefault = .ok (.expression "-007.50E+2") := by
    rfl
  have hkept := ((float_denotes_iff haccepted ⟨[]⟩).2 _ decimalText_paddedDefault).mpr (by
    rintro ⟨sign, s, digits, hsign, ⟨ds, hds, -, rfl⟩, htext⟩
    have hpoint : '.' ∈ sign ++ '0' :: ds := by
      rw [← htext]
      decide
    have hmem : '.' ∈ ds := by
      cases hsign <;> simpa using hpoint
    exact hds.not_mem rfl hmem)
  rw [render] at hkept
  exact ⟨haccepted, decimalText_paddedDefault, hkept⟩

theorem decimalText_ten : Number.DecimalText "010".toList 10 := by
  have hwhole : Number.AllDigits "010".toList := by decide
  have hnone : Number.AllDigits [] := by decide
  have hvalue : Number.mantissa 10 (Number.digitValues "010".toList) (Number.digitValues [])
      * (10 : ℚ) ^ (0 : ℤ) = 10 := by
    have hdigits : Number.positional 10 (Number.digitValues "010".toList) = 10 := by decide
    rw [show Number.digitValues [] = [] from rfl, Number.mantissa_whole, hdigits]
    norm_num
  refine ⟨[], 1, _, _, .none,
    .mk hwhole (.inr ⟨rfl, rfl⟩) hnone (.inl (by decide)) (.inl ⟨rfl, rfl⟩), rfl, ?_⟩
  rw [hvalue]
  norm_num

/-- An accepted ten with a leading zero is not written as a ten. -/
theorem not_denotes_of_leadingZero : ¬ ∀ (bits : Nat) (value : Argument) (d : DefaultValue)
    (imports : ResolvedImports) (q : ℚ), ofScalar (.float bits) value = .ok d →
      Number.DecimalText (trim value.text.toList) q →
      Number.Denotes (d.render imports).toList q := by
  intro h
  have hdenotes := h 64 ⟨.bare, "010"⟩ (.expression "010") ⟨[]⟩ 10 rfl decimalText_ten
  rw [render] at hdenotes
  have hoctal : Number.ReadsAsOctal "010".toList :=
    ⟨[], 1, "010".toList, .none, ⟨"10".toList, by decide, by decide, rfl⟩, rfl⟩
  exact decimalText_ten.denotes_iff.mp hdenotes hoctal

end DefaultValue

end ServiceWiring
