import Mathlib.Data.List.TakeWhile
import Mathlib.Tactic.FieldSimp
import Mathlib.Tactic.Linarith
import Mathlib.Tactic.Positivity
import ServiceWiring.Duration
import ServiceWiring.Proofs.NumberLiteral
import ServiceWiring.Proofs.Text

/-!
# A number with a unit

A number with a unit is brought to a whole multiple of a smaller unit digit by digit.  A step
multiplies the digits of the fraction with the factor of the unit, and as long as this product fits
a word, the step does not change the duration.  The way succeeds for every number that is a whole
number of nanoseconds and not too large: such a number has thirteen digits behind its point at
most, zeros apart, so that all products and amounts on the way fit a word.

* `Duration.fractionOf` — the fraction that digits behind a point stand for;
* `Duration.carry?_eq_some_iff` — one step, when its product fits;
* `Duration.Ladder` — the units from one on downwards;
* `Duration.products` — the products that are formed on the way;
* `Duration.scale_sound`, `Duration.scale_complete` — what the way from unit to unit keeps, and
  when it ends;
* `Duration.DecimalNumber`, `Duration.suffixes` — numbers and units as they are written;
* `Duration.term?_sound`, `Duration.term?_complete` — the same for a number with a unit.
-/

namespace ServiceWiring

open Text Number

namespace Duration

variable {ds : List Char} {n width : ℕ}

/-! ## Digits behind a point -/

theorem digitsValue_eq_positional (ds : List Char) :
    digitsValue ds = positional 10 (digitValues ds) := by
  rw [positional_eq_foldl, digitValues, List.foldl_map]
  rfl

theorem digitsValue_append (front behind : List Char) :
    digitsValue (front ++ behind)
      = 10 ^ behind.length * digitsValue front + digitsValue behind := by
  show Nat.ofDigitChars 10 (front ++ behind) 0 = _
  rw [Nat.ofDigitChars_append, Nat.ofDigitChars_eq_ofDigitChars_zero]
  rfl

theorem digitsValue_replicate (k : ℕ) : digitsValue (List.replicate k '0') = 0 := by
  show Nat.ofDigitChars 10 (List.replicate k '0') 0 = 0
  rw [Nat.ofDigitChars_replicate_zero, Nat.mul_zero]

theorem digitsValue_lt (h : AllDigits ds) : digitsValue ds < 10 ^ ds.length := by
  induction ds with
  | nil => decide
  | cons c ds ih =>
      have hds := ih fun d hd => h d (List.mem_cons_of_mem c hd)
      have hc : digitsValue [c] < 10 := by
        show 10 * 0 + (c.toNat - '0'.toNat) < 10
        have := digit_lt_ten (h c (List.mem_cons_self ..))
        omega
      rw [← List.singleton_append, digitsValue_append, List.singleton_append, List.length_cons,
        pow_succ]
      calc 10 ^ ds.length * digitsValue [c] + digitsValue ds
          < 10 ^ ds.length * digitsValue [c] + 10 ^ ds.length := Nat.add_lt_add_left hds _
        _ = 10 ^ ds.length * (digitsValue [c] + 1) := by ring
        _ ≤ 10 ^ ds.length * 10 := Nat.mul_le_mul_left _ hc

/-- The fraction that digits behind a point stand for. -/
def fractionOf (ds : List Char) : ℚ :=
  digitsValue ds / 10 ^ ds.length

theorem fractionOf_nil : fractionOf [] = 0 := by
  show ((0 : ℕ) : ℚ) / 10 ^ 0 = 0
  norm_num

theorem fractionOf_nonneg (ds : List Char) : 0 ≤ fractionOf ds := by
  unfold fractionOf
  positivity

theorem fractionOf_append_zeros (ds : List Char) (k : ℕ) :
    fractionOf (ds ++ List.replicate k '0') = fractionOf ds := by
  unfold fractionOf
  rw [digitsValue_append, digitsValue_replicate, List.length_append, List.length_replicate,
    Nat.add_zero, pow_add]
  push_cast
  field_simp

/-- Digits are those that are left without the zeros at their end, and these zeros. -/
theorem exists_trimZeros (ds : List Char) : ∃ k, ds = trimZeros ds ++ List.replicate k '0' := by
  refine ⟨(ds.reverse.takeWhile (· == '0')).length, ?_⟩
  have hzeros : ds.reverse.takeWhile (· == '0')
      = List.replicate (ds.reverse.takeWhile (· == '0')).length '0' := by
    refine List.eq_replicate_iff.mpr ⟨rfl, fun c hc => ?_⟩
    have hzero := List.mem_takeWhile_imp (p := (· == '0')) hc
    exact beq_iff_eq.mp hzero
  rw [← List.reverse_replicate, ← hzeros]
  show ds = (ds.reverse.dropWhile (· == '0')).reverse ++ _
  rw [← List.reverse_append, List.takeWhile_append_dropWhile, List.reverse_reverse]

theorem fractionOf_trimZeros (ds : List Char) : fractionOf (trimZeros ds) = fractionOf ds := by
  obtain ⟨k, hk⟩ := exists_trimZeros ds
  conv_rhs => rw [hk]
  rw [fractionOf_append_zeros]

theorem getLast?_trimZeros (ds : List Char) : (trimZeros ds).getLast? ≠ some '0' := by
  have hhead := List.head?_dropWhile_not (· == '0') ds.reverse
  rw [← List.getLast?_reverse] at hhead
  intro hlast
  rw [show (ds.reverse.dropWhile (· == '0')).reverse = trimZeros ds from rfl, hlast] at hhead
  cases hhead

theorem allDigits_trimZeros_iff : AllDigits (trimZeros ds) ↔ AllDigits ds := by
  obtain ⟨k, hk⟩ := exists_trimZeros ds
  constructor
  · intro h c hc
    rw [hk] at hc
    rcases List.mem_append.mp hc with hc | hc
    · exact h c hc
    · rw [List.eq_of_mem_replicate hc]
      rfl
  · intro h c hc
    rw [hk] at h
    exact h c (List.mem_append_left _ hc)

theorem allDigits_toDigits (n : ℕ) : AllDigits (Nat.toDigits 10 n) :=
  fun _ hc => Nat.isDigit_of_mem_toDigits (by decide) (by decide) hc

theorem digitsValue_toDigits (n : ℕ) : digitsValue (Nat.toDigits 10 n) = n :=
  Nat.ofDigitChars_ten_toDigits

theorem allDigits_paddedDigits (width n : ℕ) : AllDigits (paddedDigits width n) := by
  intro c hc
  rcases List.mem_append.mp hc with hc | hc
  · rw [List.eq_of_mem_replicate hc]
    rfl
  · exact allDigits_toDigits n c hc

theorem length_toDigits_le (hwidth : 0 < width) (h : n < 10 ^ width) :
    (Nat.toDigits 10 n).length ≤ width :=
  (Nat.length_toDigits_le_iff (by decide) hwidth).mpr h

theorem length_paddedDigits (hwidth : 0 < width) (h : n < 10 ^ width) :
    (paddedDigits width n).length = width := by
  unfold paddedDigits
  rw [List.length_append, List.length_replicate, Nat.sub_add_cancel (length_toDigits_le hwidth h)]

theorem length_trimZeros_le (ds : List Char) : (trimZeros ds).length ≤ ds.length := by
  obtain ⟨k, hk⟩ := exists_trimZeros ds
  conv_rhs => rw [hk]
  rw [List.length_append]
  exact Nat.le_add_right _ _

/-- A number below a power of ten is the numerator of as many digits behind the point. -/
theorem fractionOf_paddedDigits (hwidth : 0 < width) (h : n < 10 ^ width) :
    fractionOf (paddedDigits width n) = n / 10 ^ width := by
  have hlength := length_toDigits_le hwidth h
  unfold fractionOf paddedDigits
  rw [digitsValue_append, digitsValue_replicate, digitsValue_toDigits, List.length_append,
    List.length_replicate, Nat.sub_add_cancel hlength, Nat.mul_zero, Nat.zero_add]

/-! ## Words -/

theorem word?_eq_some_iff : word? ds = some n
    ↔ ds ≠ [] ∧ AllDigits ds ∧ digitsValue ds < wordLimit ∧ n = digitsValue ds := by
  unfold word?
  constructor
  · intro h
    split at h
    · cases h
    · rename_i hword
      simp only [Bool.or_eq_true, List.isEmpty_iff, Bool.not_eq_true', decide_eq_true_eq, not_or,
        Bool.not_eq_false, List.all_eq_true, Nat.not_le] at hword
      exact ⟨hword.1.1, hword.1.2, hword.2, (Option.some.inj h).symm⟩
  · rintro ⟨hne, hall, hlt, rfl⟩
    rw [if_neg]
    simp only [Bool.or_eq_true, List.isEmpty_iff, Bool.not_eq_true', decide_eq_true_eq, not_or,
      Bool.not_eq_false, List.all_eq_true, Nat.not_le]
    exact ⟨⟨hne, hall⟩, hlt⟩

/-! ## To the next smaller unit -/

variable {factor amount : ℕ} {fraction : List Char} {next : ℕ × List Char}

/-- The amount of the next smaller unit that is carried over. -/
def carried (factor amount : ℕ) (fraction : List Char) : ℕ :=
  amount * factor + factor * digitsValue fraction / 10 ^ fraction.length

/-- The fraction of the next smaller unit that is left. -/
def left (factor : ℕ) (fraction : List Char) : List Char :=
  trimZeros (paddedDigits fraction.length
    (factor * digitsValue fraction % 10 ^ fraction.length))

/-- What is carried over and what is left are together as long as the amount and the fraction. -/
theorem carried_add_left (hfraction : fraction ≠ []) (factor amount : ℕ) :
    (carried factor amount fraction : ℚ) + fractionOf (left factor fraction)
      = (amount + fractionOf fraction) * factor := by
  have hpos : 0 < 10 ^ fraction.length := Nat.pow_pos (by decide)
  have hsplit : (factor * digitsValue fraction : ℚ)
      = 10 ^ fraction.length * (factor * digitsValue fraction / 10 ^ fraction.length : ℕ)
        + (factor * digitsValue fraction % 10 ^ fraction.length : ℕ) := by
    exact_mod_cast (Nat.div_add_mod (factor * digitsValue fraction) (10 ^ fraction.length)).symm
  rw [left, fractionOf_trimZeros, fractionOf_paddedDigits (List.length_pos_iff.mpr hfraction)
    (Nat.mod_lt _ hpos), carried, fractionOf]
  push_cast
  field_simp
  linarith

/-- The fraction that is left has no more digits than the one before. -/
theorem length_left_le (hfraction : fraction ≠ []) (factor : ℕ) :
    (left factor fraction).length ≤ fraction.length := by
  refine (length_trimZeros_le _).trans_eq ?_
  exact length_paddedDigits (List.length_pos_iff.mpr hfraction)
    (Nat.mod_lt _ (Nat.pow_pos (by decide)))

/-- A step is taken for a fraction of digits whose numbers fit. -/
theorem exists_word_of_carry? (h : carry? factor amount fraction = some next) :
    fraction ≠ [] ∧ AllDigits fraction ∧ word? fraction = some (digitsValue fraction) := by
  obtain ⟨numerator, hword, -⟩ := Option.bind_eq_some_iff.mp h
  obtain ⟨hne, hall, -, rfl⟩ := word?_eq_some_iff.mp hword
  exact ⟨hne, hall, hword⟩

/-- A step whose product fits a word is taken if the other numbers fit as well, and it is exact. -/
theorem carry?_eq_some_iff (hfits : factor * digitsValue fraction < wordLimit) :
    carry? factor amount fraction = some next ↔ fraction ≠ [] ∧ AllDigits fraction
      ∧ digitsValue fraction < wordLimit ∧ 10 ^ fraction.length < wordLimit
      ∧ carried factor amount fraction < wordLimit
      ∧ next = (carried factor amount fraction, left factor fraction) := by
  unfold carry?
  constructor
  · intro h
    obtain ⟨numerator, hword, h⟩ := Option.bind_eq_some_iff.mp h
    obtain ⟨hne, hall, hvalue, rfl⟩ := word?_eq_some_iff.mp hword
    dsimp only at h
    rw [Nat.mod_eq_of_lt hfits] at h
    split at h
    · cases h
    · rename_i hdivisor
      split at h
      · cases h
      · rename_i hcarried
        exact ⟨hne, hall, hvalue, Nat.not_le.mp hdivisor, Nat.not_le.mp hcarried,
          (Option.some.inj h).symm⟩
  · rintro ⟨hne, hall, hvalue, hdivisor, hcarried, rfl⟩
    refine Option.bind_eq_some_iff.mpr
      ⟨digitsValue fraction, word?_eq_some_iff.mpr ⟨hne, hall, hvalue, rfl⟩, ?_⟩
    have hdivisor' : ¬ wordLimit ≤ Nat.pow 10 fraction.length := Nat.not_le.mpr hdivisor
    have hcarried' : ¬ wordLimit ≤ amount * factor
        + factor * digitsValue fraction / Nat.pow 10 fraction.length :=
      Nat.not_le.mpr hcarried
    dsimp only
    rw [Nat.mod_eq_of_lt hfits, if_neg hdivisor', if_neg hcarried']
    rfl

/-! ## From unit to unit -/

/-- The units from one of them down to the smallest, each a whole multiple of the next one. -/
inductive Ladder : List TimeUnit → Prop where
  | last {unit : TimeUnit} (hunit : unit ∈ TimeUnit.all) (hfactor : unit.factor = 1)
      (hnanos : unit.nanos = 1) : Ladder [unit]
  | step {unit next : TimeUnit} {rest : List TimeUnit} (hunit : unit ∈ TimeUnit.all)
      (hfactor : unit.factor ≠ 1) (hnanos : unit.nanos = unit.factor * next.nanos)
      (h : Ladder (next :: rest)) : Ladder (unit :: next :: rest)

theorem Ladder.head_mem {unit : TimeUnit} {smaller : List TimeUnit}
    (h : Ladder (unit :: smaller)) : unit ∈ TimeUnit.all := by
  cases h with
  | last hunit _ _ => exact hunit
  | step hunit _ _ _ => exact hunit

variable {unit : TimeUnit} {units smaller : List TimeUnit} {term : DurationTerm}

theorem Ladder.mem_all (h : Ladder units) : ∀ unit ∈ units, unit ∈ TimeUnit.all := by
  induction h with
  | last hunit _ _ => exact List.forall_mem_singleton.mpr hunit
  | step hunit _ _ _ ih => exact List.forall_mem_cons.mpr ⟨hunit, ih⟩

theorem scale_of_whole (unit : TimeUnit) (smaller : List TimeUnit) (amount : ℕ) :
    scale (unit :: smaller) amount [] = some ⟨amount, unit⟩ := by
  rfl

/-- A fraction is brought to the next smaller unit, and from there on. -/
theorem scale_eq_some_iff (hfraction : fraction ≠ []) :
    scale (unit :: smaller) amount fraction = some term ↔ unit.factor ≠ 1
      ∧ ∃ next, carry? unit.factor amount fraction = some next
        ∧ scale smaller next.1 next.2 = some term := by
  have hempty : fraction.isEmpty = false := List.isEmpty_eq_false_iff.mpr hfraction
  rw [scale, hempty, if_neg Bool.false_ne_true]
  by_cases hfactor : unit.factor = 1
  · rw [if_pos hfactor]
    constructor
    · intro h
      cases h
    · intro h
      exact absurd hfactor h.1
  · rw [if_neg hfactor]
    exact Option.bind_eq_some_iff.trans ⟨fun h => ⟨hfactor, h⟩, fun h => h.2⟩

/-- The products of a factor and the digits of a fraction that are formed on the way from unit to
    unit, as they are before they wrap around. -/
def products : List TimeUnit → ℕ → List Char → List ℕ
  | [], _, _ => []
  | unit :: smaller, amount, fraction =>
      if unit.factor = 1 then []
      else
        match word? fraction with
        | none => []
        | some numerator =>
            unit.factor * numerator ::
              match carry? unit.factor amount fraction with
              | none => []
              | some (amount, fraction) => products smaller amount fraction

/-- A step that is taken forms its product, and the way goes on behind it. -/
theorem products_of_carry? (hfactor : unit.factor ≠ 1)
    (h : carry? unit.factor amount fraction = some next) :
    products (unit :: smaller) amount fraction
      = unit.factor * digitsValue fraction :: products smaller next.1 next.2 := by
  obtain ⟨-, -, hword⟩ := exists_word_of_carry? h
  rw [products, if_neg hfactor, hword]
  dsimp only
  rw [h]

/-- A whole multiple that is found is as long as the amount and the fraction, when every product on
    the way fits a word. -/
theorem scale_sound (hladder : Ladder (unit :: smaller))
    (hfits : ∀ p ∈ products (unit :: smaller) amount fraction, p < wordLimit)
    (h : scale (unit :: smaller) amount fraction = some term) :
    AllDigits fraction ∧ term.unit ∈ TimeUnit.all
      ∧ (term.amount * term.unit.nanos : ℚ) = (amount + fractionOf fraction) * unit.nanos := by
  induction smaller generalizing unit amount fraction with
  | nil =>
      cases hladder with
      | last hunit hfactor _ =>
          by_cases hfraction : fraction = []
          · subst hfraction
            rw [scale_of_whole] at h
            rw [← Option.some.inj h]
            exact ⟨by decide, hunit, by rw [fractionOf_nil, add_zero]⟩
          · -- there is no unit to bring a rest to
            exact absurd hfactor ((scale_eq_some_iff hfraction).mp h).1
  | cons smallerUnit rest ih =>
      cases hladder with
      | step hunit _ hnanos hladder =>
          by_cases hfraction : fraction = []
          · subst hfraction
            rw [scale_of_whole] at h
            rw [← Option.some.inj h]
            exact ⟨by decide, hunit, by rw [fractionOf_nil, add_zero]⟩
          · obtain ⟨hfactor, next, hnext, h⟩ := (scale_eq_some_iff hfraction).mp h
            rw [products_of_carry? hfactor hnext, List.forall_mem_cons] at hfits
            obtain ⟨-, hall, -, -, -, rfl⟩ := (carry?_eq_some_iff hfits.1).mp hnext
            obtain ⟨-, hterm, hexact⟩ := ih hladder hfits.2 h
            refine ⟨hall, hterm, ?_⟩
            rw [hexact, carried_add_left hfraction, hnanos]
            push_cast
            ring

/-- A fraction of at most sixteen digits forms a product that fits a word, because no factor is
    larger than a thousand. -/
theorem product_lt (hunit : unit ∈ TimeUnit.all) (hall : AllDigits fraction)
    (hlength : fraction.length ≤ 16) : unit.factor * digitsValue fraction < wordLimit := by
  have hfactor : ∀ unit ∈ TimeUnit.all, unit.factor ≤ 1000 := by
    decide
  have hword : 1000 * 10 ^ 16 < wordLimit := by
    decide
  calc unit.factor * digitsValue fraction
      ≤ 1000 * 10 ^ fraction.length := Nat.mul_le_mul (hfactor unit hunit) (digitsValue_lt hall).le
    _ ≤ 1000 * 10 ^ 16 := Nat.mul_le_mul_left _ (Nat.pow_le_pow_right (by decide) hlength)
    _ < wordLimit := hword

/-- No product leaves a word on the way of a fraction of at most sixteen digits. -/
theorem products_lt (hunits : ∀ unit ∈ units, unit ∈ TimeUnit.all)
    (hlength : fraction.length ≤ 16) :
    ∀ p ∈ products units amount fraction, p < wordLimit := by
  induction units generalizing amount fraction with
  | nil =>
      intro p hp
      cases hp
  | cons unit smaller ih =>
      intro p hp
      rw [products] at hp
      split at hp
      · cases hp
      · cases hword : word? fraction with
        | none =>
            rw [hword] at hp
            cases hp
        | some numerator =>
            obtain ⟨hne, hall, -, rfl⟩ := word?_eq_some_iff.mp hword
            have hproduct := product_lt (hunits unit (List.mem_cons_self ..)) hall hlength
            rw [hword] at hp
            rcases List.mem_cons.mp hp with rfl | hp
            · exact hproduct
            · split at hp
              · cases hp
              · rename_i hnext
                -- the rest has as many digits at most
                obtain ⟨-, -, -, -, -, hleft⟩ := (carry?_eq_some_iff hproduct).mp hnext
                obtain ⟨-, rfl⟩ := Prod.mk.inj hleft
                exact ih (fun unit hunit => hunits unit (List.mem_cons_of_mem _ hunit))
                  ((length_left_le hne _).trans hlength) p hp

/-! ### Whole numbers of nanoseconds -/

/-- The number of digits is bounded, because an hour has thirteen factors two and eleven factors
    five in its nanoseconds. -/
theorem le_thirteen_of_dvd {v k : ℕ} (hten : ¬ 10 ∣ v) (h : 10 ^ k ∣ v * 3600000000000) :
    k ≤ 13 := by
  by_contra hlarge
  have hpow : 10 ^ 14 ∣ v * 3600000000000 :=
    dvd_trans (pow_dvd_pow 10 (Nat.lt_of_not_le hlarge)) h
  have htwo : 2 ∣ v := by
    have hodd : 2 ∣ v * (3 ^ 2 * 5 ^ 11) := by
      have hfactored : 2 ^ 13 * 2 ∣ 2 ^ 13 * (v * (3 ^ 2 * 5 ^ 11)) := by
        calc 2 ^ 13 * 2 ∣ 10 ^ 14 := by decide
          _ ∣ v * 3600000000000 := hpow
          _ = 2 ^ 13 * (v * (3 ^ 2 * 5 ^ 11)) := by ring
      exact Nat.dvd_of_mul_dvd_mul_left (by decide) hfactored
    exact (show Nat.Coprime 2 (3 ^ 2 * 5 ^ 11) by decide).dvd_of_dvd_mul_right hodd
  have hfive : 5 ∣ v := by
    have hrest : 5 ∣ v * (2 ^ 13 * 3 ^ 2) := by
      have hfactored : 5 ^ 11 * 5 ∣ 5 ^ 11 * (v * (2 ^ 13 * 3 ^ 2)) := by
        calc 5 ^ 11 * 5 ∣ 10 ^ 14 := by decide
          _ ∣ v * 3600000000000 := hpow
          _ = 5 ^ 11 * (v * (2 ^ 13 * 3 ^ 2)) := by ring
      exact Nat.dvd_of_mul_dvd_mul_left (by decide) hfactored
    exact (show Nat.Coprime 5 (2 ^ 13 * 3 ^ 2) by decide).dvd_of_dvd_mul_right hrest
  exact hten (Nat.Coprime.mul_dvd_of_dvd_of_dvd (by decide : Nat.Coprime 2 5) htwo hfive)

/-- Digits that do not end in a zero are no multiple of ten. -/
theorem not_ten_dvd_digitsValue (hall : AllDigits ds) (hne : ds ≠ [])
    (hlast : ds.getLast? ≠ some '0') : ¬ 10 ∣ digitsValue ds := by
  obtain ⟨front, c, rfl⟩ := (List.eq_nil_or_concat' ds).resolve_left hne
  have hc : c.isDigit = true := hall c (List.mem_append_right _ (List.mem_singleton_self c))
  have hne : c ≠ '0' := by
    simpa using hlast
  have hrange : 48 ≤ c.toNat ∧ c.toNat ≤ 57 := Char.isDigit_iff_toNat.mp hc
  have hzero : c.toNat ≠ 48 := fun h => hne (Char.toNat_inj.mp h)
  have hvalue : digitsValue (front ++ [c]) = 10 * digitsValue front + (c.toNat - 48) := by
    rw [digitsValue_append]
    show 10 ^ 1 * digitsValue front + (10 * 0 + (c.toNat - 48)) = _
    omega
  rw [hvalue]
  omega

theorem nanos_pos : ∀ unit ∈ TimeUnit.all, 1 ≤ unit.nanos := by
  decide

theorem nanos_dvd : ∀ unit ∈ TimeUnit.all, unit.nanos ∣ 3600000000000 := by
  decide

/-- The digits of a fraction that gives a whole number are that many times a power of ten. -/
theorem pow_dvd_of_whole {nanos : ℕ}
    (hwhole : (amount + fractionOf fraction) * nanos = (n : ℚ)) :
    10 ^ fraction.length ∣ digitsValue fraction * nanos := by
  have hrat : (amount * nanos * 10 ^ fraction.length + digitsValue fraction * nanos : ℚ)
      = n * 10 ^ fraction.length := by
    unfold fractionOf at hwhole
    field_simp at hwhole
    linarith
  have hnat : amount * nanos * 10 ^ fraction.length + digitsValue fraction * nanos
      = n * 10 ^ fraction.length := by
    exact_mod_cast hrat
  rw [← Nat.dvd_add_right (Nat.dvd_mul_left _ (amount * nanos)), hnat]
  exact Nat.dvd_mul_left _ _

/-- A fraction that gives a whole number of nanoseconds has few digits. -/
theorem length_le_thirteen (hunit : unit ∈ TimeUnit.all) (hall : AllDigits fraction)
    (hlast : fraction.getLast? ≠ some '0')
    (hwhole : (amount + fractionOf fraction) * unit.nanos = (n : ℚ)) : fraction.length ≤ 13 := by
  rcases eq_or_ne fraction [] with rfl | hfraction
  · exact Nat.zero_le 13
  exact le_thirteen_of_dvd (not_ten_dvd_digitsValue hall hfraction hlast)
    (dvd_trans (pow_dvd_of_whole hwhole) (Nat.mul_dvd_mul_left _ (nanos_dvd unit hunit)))

/-- A whole number of the smallest unit leaves no fraction. -/
theorem eq_nil_of_whole (hall : AllDigits fraction) (hlast : fraction.getLast? ≠ some '0')
    (hwhole : (amount + fractionOf fraction) * (1 : ℕ) = (n : ℚ)) : fraction = [] := by
  by_contra hfraction
  have hdvd := pow_dvd_of_whole hwhole
  rw [mul_one] at hdvd
  have hzero := Nat.eq_zero_of_dvd_of_lt hdvd (digitsValue_lt hall)
  refine absurd ?_ (not_ten_dvd_digitsValue hall hfraction hlast)
  rw [hzero]
  exact Nat.dvd_zero 10

/-- The amount in front of the fraction is no larger than the whole number of nanoseconds. -/
theorem amount_le {nanos : ℕ} (hnanos : 1 ≤ nanos)
    (hwhole : (amount + fractionOf fraction) * nanos = (n : ℚ)) : amount ≤ n := by
  have hpos : (1 : ℚ) ≤ nanos := by
    exact_mod_cast hnanos
  have hrest := fractionOf_nonneg fraction
  have hle : (amount : ℚ) ≤ n := by
    rw [← hwhole]
    exact (le_add_of_nonneg_right hrest).trans (le_mul_of_one_le_right (by positivity) hpos)
  exact_mod_cast hle

/-- A whole number of nanoseconds that fits a word is found. -/
theorem scale_complete (hladder : Ladder (unit :: smaller)) (hall : AllDigits fraction)
    (hlast : fraction.getLast? ≠ some '0') (hn : n < wordLimit)
    (hwhole : (amount + fractionOf fraction) * unit.nanos = (n : ℚ)) :
    ∃ term, scale (unit :: smaller) amount fraction = some term := by
  induction smaller generalizing unit amount fraction with
  | nil =>
      cases hladder with
      | last _ _ hnanos =>
          rw [hnanos] at hwhole
          obtain rfl := eq_nil_of_whole hall hlast hwhole
          exact ⟨_, scale_of_whole ..⟩
  | cons next rest ih =>
      by_cases hfraction : fraction = []
      · subst hfraction
        exact ⟨_, scale_of_whole ..⟩
      · cases hladder with
        | step hunit hfactor hnanos hladder =>
            -- so few digits that no number on the way leaves a word
            have hlength := length_le_thirteen hunit hall hlast hwhole
            have hpow : 10 ^ fraction.length ≤ 10 ^ 13 := Nat.pow_le_pow_right (by decide) hlength
            have hword : 10 ^ 13 < wordLimit := by decide
            have hnext : (carried unit.factor amount fraction
                + fractionOf (left unit.factor fraction)) * next.nanos = (n : ℚ) := by
              rw [carried_add_left hfraction, ← hwhole, hnanos]
              push_cast
              ring
            have hcarried : carried unit.factor amount fraction < wordLimit :=
              (amount_le (nanos_pos next hladder.head_mem) hnext).trans_lt hn
            have hleft : AllDigits (left unit.factor fraction) :=
              allDigits_trimZeros_iff.mpr (allDigits_paddedDigits _ _)
            obtain ⟨term, hterm⟩ := ih hladder hleft (getLast?_trimZeros _) hnext
            have hproduct := product_lt hunit hall (hlength.trans (by decide))
            exact ⟨term, (scale_eq_some_iff hfraction).mpr ⟨hfactor, _,
              (carry?_eq_some_iff hproduct).mpr ⟨hfraction, hall,
                (digitsValue_lt hall).trans (hpow.trans_lt hword), hpow.trans_lt hword, hcarried,
                rfl⟩, hterm⟩⟩

/-! ## Numbers -/

/-- A decimal number: digits with at most one point among them, and at least one digit. -/
inductive DecimalNumber : List Char → ℚ → Prop where
  | whole {ds : List Char} (h : AllDigits ds) (hne : ds ≠ []) :
      DecimalNumber ds (positional 10 (digitValues ds))
  | pointed {ds ds' : List Char} (h : AllDigits ds) (h' : AllDigits ds')
      (hne : ds ≠ [] ∨ ds' ≠ []) :
      DecimalNumber (ds ++ '.' :: ds') (mantissa 10 (digitValues ds) (digitValues ds'))

variable {number suffix rest cs : List Char} {q : ℚ} {nanos : ℕ}

/-- What is in front of the first point. -/
def wholePart (number : List Char) : List Char :=
  number.takeWhile (· != '.')

/-- What is behind the first point. -/
def fractionPart (number : List Char) : List Char :=
  (number.dropWhile (· != '.')).drop 1

theorem ne_point_of_allDigits (h : AllDigits ds) : ∀ c ∈ ds, (c != '.') = true :=
  bne_of_not_mem (h.not_mem rfl)

theorem parts_of_whole (h : AllDigits ds) : wholePart ds = ds ∧ fractionPart ds = [] := by
  constructor
  · rw [wholePart, List.takeWhile_eq_self_iff]
    exact ne_point_of_allDigits h
  · rw [fractionPart, List.dropWhile_eq_nil_iff.mpr (ne_point_of_allDigits h)]
    rfl

theorem parts_of_pointed (h : AllDigits ds) (behind : List Char) :
    wholePart (ds ++ '.' :: behind) = ds ∧ fractionPart (ds ++ '.' :: behind) = behind := by
  constructor
  · exact takeWhile_run (ne_point_of_allDigits h) rfl
  · rw [fractionPart, dropWhile_run (ne_point_of_allDigits h) rfl]
    rfl

theorem mantissa_digitValues (whole fraction : List Char) :
    mantissa 10 (digitValues whole) (digitValues fraction)
      = digitsValue whole + fractionOf fraction := by
  have happend : digitValues whole ++ digitValues fraction = digitValues (whole ++ fraction) :=
    List.map_append.symm
  have hlength : (digitValues fraction).length = fraction.length := List.length_map ..
  rw [mantissa, happend, hlength, ← digitsValue_eq_positional, digitsValue_append, fractionOf]
  push_cast
  field_simp

/-- A decimal number is read by its two parts. -/
theorem decimalNumber_iff : DecimalNumber number q ↔ AllDigits (wholePart number)
    ∧ AllDigits (fractionPart number) ∧ (wholePart number ≠ [] ∨ fractionPart number ≠ [])
    ∧ q = digitsValue (wholePart number) + fractionOf (fractionPart number) := by
  constructor
  · intro h
    cases h with
    | whole h hne =>
        obtain ⟨hwhole, hfraction⟩ := parts_of_whole h
        rw [hwhole, hfraction, digitsValue_eq_positional, fractionOf_nil, add_zero]
        exact ⟨h, by decide, .inl hne, rfl⟩
    | pointed h h' hne =>
        obtain ⟨hwhole, hfraction⟩ := parts_of_pointed h _
        rw [hwhole, hfraction]
        exact ⟨h, h', hne, mantissa_digitValues ..⟩
  · rintro ⟨hwhole, hfraction, hne, rfl⟩
    have hsplit : number = wholePart number ++ number.dropWhile (· != '.') :=
      List.takeWhile_append_dropWhile.symm
    cases hpoint : number.dropWhile (· != '.') with
    | nil =>
        rw [hpoint, List.append_nil] at hsplit
        have hnone : fractionPart number = [] := by
          rw [fractionPart, hpoint]
          rfl
        rw [hnone, fractionOf_nil, add_zero, ← hsplit, digitsValue_eq_positional]
        rw [← hsplit] at hwhole hne
        exact .whole hwhole (hne.resolve_right (absurd hnone))
    | cons c behind =>
        obtain rfl : c = '.' := eq_of_dropWhile_ne hpoint
        have hbehind : fractionPart number = behind := by
          rw [fractionPart, hpoint]
          rfl
        rw [hpoint] at hsplit
        rw [← mantissa_digitValues, hbehind]
        rw [hbehind] at hfraction hne
        conv_lhs => rw [hsplit]
        exact .pointed hwhole hfraction hne

/-! ## Units -/

/-- The units behind a number, with their lengths in nanoseconds. -/
def suffixes : List (String × ℕ) := [
  ("h", 60 * 60 * 1000 * 1000 * 1000),
  ("m", 60 * 1000 * 1000 * 1000),
  ("s", 1000 * 1000 * 1000),
  ("ms", 1000 * 1000),
  ("us", 1000), ("\u00b5s", 1000), ("\u03bcs", 1000),
  ("ns", 1)]

theorem ladder_all : Ladder TimeUnit.all := by
  refine .step ?_ ?_ ?_ (.step ?_ ?_ ?_ (.step ?_ ?_ ?_ (.step ?_ ?_ ?_ (.step ?_ ?_ ?_
    (.last ?_ ?_ ?_))))) <;> decide

theorem Ladder.of_suffix {units lower : List TimeUnit} (h : Ladder units) (hlower : lower <:+ units)
    (hne : lower ≠ []) : Ladder lower := by
  induction h with
  | last hunit hfactor hnanos =>
      rcases List.suffix_cons_iff.mp hlower with rfl | hnil
      · exact .last hunit hfactor hnanos
      · exact absurd (List.suffix_nil.mp hnil) hne
  | step hunit hfactor hnanos h ih =>
      rcases List.suffix_cons_iff.mp hlower with rfl | hrest
      · exact .step hunit hfactor hnanos h
      · exact ih hrest

theorem ladder_unitsFrom {s : String} (h : unitsFrom s = unit :: smaller) :
    Ladder (unit :: smaller) := by
  rw [← h]
  refine ladder_all.of_suffix (List.dropWhile_suffix _) ?_
  rw [h]
  exact List.cons_ne_nil _ _

theorem mem_suffixes_of_unitsFrom {s : String} (h : unitsFrom s = unit :: smaller) :
    (s, unit.nanos) ∈ suffixes := by
  have hsuffixes : ∀ unit ∈ TimeUnit.all, ∀ s ∈ unit.suffixes, (s, unit.nanos) ∈ suffixes := by
    decide
  have hmem : unit ∈ TimeUnit.all := (ladder_unitsFrom h).head_mem
  have hhead := List.head?_dropWhile_not (fun unit : TimeUnit => !unit.suffixes.contains s)
    TimeUnit.all
  rw [show TimeUnit.all.dropWhile _ = _ from h] at hhead
  exact hsuffixes unit hmem s (by simpa using hhead)

theorem exists_unitsFrom {s : String} (h : (s, nanos) ∈ suffixes) :
    ∃ unit smaller, unitsFrom s = unit :: smaller ∧ unit.nanos = nanos := by
  have hfirst : ∀ entry ∈ suffixes, (unitsFrom entry.1).head?.map (·.nanos) = some entry.2 := by
    decide
  obtain ⟨unit, hunit, hnanos⟩ := Option.map_eq_some_iff.mp (hfirst _ h)
  obtain ⟨smaller, hunits⟩ := List.head?_eq_some_iff.mp hunit
  exact ⟨unit, smaller, hunits, hnanos⟩

/-! ## A number with a unit -/

theorem term?_eq_some_iff : term? number suffix = some term
    ↔ (wholePart number ≠ [] ∨ fractionPart number ≠ []) ∧ AllDigits (wholePart number)
      ∧ digitsValue (wholePart number) < wordLimit
      ∧ scale (unitsFrom (String.ofList suffix)) (digitsValue (wholePart number))
          (trimZeros (fractionPart number)) = some term := by
  rw [term?, ← wholePart, ← fractionPart]
  by_cases hwhole : wholePart number = []
  · rw [hwhole]
    by_cases hfraction : fractionPart number = []
    · rw [hfraction]
      constructor
      · intro h
        cases h
      · intro h
        exact absurd h.1 (by simp)
    · have hempty : (fractionPart number).isEmpty = false :=
        List.isEmpty_eq_false_iff.mpr hfraction
      rw [hempty]
      constructor
      · intro h
        exact ⟨.inr hfraction, by decide, by decide, h⟩
      · rintro ⟨-, -, -, h⟩
        exact h
  · have hempty : (wholePart number).isEmpty = false := List.isEmpty_eq_false_iff.mpr hwhole
    rw [hempty, Bool.false_and, if_neg Bool.false_ne_true]
    dsimp only
    rw [if_neg Bool.false_ne_true]
    constructor
    · intro h
      obtain ⟨amount, hword, h⟩ := Option.bind_eq_some_iff.mp h
      obtain ⟨-, hall, hlt, rfl⟩ := word?_eq_some_iff.mp hword
      exact ⟨.inl hwhole, hall, hlt, h⟩
    · rintro ⟨-, hall, hlt, h⟩
      exact Option.bind_eq_some_iff.mpr ⟨_, word?_eq_some_iff.mpr ⟨hwhole, hall, hlt, rfl⟩, h⟩

/-- The products that are formed while a number with a unit is read. -/
def termProducts (number suffix : List Char) : List ℕ :=
  if AllDigits (wholePart number) ∧ digitsValue (wholePart number) < wordLimit then
    products (unitsFrom (String.ofList suffix)) (digitsValue (wholePart number))
      (trimZeros (fractionPart number))
  else []

/-- No number of at most sixteen characters forms a product that leaves a word. -/
theorem termProducts_lt (hlength : number.length ≤ 16) :
    ∀ p ∈ termProducts number suffix, p < wordLimit := by
  intro p hp
  rw [termProducts] at hp
  split at hp
  · refine products_lt (fun unit hunit => (List.dropWhile_sublist _).subset hunit) ?_ p hp
    have hfraction : (fractionPart number).length ≤ number.length :=
      ((List.drop_sublist 1 _).trans (List.dropWhile_sublist _)).length_le
    exact (length_trimZeros_le _).trans (hfraction.trans hlength)
  · cases hp

/-- A term that is read is as long as the number of its unit, when the products that are formed for
    it fit a word. -/
theorem term?_sound (hfits : ∀ p ∈ termProducts number suffix, p < wordLimit)
    (h : term? number suffix = some term) :
    ∃ q nanos, DecimalNumber number q ∧ (String.ofList suffix, nanos) ∈ suffixes
      ∧ q * nanos = (term.amount * term.unit.nanos : ℕ) ∧ term.unit ∈ TimeUnit.all := by
  obtain ⟨hne, hwhole, hamount, hscale⟩ := term?_eq_some_iff.mp h
  rw [termProducts, if_pos ⟨hwhole, hamount⟩] at hfits
  cases hunits : unitsFrom (String.ofList suffix) with
  | nil =>
      rw [hunits] at hscale
      cases hscale
  | cons unit smaller =>
      rw [hunits] at hscale hfits
      obtain ⟨hfraction, hunit, hexact⟩ := scale_sound (ladder_unitsFrom hunits) hfits hscale
      rw [fractionOf_trimZeros] at hexact
      refine ⟨_, unit.nanos, decimalNumber_iff.mpr ⟨hwhole, allDigits_trimZeros_iff.mp hfraction,
        hne, rfl⟩, mem_suffixes_of_unitsFrom hunits, ?_, hunit⟩
      rw [← hexact]
      push_cast
      rfl

/-- A number that is a whole number of nanoseconds is read, and read as that number. -/
theorem term?_complete (hnumber : DecimalNumber number q)
    (hsuffix : (String.ofList suffix, nanos) ∈ suffixes) (hwhole : q * nanos = (n : ℚ))
    (hn : n < wordLimit) :
    ∃ term, term? number suffix = some term ∧ term.amount * term.unit.nanos = n := by
  obtain ⟨hdigits, hfraction, hne, rfl⟩ := decimalNumber_iff.mp hnumber
  obtain ⟨unit, smaller, hunits, rfl⟩ := exists_unitsFrom hsuffix
  have hladder := ladder_unitsFrom hunits
  have hexact : (digitsValue (wholePart number) + fractionOf (trimZeros (fractionPart number)))
      * unit.nanos = (n : ℚ) := by
    rw [fractionOf_trimZeros]
    exact hwhole
  have hamount : digitsValue (wholePart number) < wordLimit :=
    (amount_le (nanos_pos unit hladder.head_mem) hwhole).trans_lt hn
  have htrimmed : AllDigits (trimZeros (fractionPart number)) :=
    allDigits_trimZeros_iff.mpr hfraction
  obtain ⟨term, hterm⟩ := scale_complete hladder htrimmed (getLast?_trimZeros _) hn hexact
  refine ⟨term, term?_eq_some_iff.mpr ⟨hne, hdigits, hamount, by rw [hunits]; exact hterm⟩, ?_⟩
  -- the number is short enough for its products
  have hlength := length_le_thirteen hladder.head_mem htrimmed (getLast?_trimZeros _) hexact
  have hsound := (scale_sound hladder (products_lt hladder.mem_all (hlength.trans (by decide)))
    hterm).2.2
  rw [hexact] at hsound
  exact_mod_cast hsound

end Duration

end ServiceWiring
