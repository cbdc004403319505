import ServiceWiring.Proofs.DurationLiteral

/-!
# Expressions for durations

A duration is written as a constant expression over the units of the `time` package.  The grammar
of such expressions is the one of Go: a sign binds tighter than a product, and a product tighter
than a sum.  Each value on the way is a constant of a 64-bit type.

* `Duration.Evaluates` — the expressions with their values;
* `Duration.evaluates_expression` — a duration is written as an expression with its length;
* `Duration.parse_exact` — what is read, and what is written for it.
-/

namespace ServiceWiring

open Text Number

namespace Duration

/-! ## Constant expressions -/

/-- The constants of the `time` package, in nanoseconds. -/
def timeConstants : List (String × ℕ) := [
  ("Nanosecond", 1),
  ("Microsecond", 1000),
  ("Millisecond", 1000 * 1000),
  ("Second", 1000 * 1000 * 1000),
  ("Minute", 60 * 1000 * 1000 * 1000),
  ("Hour", 60 * 60 * 1000 * 1000 * 1000)]

/-- How tight the parts of an expression are bound, the tightest first. -/
inductive Precedence where
  | unary
  | product
  | sum

/-- A value that a signed 64-bit type holds. -/
def FitsInt64 (v : ℤ) : Prop :=
  -2 ^ 63 ≤ v ∧ v < 2 ^ 63

/-- A text of nothing but spaces. -/
def Spaces (text : List Char) : Prop :=
  ∀ c ∈ text, c = ' '

instance (text : List Char) : Decidable (Spaces text) :=
  List.decidableBAll (fun c => c = ' ') text

/-- A constant expression with its value, where the `time` package has the given name. -/
inductive Evaluates (time : List Char) : Precedence → List Char → ℤ → Prop where
  | literal {text : List Char} {n : ℕ} (h : IntegerLiteral text n) (hfits : FitsInt64 n) :
      Evaluates time .unary text n
  | constant {name : String} {n : ℕ} (h : (name, n) ∈ timeConstants) :
      Evaluates time .unary (time ++ '.' :: name.toList) n
  | group {text : List Char} {v : ℤ} (h : Evaluates time .sum text v) :
      Evaluates time .unary ('(' :: (text ++ [')'])) v
  | negated {text : List Char} {v : ℤ} (h : Evaluates time .unary text v)
      (hsign : text.head? ≠ some '-') (hfits : FitsInt64 (-v)) :
      Evaluates time .unary ('-' :: text) (-v)
  | factor {text : List Char} {v : ℤ} (h : Evaluates time .unary text v) :
      Evaluates time .product text v
  | times {text text' gap gap' : List Char} {v v' : ℤ} (h : Evaluates time .product text v)
      (hgap : Spaces gap) (hgap' : Spaces gap') (h' : Evaluates time .unary text' v')
      (hfits : FitsInt64 (v * v')) :
      Evaluates time .product (text ++ (gap ++ '*' :: (gap' ++ text'))) (v * v')
  | summand {text : List Char} {v : ℤ} (h : Evaluates time .product text v) :
      Evaluates time .sum text v
  | plus {text text' gap gap' : List Char} {v v' : ℤ} (h : Evaluates time .sum text v)
      (hgap : Spaces gap) (hgap' : Spaces gap') (h' : Evaluates time .product text' v')
      (hfits : FitsInt64 (v + v')) :
      Evaluates time .sum (text ++ (gap ++ '+' :: (gap' ++ text'))) (v + v')

variable {time : String} {term : DurationTerm} {terms : List DurationTerm} {gap : List Char}
  {n : ℕ}

theorem fitsInt64_of_le (h : n ≤ maxNanos) : FitsInt64 n ∧ FitsInt64 (-n) := by
  have hmax : maxNanos = 2 ^ 63 - 1 := rfl
  unfold FitsInt64
  omega

/-! ## Amounts -/

/-- The digits of a positive number do not begin with a zero. -/
theorem head?_toDigits (h : 0 < n) : (Nat.toDigits 10 n).head? ≠ some '0' := by
  induction n using Nat.strong_induction_on with
  | _ n ih =>
      rw [Nat.toDigits_eq_if (by decide)]
      split
      · rename_i hlt
        intro hzero
        rw [List.head?_singleton, Option.some_inj, Nat.digitChar_eq_zero] at hzero
        omega
      · rename_i hle
        rw [List.head?_append_of_ne_nil _ Nat.toDigits_ne_nil]
        exact ih (n / 10) (by omega) (by omega)

/-- The digits of a positive number are a literal of it. -/
theorem integerLiteral_toDigits (h : 0 < n) : IntegerLiteral (Nat.toDigits 10 n) n := by
  have hliteral := IntegerLiteral.decimal (head?_toDigits h)
    (digits_decimal (allDigits_toDigits n) Nat.toDigits_ne_nil)
  rwa [← digitsValue_eq_positional, digitsValue_toDigits] at hliteral

theorem mem_timeConstants {unit : TimeUnit} (h : unit ∈ TimeUnit.all) :
    (unit.constant, unit.nanos) ∈ timeConstants := by
  have hall : ∀ unit ∈ TimeUnit.all, (unit.constant, unit.nanos) ∈ timeConstants := by
    decide
  exact hall unit h

/-! ## Products and sums -/

/-- A term as a product, with gaps around the operator. -/
def productText (time : String) (gap : List Char) (term : DurationTerm) : List Char :=
  Nat.toDigits 10 term.amount
    ++ (gap ++ '*' :: (gap ++ (time.toList ++ '.' :: term.unit.constant.toList)))

/-- A term that fits is a product with its length. -/
theorem evaluates_product (time : String) (hamount : 0 < term.amount)
    (hunit : term.unit ∈ TimeUnit.all) (hgap : Spaces gap)
    (hfits : term.amount * term.unit.nanos ≤ maxNanos) :
    Evaluates time.toList .product (productText time gap term)
      (term.amount * term.unit.nanos : ℕ) := by
  have hle : term.amount ≤ term.amount * term.unit.nanos :=
    Nat.le_mul_of_pos_right _ (nanos_pos _ hunit)
  rw [Nat.cast_mul]
  refine .times (.factor (.literal (integerLiteral_toDigits hamount) ?_)) hgap hgap
    (.constant (mem_timeConstants hunit)) ?_
  · exact (fitsInt64_of_le (hle.trans hfits)).1
  · rw [← Nat.cast_mul]
    exact (fitsInt64_of_le hfits).1

/-- Terms behind a sum, with a plus sign in front of each. -/
def addedText (time : String) (terms : List DurationTerm) : List Char :=
  terms.flatMap fun term => " + ".toList ++ productText time [] term

/-- Adding terms to a sum one after the other never leaves the range, since no term is negative. -/
theorem evaluates_added {text : List Char} (h : Evaluates time.toList .sum text n)
    (hterms : ∀ term ∈ terms, 0 < term.amount ∧ term.unit ∈ TimeUnit.all)
    (hfits : n + totalNanos terms ≤ maxNanos) :
    Evaluates time.toList .sum (text ++ addedText time terms) (n + totalNanos terms : ℕ) := by
  induction terms generalizing text n with
  | nil =>
      rw [addedText, List.flatMap_nil, List.append_nil]
      exact h
  | cons term terms ih =>
      obtain ⟨hamount, hunit⟩ := hterms term (List.mem_cons_self ..)
      have hsum : n + totalNanos (term :: terms)
          = n + term.amount * term.unit.nanos + totalNanos terms := by
        rw [Nat.add_assoc]
        rfl
      rw [hsum] at hfits ⊢
      have hproduct : Evaluates time.toList .product (productText time [] term)
          (term.amount * term.unit.nanos : ℕ) :=
        evaluates_product time hamount hunit (by decide) (by omega)
      have hnext : Evaluates time.toList .sum
          (text ++ (" + ".toList ++ productText time [] term))
          (n + term.amount * term.unit.nanos : ℕ) := by
        rw [Nat.cast_add]
        have hspace : Spaces [' '] := by
          decide
        -- the sum so far is at most the whole one
        refine .plus h hspace hspace hproduct ?_
        rw [← Nat.cast_add]
        exact (fitsInt64_of_le (by omega)).1
      have hmore := ih hnext (fun term hterm => hterms term (List.mem_cons_of_mem _ hterm)) hfits
      rw [addedText, List.flatMap_cons, ← List.append_assoc]
      exact hmore

/-! ## Durations -/

variable {d : Duration} {text : String} {v : ℤ}

theorem expression_zero (time : String) (h : d.terms = []) :
    (d.expression time).toList = ['0'] := by
  rw [expression, h]
  dsimp only
  rfl

theorem expression_single (time : String) (h : d.terms = [term]) :
    (d.expression time).toList
      = (if d.negative then ['-'] else []) ++ productText time [' '] term := by
  rw [expression, h]
  cases d.negative with
  | false => simp [productText]
  | true => simp [productText]

theorem expression_sum (time : String) {first second : DurationTerm} {more : List DurationTerm}
    (h : d.terms = first :: second :: more) :
    (d.expression time).toList
      = if d.negative then
          '-' :: '(' :: (productText time [] first ++ addedText time (second :: more) ++ [')'])
        else productText time [] first ++ addedText time (second :: more) := by
  have hproduct : (fun term : DurationTerm =>
        (s!"{term.amount}*{time}.{term.unit.constant}").toList) = productText time [] := by
    funext term
    simp [productText]
  have hsum : (String.intercalate " + " ((first :: second :: more).map fun term =>
        s!"{term.amount}*{time}.{term.unit.constant}")).toList
      = productText time [] first ++ addedText time (second :: more) := by
    rw [String.toList_intercalate, List.map_map, Function.comp_def, hproduct, List.map_cons,
      intercalate_eq_append, addedText, List.flatMap_map]
  rw [expression, h]
  dsimp only
  cases d.negative with
  | false => exact hsum
  | true =>
      rw [if_pos rfl, if_pos rfl, String.toList_append, String.toList_append, hsum]
      rfl

/-- A minus sign in front of the tightest part of an expression. -/
theorem evaluates_signed (time : String) {text : List Char} (negative : Bool)
    (htext : text.head? ≠ some '-') (hn : n ≤ maxNanos) (h : Evaluates time.toList .unary text n) :
    Evaluates time.toList .unary ((if negative then ['-'] else []) ++ text)
      ((if negative then -1 else 1) * n) := by
  cases negative with
  | false =>
      rw [if_neg Bool.false_ne_true, if_neg Bool.false_ne_true, one_mul]
      exact h
  | true =>
      rw [if_pos rfl, if_pos rfl, neg_one_mul]
      exact .negated h htext (fitsInt64_of_le hn).2

theorem natAbs_toNanos : d.toNanos.natAbs = totalNanos d.terms := by
  unfold toNanos
  cases d.negative with
  | false => simp
  | true => simp

theorem fitsInt64_toNanos (h : totalNanos d.terms ≤ maxNanos) : FitsInt64 d.toNanos := by
  unfold toNanos
  cases d.negative with
  | false =>
      rw [if_neg Bool.false_ne_true, one_mul]
      exact (fitsInt64_of_le h).1
  | true =>
      rw [if_pos rfl, neg_one_mul]
      exact (fitsInt64_of_le h).2

/-- A duration that fits is written as an expression with its length. -/
theorem evaluates_expression (time : String)
    (hterms : ∀ term ∈ d.terms, 0 < term.amount ∧ term.unit ∈ TimeUnit.all)
    (hfits : totalNanos d.terms ≤ maxNanos) :
    Evaluates time.toList .sum (d.expression time).toList d.toNanos := by
  have hvalue := fitsInt64_toNanos hfits
  match hcases : d.terms with
  | [] =>
      have hzero : d.toNanos = (0 : ℕ) := by
        rw [toNanos, hcases]
        exact mul_zero _
      rw [expression_zero time hcases, hzero]
      exact .summand (.factor (.literal .zero (fitsInt64_of_le (Nat.zero_le _)).1))
  | [term] =>
      -- the sign of a single product stands at its amount
      rw [toNanos, hcases] at hvalue ⊢
      rw [hcases] at hterms hfits
      obtain ⟨hamount, hunit⟩ := hterms term (List.mem_cons_self ..)
      have htotal : totalNanos [term] = term.amount * term.unit.nanos := rfl
      rw [htotal] at hfits
      have hle : term.amount ≤ maxNanos :=
        (Nat.le_mul_of_pos_right _ (nanos_pos _ hunit)).trans hfits
      have hfirst : (Nat.toDigits 10 term.amount).head? ≠ some '-' := by
        intro hsign
        exact (allDigits_toDigits term.amount).not_mem rfl (List.mem_of_mem_head? hsign)
      have hsigned := evaluates_signed time d.negative hfirst hle
        (.literal (integerLiteral_toDigits hamount) (fitsInt64_of_le hle).1)
      have hspace : Spaces [' '] := by
        decide
      rw [expression_single time hcases, productText, ← List.append_assoc]
      rw [htotal, Nat.cast_mul, ← mul_assoc] at hvalue ⊢
      exact .summand (.times (.factor hsigned) hspace hspace (.constant (mem_timeConstants hunit))
        hvalue)
  | first :: second :: more =>
      rw [toNanos, hcases]
      rw [hcases] at hterms hfits
      have htotal : totalNanos (first :: second :: more)
          = first.amount * first.unit.nanos + totalNanos (second :: more) := rfl
      rw [htotal] at hfits ⊢
      obtain ⟨hamount, hunit⟩ := hterms first (List.mem_cons_self ..)
      have hgap : Spaces [] := by
        decide
      have hsum := evaluates_added
        (.summand (evaluates_product time hamount hunit hgap (by omega)))
        (fun term hterm => hterms term (List.mem_cons_of_mem _ hterm)) hfits
      rw [expression_sum time hcases]
      cases d.negative with
      | false =>
          rw [if_neg Bool.false_ne_true, if_neg Bool.false_ne_true, one_mul]
          exact hsum
      | true =>
          -- a sum has its sign in front of parentheses
          rw [if_pos rfl, if_pos rfl, neg_one_mul]
          refine .summand (.factor (.negated (.group hsum) ?_ (fitsInt64_of_le hfits).2))
          rw [List.head?_cons]
          decide

/-- A text for which every product of a unit's factor and the digits of a fraction fits 64 bits is
    read exactly if it is a duration literal behind at most one sign that fits a signed 64-bit
    number of nanoseconds.  Then all amounts that are written are positive, and the expression that
    is written has the length of the literal. -/
theorem parse_exact (text : String)
    (hfits : ∀ p, Formed (splitSign (trim text.toList)).2 p → p < 2 ^ 64) :
    ((∃ d, parse text = .ok d)
        ↔ ∃ v, IsLiteral (trim text.toList) v ∧ v.natAbs ≤ 2 ^ 63 - 1)
      ∧ ∀ d, parse text = .ok d →
          (∀ term ∈ d.terms, 0 < term.amount)
            ∧ ∀ v, IsLiteral (trim text.toList) v → FitsInt64 v
              ∧ ∀ time : String, Evaluates time.toList .sum (d.expression time).toList v := by
  constructor
  · constructor
    · rintro ⟨d, hd⟩
      obtain ⟨hliteral, hmax, -⟩ := parse_sound hfits hd
      exact ⟨d.toNanos, hliteral, natAbs_toNanos.trans_le hmax⟩
    · rintro ⟨v, hliteral, hmax⟩
      exact parse_complete hliteral hmax
  · intro d hd
    obtain ⟨hliteral, hmax, hterms⟩ := parse_sound hfits hd
    refine ⟨fun term hterm => (hterms term hterm).1, ?_⟩
    intro v hv
    rw [hv.unique hliteral]
    exact ⟨fitsInt64_toNanos hmax, fun time => evaluates_expression time hterms hmax⟩

/-- A whole hour behind a sign, and two fractions that move to smaller units. -/
theorem parse_exact_of_fractions :
    (∀ p, Formed (splitSign (trim "-1h2.5s.25ms".toList)).2 p → p < 2 ^ 64)
      ∧ IsLiteral (trim "-1h2.5s.25ms".toList) (-3602500250000)
      ∧ ∃ d, parse "-1h2.5s.25ms" = .ok d ∧ (∀ term ∈ d.terms, 0 < term.amount)
        ∧ ∀ time : String,
            Evaluates time.toList .sum (d.expression time).toList (-3602500250000) := by
  have hlength : (splitSign (trim "-1h2.5s.25ms".toList)).2.length ≤ 16 := by
    decide
  have hfits : ∀ p, Formed (splitSign (trim "-1h2.5s.25ms".toList)).2 p → p < 2 ^ 64 :=
    fun p hp => hp.lt_of_length hlength
  have hhour : DecimalNumber ['1'] 1 :=
    decimalNumber_iff.mpr ⟨by decide, by decide, by decide, by decide +kernel⟩
  have hseconds : DecimalNumber ['2', '.', '5'] (5 / 2) :=
    decimalNumber_iff.mpr ⟨by decide, by decide, by decide, by decide +kernel⟩
  have hmillis : DecimalNumber ['.', '2', '5'] (1 / 4) :=
    decimalNumber_iff.mpr ⟨by decide, by decide, by decide, by decide +kernel⟩
  have hlast : Terms ".25ms".toList 250000 :=
    .cons hmillis (show ("ms", 1000000) ∈ suffixes by decide) (by norm_num) .nil
  have hfractions : Terms "2.5s.25ms".toList (2500000000 + 250000) :=
    .cons hseconds (show ("s", 1000000000) ∈ suffixes by decide) (by norm_num) hlast
  have hrow : Terms "1h2.5s.25ms".toList (3600000000000 + (2500000000 + 250000)) :=
    .cons hhour (show ("h", 3600000000000) ∈ suffixes by decide) (by norm_num) hfractions
  have hliteral : IsLiteral (trim "-1h2.5s.25ms".toList) (-3602500250000) :=
    .terms .minus (by decide) hrow
  obtain ⟨hread, hexact⟩ := parse_exact "-1h2.5s.25ms" hfits
  obtain ⟨d, hd⟩ := hread.mpr ⟨_, hliteral, by decide⟩
  obtain ⟨hpos, hvalue⟩ := hexact d hd
  exact ⟨hfits, hliteral, d, hd, hpos, (hvalue _ hliteral).2⟩

-- a product of more than 64 bits wraps around, and the text is read although it is no literal
example : (parse "0.2313843009213693952s").toOption.map (·.expression "time")
    = some "800 * time.Microsecond" := by
  decide +kernel

end Duration

end ServiceWiring
