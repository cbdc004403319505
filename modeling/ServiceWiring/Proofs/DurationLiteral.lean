import ServiceWiring.Proofs.DurationTerm

/-!
# Duration literals are read exactly

A literal is cut into numbers and units where the characters of a number begin and end, so it can
be read in one way only.

* `Duration.Terms`, `Duration.IsLiteral` — numbers with units in a row, and literals, with their
  lengths in nanoseconds;
* `Duration.terms_iff` — the first number and unit of a row, and what is behind them;
* `Duration.Formed` — the products that are formed while a row is read;
* `Duration.parse_sound`, `Duration.parse_complete` — what is read is as long as the literal, and
  every literal that fits is read.
-/

namespace ServiceWiring

open Text Number

namespace Duration

variable {number suffix rest cs : List Char} {q : ℚ} {n : ℕ}

/-! ## Numbers with units in a row -/

/-- Decimal numbers with units, each a whole number of nanoseconds, and their sum. -/
inductive Terms : List Char → ℕ → Prop where
  | nil : Terms [] 0
  | cons {number rest : List Char} {q : ℚ} {suffix : String} {nanos n m : ℕ}
      (hnumber : DecimalNumber number q) (hsuffix : (suffix, nanos) ∈ suffixes)
      (hwhole : q * nanos = n) (h : Terms rest m) :
      Terms (number ++ (suffix.toList ++ rest)) (n + m)

variable {m : ℕ} {all : List DurationTerm}

theorem DecimalNumber.ne_nil (h : DecimalNumber number q) : number ≠ [] := by
  cases h with
  | whole _ hne => exact hne
  | pointed _ _ _ => exact List.append_ne_nil_of_right_ne_nil _ (List.cons_ne_nil _ _)

theorem DecimalNumber.isNumberChar (h : DecimalNumber number q) :
    ∀ c ∈ number, isNumberChar c = true := by
  have hdigit : ∀ c : Char, c.isDigit = true → Duration.isNumberChar c = true := by
    intro c hc
    rw [Duration.isNumberChar, hc, Bool.true_or]
  intro c hc
  cases h with
  | whole h _ => exact hdigit c (h c hc)
  | pointed h h' _ =>
      rcases List.mem_append.mp hc with hc | hc
      · exact hdigit c (h c hc)
      · rcases List.mem_cons.mp hc with rfl | hc
        · rfl
        · exact hdigit c (h' c hc)

theorem suffix_chars : ∀ entry ∈ suffixes, entry.1.toList ≠ []
    ∧ ∀ c ∈ entry.1.toList, (!isNumberChar c) = true := by
  have hall : ∀ entry ∈ suffixes, entry.1.toList ≠ []
      ∧ entry.1.toList.all (!isNumberChar ·) = true := by
    decide
  intro entry hentry
  obtain ⟨hne, hchars⟩ := hall entry hentry
  exact ⟨hne, List.all_eq_true.mp hchars⟩

/-- No unit is empty, so something is behind the number in front of it. -/
theorem ne_nil_of_mem_suffixes {nanos : ℕ}
    (h : (String.ofList (rest.takeWhile (!isNumberChar ·)), nanos) ∈ suffixes) : rest ≠ [] := by
  rintro rfl
  exact (suffix_chars _ h).1 rfl

theorem Terms.head?_isNumberChar (h : Terms cs n) : ∀ c ∈ cs.head?, isNumberChar c = true := by
  intro c hc
  cases h with
  | nil => cases hc
  | cons hnumber _ _ _ =>
      rw [List.head?_append_of_ne_nil _ hnumber.ne_nil] at hc
      exact hnumber.isNumberChar c (List.mem_of_mem_head? hc)

/-- A row is cut where characters of a number change to other ones and back. -/
theorem terms_iff : Terms cs n ↔ cs = [] ∧ n = 0 ∨ ∃ (q : ℚ) (nanos k m : ℕ),
    DecimalNumber (cs.takeWhile isNumberChar) q
    ∧ (String.ofList ((cs.dropWhile isNumberChar).takeWhile (!isNumberChar ·)), nanos) ∈ suffixes
    ∧ q * nanos = (k : ℚ)
    ∧ Terms ((cs.dropWhile isNumberChar).dropWhile (!isNumberChar ·)) m ∧ n = k + m := by
  constructor
  · intro h
    cases h with
    | nil => exact .inl ⟨rfl, rfl⟩
    | cons hnumber hsuffix hwhole h =>
        rename_i number rest q suffix nanos n m
        obtain ⟨hne, hunit⟩ := suffix_chars _ hsuffix
        -- the number ends where the unit starts, and the unit where the next number does
        have hstop : (suffix.toList ++ rest).head?.all (!isNumberChar ·) = true := by
          obtain ⟨c, unit, hcons⟩ := List.exists_cons_of_ne_nil hne
          rw [hcons]
          exact hunit c (by rw [hcons]; exact List.mem_cons_self ..)
        have hnext : rest.head?.all (!(!isNumberChar ·) ·) = true := by
          cases rest with
          | nil => rfl
          | cons d rest =>
              show (!!isNumberChar d) = true
              rw [Bool.not_not]
              exact h.head?_isNumberChar d rfl
        have hdropped := dropWhile_run hnumber.isNumberChar hstop
        right
        refine ⟨q, nanos, n, m, ?_, ?_, hwhole, ?_, rfl⟩
        · rw [takeWhile_run hnumber.isNumberChar hstop]
          exact hnumber
        · rw [hdropped, takeWhile_run hunit hnext, String.ofList_toList]
          exact hsuffix
        · rw [hdropped, dropWhile_run hunit hnext]
          exact h
  · rintro (⟨rfl, rfl⟩ | ⟨q, nanos, k, m, hnumber, hsuffix, hwhole, h, rfl⟩)
    · exact .nil
    · have hrow := Terms.cons hnumber hsuffix hwhole h
      rw [String.toList_ofList, List.takeWhile_append_dropWhile,
        List.takeWhile_append_dropWhile] at hrow
      exact hrow

/-- One step of the reading. -/
theorem terms?_of_ne_nil (hne : cs ≠ []) : terms? cs = some all
    ↔ cs.dropWhile isNumberChar ≠ [] ∧ ∃ first more,
      term? (cs.takeWhile isNumberChar) ((cs.dropWhile isNumberChar).takeWhile (!isNumberChar ·))
        = some first
      ∧ terms? ((cs.dropWhile isNumberChar).dropWhile (!isNumberChar ·)) = some more
      ∧ all = first :: more := by
  rw [terms?, if_neg (by simpa using hne)]
  split
  · rename_i hcut
    rw [hcut]
    constructor
    · intro h
      cases h
    · intro h
      exact absurd rfl h.1
  · rename_i c rest hcut
    dsimp only
    rw [hcut]
    constructor
    · intro h
      obtain ⟨first, hfirst, h⟩ := Option.bind_eq_some_iff.mp h
      obtain ⟨more, hmore, h⟩ := Option.bind_eq_some_iff.mp h
      exact ⟨List.cons_ne_nil _ _, first, more, hfirst, hmore, (Option.some.inj h).symm⟩
    · rintro ⟨-, first, more, hfirst, hmore, rfl⟩
      exact Option.bind_eq_some_iff.mpr
        ⟨first, hfirst, Option.bind_eq_some_iff.mpr ⟨more, hmore, rfl⟩⟩

theorem terms?_nil : terms? [] = some [] := by
  rw [terms?]
  rfl

/-- What is behind the first number and its unit is shorter. -/
theorem length_behind_lt (hcut : cs.dropWhile isNumberChar ≠ []) :
    ((cs.dropWhile isNumberChar).dropWhile (!isNumberChar ·)).length < cs.length := by
  obtain ⟨c, rest, hcons⟩ := List.exists_cons_of_ne_nil hcut
  rw [hcons]
  exact length_unit_rest hcons

/-- The products of a factor and the digits of a fraction that are formed while a row is read:
    those of the first number, and when it has been read, those behind it. -/
inductive Formed : List Char → ℕ → Prop where
  | first {cs : List Char} {p : ℕ}
      (hp : p ∈ termProducts (cs.takeWhile isNumberChar)
        ((cs.dropWhile isNumberChar).takeWhile (!isNumberChar ·))) :
      Formed cs p
  | behind {cs : List Char} {p : ℕ} {term : DurationTerm}
      (hterm : term? (cs.takeWhile isNumberChar)
        ((cs.dropWhile isNumberChar).takeWhile (!isNumberChar ·)) = some term)
      (hp : Formed ((cs.dropWhile isNumberChar).dropWhile (!isNumberChar ·)) p) :
      Formed cs p

/-- A row of at most sixteen characters forms no product that leaves a word. -/
theorem Formed.lt_of_length {p : ℕ} (h : Formed cs p) (hlength : cs.length ≤ 16) :
    p < wordLimit := by
  induction h with
  | first hp =>
      exact termProducts_lt ((List.takeWhile_sublist _).length_le.trans hlength) _ hp
  | behind _ _ ih =>
      refine ih (le_trans ?_ hlength)
      exact ((List.dropWhile_sublist _).trans (List.dropWhile_sublist _)).length_le

/-- The terms that are read are as long as the row, and each is in a unit, when the products that
    are formed fit a word. -/
theorem terms?_sound (hfits : ∀ p, Formed cs p → p < wordLimit) (h : terms? cs = some all) :
    Terms cs (totalNanos all) ∧ ∀ term ∈ all, term.unit ∈ TimeUnit.all := by
  -- on the number of characters, as each term leaves a shorter text
  induction hlength : cs.length using Nat.strong_induction_on generalizing cs all with
  | _ length ih =>
      subst hlength
      by_cases hne : cs = []
      · subst hne
        rw [terms?_nil] at h
        rw [← Option.some.inj h]
        exact ⟨.nil, fun term hterm => nomatch hterm⟩
      · obtain ⟨hcut, first, more, hfirst, hmore, rfl⟩ := (terms?_of_ne_nil hne).mp h
        obtain ⟨q, nanos, hnumber, hsuffix, hexact, hunit⟩ :=
          term?_sound (fun p hp => hfits p (.first hp)) hfirst
        obtain ⟨hterms, hunits⟩ := ih _ (length_behind_lt hcut)
          (fun p hp => hfits p (.behind hfirst hp)) hmore rfl
        refine ⟨terms_iff.mpr (.inr ⟨q, nanos, _, _, hnumber, hsuffix, hexact, hterms, rfl⟩), ?_⟩
        intro term hterm
        rcases List.mem_cons.mp hterm with rfl | hterm
        · exact hunit
        · exact hunits term hterm

/-- A row is read when its sum fits a word. -/
theorem terms?_complete (h : Terms cs n) (hn : n < wordLimit) :
    ∃ all, terms? cs = some all ∧ totalNanos all = n := by
  induction hlength : cs.length using Nat.strong_induction_on generalizing cs n with
  | _ length ih =>
      subst hlength
      rcases terms_iff.mp h with ⟨rfl, rfl⟩ | ⟨q, nanos, k, m, hnumber, hsuffix, hwhole, hrest, rfl⟩
      · exact ⟨[], terms?_nil, rfl⟩
      · have hne : cs ≠ [] := by
          rintro rfl
          exact hnumber.ne_nil rfl
        have hcut : cs.dropWhile isNumberChar ≠ [] := ne_nil_of_mem_suffixes hsuffix
        obtain ⟨first, hfirst, hexact⟩ := term?_complete hnumber hsuffix hwhole
          (lt_of_le_of_lt (Nat.le_add_right k m) hn)
        obtain ⟨more, hmore, hsum⟩ := ih _ (length_behind_lt hcut) hrest
          (lt_of_le_of_lt (Nat.le_add_left m k) hn) rfl
        refine ⟨first :: more, (terms?_of_ne_nil hne).mpr
          ⟨hcut, first, more, hfirst, hmore, rfl⟩, ?_⟩
        show first.amount * first.unit.nanos + totalNanos more = k + m
        rw [hexact, hsum]

theorem nanos_unique {s : String} {nanos nanos' : ℕ} (h : (s, nanos) ∈ suffixes)
    (h' : (s, nanos') ∈ suffixes) : nanos = nanos' := by
  have hfunctional : ∀ entry ∈ suffixes, ∀ entry' ∈ suffixes,
      entry.1 = entry'.1 → entry.2 = entry'.2 := by
    decide
  exact hfunctional _ h _ h' rfl

/-- A row has one sum. -/
theorem Terms.unique (h : Terms cs n) (h' : Terms cs m) : n = m := by
  induction hlength : cs.length using Nat.strong_induction_on generalizing cs n m with
  | _ length ih =>
      subst hlength
      rcases terms_iff.mp h with ⟨rfl, rfl⟩ | ⟨q, nanos, k, n, hnumber, hsuffix, hwhole, hrest, rfl⟩
      · rcases terms_iff.mp h' with ⟨-, rfl⟩ | ⟨_, _, _, _, hnumber, _⟩
        · rfl
        · exact absurd rfl hnumber.ne_nil
      · have hcut : cs.dropWhile isNumberChar ≠ [] := ne_nil_of_mem_suffixes hsuffix
        rcases terms_iff.mp h' with
          ⟨rfl, -⟩ | ⟨q', nanos', k', m, hnumber', hsuffix', hwhole', hrest', rfl⟩
        · exact absurd rfl hcut
        · obtain ⟨-, -, -, rfl⟩ := decimalNumber_iff.mp hnumber
          obtain ⟨-, -, -, rfl⟩ := decimalNumber_iff.mp hnumber'
          have hk : k = k' := by
            rw [nanos_unique hsuffix hsuffix', hwhole'] at hwhole
            exact_mod_cast hwhole.symm
          rw [hk, ih _ (length_behind_lt hcut) hrest hrest' rfl]

/-! ## Literals -/

/-- A duration literal with its length in nanoseconds: behind at most one sign a single zero, or
    one or more numbers with units. -/
inductive IsLiteral : List Char → ℤ → Prop where
  | zero {sign : List Char} {s : ℤ} (hsign : Sign sign s) : IsLiteral (sign ++ ['0']) 0
  | terms {sign body : List Char} {s : ℤ} {n : ℕ} (hsign : Sign sign s) (hne : body ≠ [])
      (h : Terms body n) : IsLiteral (sign ++ body) (s * n)

/-- The length of a duration in nanoseconds. -/
def toNanos (d : Duration) : ℤ :=
  (if d.negative then -1 else 1) * totalNanos d.terms

variable {text : String} {body sign : List Char} {d : Duration} {negative : Bool}
  {s v w : ℤ}

theorem splitSign_append (hsign : Sign sign s) (hbody : ∀ c ∈ body.head?, isNumberChar c = true) :
    splitSign (sign ++ body) = (decide (s = -1), body) := by
  have hunsigned : splitSign body = (false, body) := by
    unfold splitSign
    split
    · exact absurd (hbody '-' rfl) (by decide)
    · exact absurd (hbody '+' rfl) (by decide)
    · rfl
  cases hsign with
  | none => exact hunsigned
  | plus => rfl
  | minus => rfl

theorem exists_sign (cs : List Char) : ∃ sign,
    Sign sign (if (splitSign cs).1 then -1 else 1) ∧ cs = sign ++ (splitSign cs).2 := by
  unfold splitSign
  split
  · exact ⟨['-'], .minus, rfl⟩
  · exact ⟨['+'], .plus, rfl⟩
  · exact ⟨[], .none, rfl⟩

theorem not_terms_zero : ¬ Terms ['0'] n := by
  intro h
  rcases terms_iff.mp h with ⟨hnil, -⟩ | ⟨q, nanos, k, m, -, hsuffix, -⟩
  · cases hnil
  · exact ne_nil_of_mem_suffixes hsuffix rfl

/-- A literal is read by what is left without its sign. -/
theorem isLiteral_iff : IsLiteral cs v ↔ (splitSign cs).2 = ['0'] ∧ v = 0
    ∨ (splitSign cs).2 ≠ [] ∧ ∃ n, Terms (splitSign cs).2 n
      ∧ v = (if (splitSign cs).1 then -1 else 1) * n := by
  constructor
  · intro h
    cases h with
    | zero hsign =>
        have hstart : ∀ c ∈ ['0'].head?, isNumberChar c = true := by
          rintro c ⟨rfl⟩
          rfl
        rw [splitSign_append hsign hstart]
        exact .inl ⟨rfl, rfl⟩
    | terms hsign hne h =>
        rw [splitSign_append hsign h.head?_isNumberChar]
        refine .inr ⟨hne, _, h, ?_⟩
        cases hsign <;> rfl
  · obtain ⟨sign, hsign, hcs⟩ := exists_sign cs
    rintro (⟨hzero, rfl⟩ | ⟨hne, n, h, rfl⟩)
    · rw [hzero] at hcs
      rw [hcs]
      exact .zero hsign
    · conv_lhs => rw [hcs]
      exact .terms hsign hne h

/-- A literal has one length. -/
theorem IsLiteral.unique (h : IsLiteral cs v) (h' : IsLiteral cs w) : v = w := by
  rcases isLiteral_iff.mp h with ⟨hzero, rfl⟩ | ⟨-, n, hrow, rfl⟩
  · rcases isLiteral_iff.mp h' with ⟨-, rfl⟩ | ⟨-, m, hrow', -⟩
    · rfl
    · rw [hzero] at hrow'
      exact absurd hrow' not_terms_zero
  · rcases isLiteral_iff.mp h' with ⟨hzero, -⟩ | ⟨-, m, hrow', rfl⟩
    · rw [hzero] at hrow
      exact absurd hrow not_terms_zero
    · rw [hrow.unique hrow']

/-- The terms that are left out have no length. -/
theorem totalNanos_filter (all : List DurationTerm) :
    totalNanos (all.filter fun term => 0 < term.amount) = totalNanos all := by
  induction all with
  | nil => rfl
  | cons term all ih =>
      show _ = term.amount * term.unit.nanos + totalNanos all
      rw [← ih, List.filter_cons]
      split
      · rfl
      · rename_i hzero
        have hamount : term.amount = 0 := by
          simpa using hzero
        rw [hamount, Nat.zero_mul, Nat.zero_add]

theorem parse_of_zero (hsplit : splitSign (trim text.toList) = (negative, ['0'])) :
    parse text = .ok ⟨false, []⟩ := by
  unfold parse
  rw [hsplit]
  rfl

/-- What is no single zero is read term by term. -/
theorem parse_eq_ok_iff (hsplit : splitSign (trim text.toList) = (negative, body))
    (hzero : body ≠ ['0']) :
    parse text = .ok d ↔ body ≠ [] ∧ ∃ all, terms? body = some all ∧ totalNanos all ≤ maxNanos
      ∧ d.terms = all.filter (fun term => 0 < term.amount)
      ∧ d.negative = (negative && !d.terms.isEmpty) := by
  unfold parse
  rw [hsplit]
  dsimp only
  rw [if_neg hzero]
  by_cases hne : body = []
  · subst hne
    constructor
    · intro h
      cases h
    · intro h
      exact absurd rfl h.1
  · rw [if_neg (by simpa using hne)]
    cases hterms : terms? body with
    | none =>
        constructor
        · intro h
          cases h
        · rintro ⟨-, all, hall, -⟩
          cases hall
    | some all =>
        -- the terms that are dropped are as long as nothing
        dsimp only
        rw [totalNanos_filter]
        constructor
        · intro h
          split at h
          · cases h
          · rename_i hmax
            rw [← Except.ok.inj h]
            exact ⟨hne, all, rfl, Nat.not_lt.mp hmax, rfl, rfl⟩
        · rintro ⟨-, all', hall, hmax, hd, hnegative⟩
          obtain rfl := Option.some.inj hall
          rw [if_neg (Nat.not_lt.mpr hmax), ← hd, ← hnegative]

/-- A duration that is read is as long as the literal, when the products that are formed for it fit
    a word.  Its terms are positive multiples of units, and it fits. -/
theorem parse_sound (hfits : ∀ p, Formed (splitSign (trim text.toList)).2 p → p < wordLimit)
    (h : parse text = .ok d) :
    IsLiteral (trim text.toList) d.toNanos ∧ totalNanos d.terms ≤ maxNanos
      ∧ ∀ term ∈ d.terms, 0 < term.amount ∧ term.unit ∈ TimeUnit.all := by
  rw [isLiteral_iff]
  obtain ⟨negative, body, hsplit⟩ : ∃ negative body,
      splitSign (trim text.toList) = (negative, body) := ⟨_, _, rfl⟩
  rw [hsplit] at hfits ⊢
  by_cases hzero : body = ['0']
  · subst hzero
    rw [parse_of_zero hsplit] at h
    rw [← Except.ok.inj h]
    exact ⟨.inl ⟨rfl, rfl⟩, Nat.zero_le _, fun term hterm => nomatch hterm⟩
  · obtain ⟨hne, all, hall, hmax, hterms, hnegative⟩ := (parse_eq_ok_iff hsplit hzero).mp h
    obtain ⟨hrow, hunits⟩ := terms?_sound hfits hall
    have htotal : totalNanos d.terms = totalNanos all := by
      rw [hterms, totalNanos_filter]
    refine ⟨.inr ⟨hne, _, hrow, ?_⟩, htotal.trans_le hmax, ?_⟩
    · -- a duration without terms loses its sign, but it is zero
      rw [toNanos, htotal, hnegative]
      cases hempty : d.terms with
      | nil =>
          rw [hempty] at htotal
          rw [← htotal]
          simp [totalNanos]
      | cons => simp
    · intro term hterm
      rw [hterms, List.mem_filter, decide_eq_true_eq] at hterm
      exact ⟨hterm.2, hunits term hterm.1⟩

/-- A literal that fits is read. -/
theorem parse_complete (h : IsLiteral (trim text.toList) v) (hv : v.natAbs ≤ maxNanos) :
    ∃ d, parse text = .ok d := by
  rw [isLiteral_iff] at h
  obtain ⟨negative, body, hsplit⟩ : ∃ negative body,
      splitSign (trim text.toList) = (negative, body) := ⟨_, _, rfl⟩
  rw [hsplit] at h
  by_cases hzero : body = ['0']
  · subst hzero
    exact ⟨_, parse_of_zero hsplit⟩
  · rcases h with ⟨hzero', -⟩ | ⟨hne, n, hrow, rfl⟩
    · exact absurd hzero' hzero
    · have hn : n ≤ maxNanos := by
        cases negative with
        | false => simpa using hv
        | true => simpa using hv
      obtain ⟨all, hall, hsum⟩ := terms?_complete hrow (hn.trans_lt (by decide))
      refine ⟨⟨negative && !(all.filter fun term => 0 < term.amount).isEmpty,
        all.filter fun term => 0 < term.amount⟩, (parse_eq_ok_iff hsplit hzero).mpr ?_⟩
      exact ⟨hne, all, hall, hsum.trans_le hn, rfl, rfl⟩

end Duration

end ServiceWiring
