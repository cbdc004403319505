import Mathlib
import ServiceWiring.Proofs.FloatDefault

/-!
# Defaults of integer fields

The default of an integer field is accepted exactly if it is an integer literal of Go behind at
most one sign, with a value that the type of the field holds.  It is written into Go code as it is,
without a plus sign, and denotes the same value there.

* `Number.digits_iff` — where underscores stand between digits;
* `Number.literalValue?_eq_some_iff` — the reader takes exactly the literals of Go;
* `Number.magnitude?_eq_some_iff` — and keeps those whose values a word of 128 bits holds;
* `Number.SignedInteger`, `Number.integerValue?_eq_some_iff` — the same behind a sign;
* `Number.IntegerRange`, `Number.IntegerRange.natAbs_lt` — the values that the integer types hold,
  and that no word is too small for them;
* `DefaultValue.integer_accepted_iff` — which defaults are accepted, and what they denote.
-/

namespace ServiceWiring

open Text

namespace Number

variable {base n : ℕ} {c : Char} {cs : List Char} {ds : List ℕ}

/-! ## Letters in lower case -/

theorem isUpper_iff_toNat : c.isUpper = true ↔ 65 ≤ c.toNat ∧ c.toNat ≤ 90 := by
  simp [Char.isUpper, UInt32.le_iff_toNat_le, ← Char.toNat_val]

theorem toNat_toLower_of_isUpper (h : c.isUpper = true) : c.toLower.toNat = c.toNat + 32 := by
  have hle := (isUpper_iff_toNat.mp h).2
  rw [Char.toLower_eq_of_isUpper h, Char.toNat_ofNat, if_pos (.inl (by omega))]

/-- Lower case tells characters below the letters from all others. -/
theorem toLower_eq_iff {d : Char} (hd : d.toNat < 65 ∨ d = '_') : c.toLower = d ↔ c = d := by
  have hd : d.toNat < 65 ∨ d.toNat = 95 := hd.imp_right fun h => by rw [h]; rfl
  rw [← Char.toNat_inj, ← Char.toNat_inj]
  by_cases h : c.isUpper = true
  · have hlower := toNat_toLower_of_isUpper h
    have hupper := isUpper_iff_toNat.mp h
    omega
  · rw [Char.toLower_eq_of_not_isUpper h]

theorem toLower_eq_underscore_iff : c.toLower = '_' ↔ c = '_' :=
  toLower_eq_iff (.inr rfl)

/-- Digits are read in lower case, whatever case they are written in. -/
theorem digitValue?_toLower (c : Char) : digitValue? c.toLower = digitOf c := by
  have hzero : '0'.toNat = 48 := rfl
  have hsmall : 'a'.toNat = 97 ∧ 'f'.toNat = 102 := ⟨rfl, rfl⟩
  have hlarge : 'A'.toNat = 65 ∧ 'F'.toNat = 70 := ⟨rfl, rfl⟩
  unfold digitValue? digitOf
  simp only [Char.isDigit_iff_toNat, Char.le_def, UInt32.le_iff_toNat_le, Char.toNat_val,
    Bool.and_eq_true, decide_eq_true_eq]
  by_cases h : c.isUpper = true
  · have hlower := toNat_toLower_of_isUpper h
    have hupper := isUpper_iff_toNat.mp h
    grind
  · rw [Char.toLower_eq_of_not_isUpper h]
    rw [isUpper_iff_toNat] at h
    grind

/-! ## Digits without underscores -/

/-- A character that is a digit of a base, with its value. -/
def IsDigitOf (base : ℕ) (c : Char) (d : ℕ) : Prop :=
  digitOf c = some d ∧ d < base

/-- Reading digits one after the other keeps the number that they stand for. -/
theorem foldlM_digits_iff (start : ℕ) :
    (cs.map Char.toLower).foldlM (fun n c => do
        let d ← digitValue? c
        if d < base then some (base * n + d) else none) start = some n
      ↔ ∃ ds, List.Forall₂ (IsDigitOf base) cs ds
          ∧ n = ds.foldl (fun n d => base * n + d) start := by
  induction cs generalizing start with
  | nil =>
      constructor
      · intro h
        exact ⟨[], .nil, (Option.some.inj h).symm⟩
      · rintro ⟨ds, hds, rfl⟩
        cases hds
        rfl
  | cons c cs ih =>
      rw [List.map_cons, List.foldlM_cons, digitValue?_toLower]
      constructor
      · intro h
        obtain ⟨next, hnext, h⟩ := Option.bind_eq_some_iff.mp h
        obtain ⟨d, hd, hnext⟩ := Option.bind_eq_some_iff.mp hnext
        obtain ⟨ds, hds, rfl⟩ := (ih next).mp h
        split at hnext
        · rename_i hlt
          rw [← Option.some.inj hnext]
          exact ⟨d :: ds, .cons ⟨hd, hlt⟩ hds, rfl⟩
        · cases hnext
      · rintro ⟨ds, hds, rfl⟩
        obtain ⟨d, more, ⟨hd, hlt⟩, hmore, rfl⟩ := List.forall₂_cons_left_iff.mp hds
        rw [hd]
        refine Option.bind_eq_some_iff.mpr ⟨base * start + d, ?_, (ih _).mpr ⟨more, hmore, rfl⟩⟩
        show (if d < base then _ else _) = _
        rw [if_pos hlt]

theorem digitsValue?_eq_some_iff :
    digitsValue? base (cs.map Char.toLower) = some n
      ↔ cs ≠ [] ∧ ∃ ds, List.Forall₂ (IsDigitOf base) cs ds ∧ n = positional base ds := by
  simp only [positional_eq_foldl]
  unfold digitsValue?
  by_cases h : cs = []
  · subst h
    simp
  · have hempty : (cs.map Char.toLower).isEmpty = false := by
      simpa using h
    rw [hempty, if_neg Bool.false_ne_true, foldlM_digits_iff]
    exact ⟨fun hds => ⟨h, hds⟩, fun hds => hds.2⟩

/-! ## Underscores -/

theorem digitOf_underscore : digitOf '_' = none := by
  rfl

theorem IsDigitOf.ne_underscore {d : ℕ} (h : IsDigitOf base c d) : c ≠ '_' := by
  rintro rfl
  have hdigit := h.1
  rw [digitOf_underscore] at hdigit
  cases hdigit

theorem hasDoubleUnderscore_cons (h : c ≠ '_' ∨ cs.head? ≠ some '_') :
    hasDoubleUnderscore (c :: cs) = hasDoubleUnderscore cs := by
  rw [hasDoubleUnderscore]
  rintro rest rfl rfl
  exact h.elim (absurd rfl) (absurd rfl)

/-- Underscores stand one by one and each in front of a digit. -/
structure Separated (cs : List Char) : Prop where
  last : cs.getLast? ≠ some '_'
  single : hasDoubleUnderscore cs = false

theorem Separated.cons (hc : c ≠ '_') (h : Separated cs) : Separated (c :: cs) := by
  refine ⟨?_, ?_⟩
  · rw [List.getLast?_cons]
    intro hlast
    cases hcs : cs.getLast? with
    | none =>
        rw [hcs] at hlast
        exact hc (Option.some.inj hlast)
    | some d =>
        rw [hcs] at hlast
        exact h.last (hcs.trans hlast)
  · rw [hasDoubleUnderscore_cons (.inl hc)]
    exact h.single

theorem Separated.tail (h : Separated (c :: cs)) : Separated cs := by
  refine ⟨?_, ?_⟩
  · intro hlast
    refine h.last ?_
    rw [List.getLast?_cons, hlast]
    rfl
  · cases hcs : cs with
    | nil => rfl
    | cons d rest =>
        have hsingle := h.single
        rw [hcs] at hsingle
        by_cases hboth : c = '_' ∧ d = '_'
        · obtain ⟨rfl, rfl⟩ := hboth
          cases hsingle
        · rw [hasDoubleUnderscore_cons] at hsingle
          · exact hsingle
          · rw [← not_and_or]
            rintro ⟨rfl, hd⟩
            exact hboth ⟨rfl, Option.some.inj hd⟩

/-- An underscore stands in front of a digit exactly if the text goes on with something else. -/
theorem separated_underscore_iff :
    Separated ('_' :: cs) ↔ Separated cs ∧ cs ≠ [] ∧ cs.head? ≠ some '_' := by
  constructor
  · intro h
    refine ⟨h.tail, ?_, ?_⟩
    · rintro rfl
      exact h.last rfl
    · intro hhead
      obtain ⟨rest, rfl⟩ := List.head?_eq_some_iff.mp hhead
      exact absurd h.single (by simp [hasDoubleUnderscore])
  · rintro ⟨h, hne, hhead⟩
    refine ⟨?_, ?_⟩
    · rw [List.getLast?_cons_of_ne_nil hne]
      exact h.last
    · rw [hasDoubleUnderscore_cons (.inr hhead)]
      exact h.single

theorem Digits.exists_cons (h : Digits base cs ds) :
    ∃ c d rest, cs = c :: rest ∧ IsDigitOf base c d := by
  cases h with
  | single hc hd => exact ⟨_, _, _, rfl, hc, hd⟩
  | cons hc hd _ => exact ⟨_, _, _, rfl, hc, hd⟩
  | separated hc hd _ => exact ⟨_, _, _, rfl, hc, hd⟩

/-- A text of digits is one that starts with a digit, in which underscores are separated, and which
    has nothing but digits in it besides them. -/
theorem digits_iff :
    Digits base cs ds ↔ cs ≠ [] ∧ cs.head? ≠ some '_' ∧ Separated cs
      ∧ List.Forall₂ (IsDigitOf base) (cs.filter (· != '_')) ds := by
  constructor
  · intro h
    induction h with
    | single hc hd =>
        have hne := IsDigitOf.ne_underscore ⟨hc, hd⟩
        refine ⟨List.cons_ne_nil _ _, by simpa using hne, .cons hne ⟨nofun, rfl⟩, ?_⟩
        rw [List.filter_cons_of_pos (by simpa using hne)]
        exact .cons ⟨hc, hd⟩ .nil
    | cons hc hd _ ih =>
        obtain ⟨-, -, hseparated, hds⟩ := ih
        have hne := IsDigitOf.ne_underscore ⟨hc, hd⟩
        refine ⟨List.cons_ne_nil _ _, by simpa using hne, hseparated.cons hne, ?_⟩
        rw [List.filter_cons_of_pos (by simpa using hne)]
        exact .cons ⟨hc, hd⟩ hds
    | separated hc hd _ ih =>
        obtain ⟨hcs, hhead, hseparated, hds⟩ := ih
        have hne := IsDigitOf.ne_underscore ⟨hc, hd⟩
        refine ⟨List.cons_ne_nil _ _, by simpa using hne,
          (separated_underscore_iff.mpr ⟨hseparated, hcs, hhead⟩).cons hne, ?_⟩
        rw [List.filter_cons_of_pos (by simpa using hne), List.filter_cons_of_neg (by simp)]
        exact .cons ⟨hc, hd⟩ hds
  · -- by the length of the text, because a step takes one character or two
    induction hlength : cs.length using Nat.strong_induction_on generalizing cs ds with
    | _ length ih =>
        rintro ⟨hne, hhead, hseparated, hds⟩
        cases cs with
        | nil => exact absurd rfl hne
        | cons c cs =>
            have hc : c ≠ '_' := by simpa using hhead
            rw [List.filter_cons_of_pos (by simpa using hc)] at hds
            obtain ⟨d, more, ⟨hdigit, hlt⟩, hmore, rfl⟩ := List.forall₂_cons_left_iff.mp hds
            rw [List.length_cons] at hlength
            cases cs with
            | nil =>
                cases hmore
                exact .single hdigit hlt
            | cons next rest =>
                rw [List.length_cons] at hlength
                by_cases hnext : next = '_'
                · subst hnext
                  obtain ⟨htail, hrest, hfirst⟩ := separated_underscore_iff.mp hseparated.tail
                  rw [List.filter_cons_of_neg (by simp)] at hmore
                  exact .separated hdigit hlt
                    (ih rest.length (by omega) rfl ⟨hrest, hfirst, htail, hmore⟩)
                · exact .cons hdigit hlt (ih (rest.length + 1) (by omega) rfl
                    ⟨List.cons_ne_nil _ _, by simpa using hnext, hseparated.tail, hmore⟩)

/-! ## Literals without a sign -/

/-- The value of digits of a base, written in any case and with underscores between them. -/
def digitsIn? (base : ℕ) (cs : List Char) : Option ℕ :=
  if underscoresFit base (cs.map Char.toLower) then
    digitsValue? base ((cs.map Char.toLower).filter (· != '_'))
  else none

theorem hasDoubleUnderscore_map (cs : List Char) :
    hasDoubleUnderscore (cs.map Char.toLower) = hasDoubleUnderscore cs := by
  induction cs with
  | nil => rfl
  | cons c cs ih =>
      by_cases hc : c = '_' ∧ cs.head? = some '_'
      · obtain ⟨rfl, hhead⟩ := hc
        obtain ⟨rest, rfl⟩ := List.head?_eq_some_iff.mp hhead
        rfl
      · rw [not_and_or] at hc
        rw [hasDoubleUnderscore_cons hc, List.map_cons, hasDoubleUnderscore_cons, ih]
        refine hc.imp (mt toLower_eq_underscore_iff.mp) (mt fun hhead => ?_)
        rw [List.head?_map] at hhead
        obtain ⟨d, hd, heq⟩ := Option.map_eq_some_iff.mp hhead
        rw [hd, toLower_eq_underscore_iff.mp heq]

theorem underscoresFit_iff :
    underscoresFit base (cs.map Char.toLower) = true
      ↔ Separated cs ∧ (base = 10 → cs.head? ≠ some '_') := by
  have hsome : ∀ first : Option Char, first.map Char.toLower = some '_' ↔ first = some '_' := by
    intro first
    cases first with
    | none => simp
    | some d => simp [toLower_eq_underscore_iff]
  simp only [underscoresFit, hasDoubleUnderscore_map, List.getLast?_map, List.head?_map,
    Bool.and_eq_true, Bool.not_eq_true', bne_iff_ne, ne_eq, hsome, Bool.and_eq_false_iff,
    beq_eq_false_iff_ne]
  constructor
  · rintro ⟨⟨hlast, hsingle⟩, hhead⟩
    exact ⟨⟨hlast, hsingle⟩, fun hbase => hhead.resolve_left fun hne => hne hbase⟩
  · rintro ⟨⟨hlast, hsingle⟩, hhead⟩
    exact ⟨⟨hlast, hsingle⟩, Classical.or_iff_not_imp_left.mpr fun h => hhead (not_not.mp h)⟩

theorem filter_map_toLower (cs : List Char) :
    (cs.map Char.toLower).filter (· != '_') = (cs.filter (· != '_')).map Char.toLower := by
  rw [List.filter_map]
  congr 2
  ext c
  show (!(c.toLower == '_')) = !(c == '_')
  rw [Bool.eq_iff_iff]
  simp [toLower_eq_underscore_iff]

theorem digitsIn?_eq_some_iff :
    digitsIn? base cs = some n ↔ ∃ separator text ds, IsSeparator separator
      ∧ (base = 10 → separator = []) ∧ Digits base text ds ∧ cs = separator ++ text
      ∧ n = positional base ds := by
  have hvalue : digitsIn? base cs = some n ↔ Separated cs ∧ (base = 10 → cs.head? ≠ some '_')
      ∧ cs.filter (· != '_') ≠ []
      ∧ ∃ ds, List.Forall₂ (IsDigitOf base) (cs.filter (· != '_')) ds
        ∧ n = positional base ds := by
    unfold digitsIn?
    rw [filter_map_toLower, ← and_assoc, ← underscoresFit_iff, ← digitsValue?_eq_some_iff]
    by_cases h : underscoresFit base (cs.map Char.toLower) = true
    · simp [h]
    · simp [h]
  rw [hvalue]
  constructor
  · rintro ⟨hseparated, hhead, hne, ds, hds, rfl⟩
    by_cases hfirst : cs.head? = some '_'
    · -- the underscore stands between the prefix and the digits
      obtain ⟨text, rfl⟩ := List.head?_eq_some_iff.mp hfirst
      obtain ⟨htext, hne', hnext⟩ := separated_underscore_iff.mp hseparated
      rw [List.filter_cons_of_neg (by simp)] at hds
      exact ⟨['_'], text, ds, .inr rfl, fun hbase => absurd hfirst (hhead hbase),
        digits_iff.mpr ⟨hne', hnext, htext, hds⟩, rfl, rfl⟩
    · have hcs : cs ≠ [] := by
        rintro rfl
        exact hne rfl
      exact ⟨[], cs, ds, .inl rfl, fun _ => rfl,
        digits_iff.mpr ⟨hcs, hfirst, hseparated, hds⟩, rfl, rfl⟩
  · rintro ⟨separator, text, ds, hseparator, hdecimal, hdigits, rfl, rfl⟩
    obtain ⟨hne, hnext, htext, hds⟩ := digits_iff.mp hdigits
    have hfilter : text.filter (· != '_') ≠ [] := by
      intro hempty
      rw [hempty] at hds
      cases hds
      cases hdigits
    rcases hseparator with rfl | rfl
    · exact ⟨htext, fun _ => hnext, hfilter, ds, hds, rfl⟩
    · have hkept : (['_'] ++ text).filter (· != '_') = text.filter (· != '_') :=
        List.filter_cons_of_neg (by simp)
      rw [hkept]
      exact ⟨separated_underscore_iff.mpr ⟨htext, hne, hnext⟩,
        fun hbase => absurd (hdecimal hbase) (List.cons_ne_nil _ _), hfilter, ds, hds, rfl⟩

/-! ### The forms of a literal -/

theorem literalValue?_lettered {letter : Char} (h : (letter, base) ∈ baseLetters) (cs : List Char) :
    literalValue? ('0' :: letter :: cs) = digitsIn? base cs := by
  have hsplit : splitBase (('0' :: letter :: cs).map Char.toLower)
      = (base, cs.map Char.toLower) := by
    simp only [baseLetters, List.mem_cons, List.not_mem_nil, or_false, Prod.mk.injEq] at h
    rcases h with ⟨rfl, rfl⟩ | ⟨rfl, rfl⟩ | ⟨rfl, rfl⟩ | ⟨rfl, rfl⟩ | ⟨rfl, rfl⟩ | ⟨rfl, rfl⟩
    all_goals rfl
  rw [literalValue?, hsplit]
  rfl

/-- A character in lower case is a letter of a base exactly if the character is. -/
theorem toLower_ne_baseLetter (h : ∀ base, (c, base) ∉ baseLetters) :
    c.toLower ≠ 'x' ∧ c.toLower ≠ 'o' ∧ c.toLower ≠ 'b' := by
  have hother : ∀ small large base, (small, base) ∈ baseLetters → (large, base) ∈ baseLetters →
      small.toNat = large.toNat + 32 → c.toLower ≠ small := by
    intro small large base hsmall hlarge hcase heq
    by_cases hupper : c.isUpper = true
    · have hlower := toNat_toLower_of_isUpper hupper
      rw [heq, hcase] at hlower
      obtain rfl : c = large := Char.toNat_inj.mp (Nat.add_right_cancel hlower.symm)
      exact h base hlarge
    · rw [Char.toLower_eq_of_not_isUpper hupper] at heq
      rw [heq] at h
      exact h base hsmall
  exact ⟨hother 'x' 'X' 16 (by decide) (by decide) rfl,
    hother 'o' 'O' 8 (by decide) (by decide) rfl, hother 'b' 'B' 2 (by decide) (by decide) rfl⟩

theorem literalValue?_octal (h : ∀ base, (c, base) ∉ baseLetters) (cs : List Char) :
    literalValue? ('0' :: c :: cs) = digitsIn? 8 (c :: cs) := by
  obtain ⟨hx, ho, hb⟩ := toLower_ne_baseLetter h
  have hsplit : splitBase (('0' :: c :: cs).map Char.toLower)
      = (8, (c :: cs).map Char.toLower) := by
    show splitBase ('0' :: c.toLower :: cs.map Char.toLower) = _
    rw [splitBase]
    · rfl
    · exact hx
    · exact ho
    · exact hb
  rw [literalValue?, hsplit]
  rfl

theorem literalValue?_decimal (h : cs.head? ≠ some '0' ∨ cs = ['0']) :
    literalValue? cs = digitsIn? 10 cs := by
  have hsplit : splitBase (cs.map Char.toLower) = (10, cs.map Char.toLower) := by
    rcases h with h | rfl
    · cases cs with
      | nil => rfl
      | cons c cs =>
          have hc : c.toLower ≠ '0' := by
            rw [Ne, toLower_eq_iff (.inl (by decide))]
            simpa using h
          simp [splitBase, hc]
    · rfl
  rw [literalValue?, hsplit]
  rfl

theorem not_mem_baseLetters {d : ℕ} (h : c = '_' ∨ IsDigitOf 8 c d) (base : ℕ) :
    (c, base) ∉ baseLetters := by
  have hletters : ∀ entry ∈ baseLetters, entry.1 ≠ '_' ∧ ∀ d ∈ digitOf entry.1, 8 ≤ d := by
    decide
  intro hmem
  obtain ⟨hne, hlarge⟩ := hletters _ hmem
  rcases h with rfl | ⟨hdigit, hlt⟩
  · exact hne rfl
  · exact Nat.not_le.mpr hlt (hlarge d hdigit)

/-- The reader takes exactly the integer literals, and gives their values. -/
theorem literalValue?_eq_some_iff : literalValue? cs = some n ↔ IntegerLiteral cs n := by
  constructor
  · intro h
    by_cases hfirst : cs.head? = some '0'
    · obtain ⟨rest, rfl⟩ := List.head?_eq_some_iff.mp hfirst
      cases rest with
      | nil =>
          obtain rfl : 0 = n := Option.some.inj h
          exact .zero
      | cons c rest =>
          by_cases hletter : ∃ base, (c, base) ∈ baseLetters
          · obtain ⟨base, hletter⟩ := hletter
            rw [literalValue?_lettered hletter] at h
            obtain ⟨separator, text, ds, hseparator, -, hdigits, rfl, rfl⟩ :=
              digitsIn?_eq_some_iff.mp h
            exact .lettered hletter hseparator hdigits
          · rw [literalValue?_octal (not_exists.mp hletter)] at h
            obtain ⟨separator, text, ds, hseparator, -, hdigits, hrest, rfl⟩ :=
              digitsIn?_eq_some_iff.mp h
            rw [hrest]
            exact .octal hseparator hdigits
    · rw [literalValue?_decimal (.inl hfirst)] at h
      obtain ⟨separator, text, ds, -, hnone, hdigits, rfl, rfl⟩ := digitsIn?_eq_some_iff.mp h
      obtain rfl := hnone rfl
      exact .decimal hfirst hdigits
  · intro h
    cases h with
    | zero => rfl
    | decimal hfirst hdigits =>
        rw [literalValue?_decimal (.inl hfirst)]
        exact digitsIn?_eq_some_iff.mpr
          ⟨[], cs, _, .inl rfl, fun _ => rfl, hdigits, rfl, rfl⟩
    | @octal separator text ds hseparator hdigits =>
        have hread : digitsIn? 8 (separator ++ text) = some (positional 8 ds) :=
          digitsIn?_eq_some_iff.mpr
            ⟨separator, text, ds, hseparator, nofun, hdigits, rfl, rfl⟩
        -- what stands behind the zero is an underscore or a digit, and no letter of a base
        rcases hseparator with rfl | rfl
        · obtain ⟨c, d, rest, rfl, hdigit⟩ := hdigits.exists_cons
          exact (literalValue?_octal (not_mem_baseLetters (.inr hdigit)) rest).trans hread
        · exact (literalValue?_octal (not_mem_baseLetters (d := 0) (.inl rfl)) _).trans hread
    | lettered hletter hseparator hdigits =>
        rw [literalValue?_lettered hletter]
        refine digitsIn?_eq_some_iff.mpr ⟨_, _, _, hseparator, ?_, hdigits, rfl, rfl⟩
        rintro rfl
        exact absurd hletter (by simp [baseLetters])

/-! ### Words of 128 bits -/

theorem toWord?_eq_some_iff {m : ℕ} : toWord? m = some n ↔ m = n ∧ m < 2 ^ 127 := by
  have hunsigned : Nat.pow 2 128 = 2 ^ 128 := rfl
  have hsigned : Nat.pow 2 127 = 2 ^ 127 := rfl
  rw [toWord?, hunsigned, hsigned]
  constructor
  · intro h
    split at h
    · cases h
    · split at h
      · cases h
      · exact ⟨Option.some.inj h, by omega⟩
  · rintro ⟨rfl, h⟩
    rw [if_neg (by omega), if_neg (by omega)]

/-- Only a literal whose value is too large for a word is passed over. -/
theorem magnitude?_eq_some_iff :
    magnitude? cs = some n ↔ IntegerLiteral cs n ∧ n < 2 ^ 127 := by
  rw [magnitude?, Option.bind_eq_some_iff]
  constructor
  · rintro ⟨m, hm, hword⟩
    obtain ⟨rfl, hlt⟩ := toWord?_eq_some_iff.mp hword
    exact ⟨literalValue?_eq_some_iff.mp hm, hlt⟩
  · rintro ⟨hliteral, hlt⟩
    exact ⟨n, literalValue?_eq_some_iff.mpr hliteral, toWord?_eq_some_iff.mpr ⟨rfl, hlt⟩⟩

/-! ## Literals behind a sign -/

/-- An integer literal behind at most one sign, with the value that both have together. -/
def SignedInteger (text : List Char) (v : ℤ) : Prop :=
  ∃ sign s unsigned n, Sign sign s ∧ IntegerLiteral unsigned n ∧ text = sign ++ unsigned
    ∧ v = s * n

theorem IntegerLiteral.starts (h : IntegerLiteral cs n) : StartsAsNumber cs :=
  (Literal.integer h).starts

theorem integerValue?_unsigned (hsign : ∀ c ∈ ['+', '-'], ∀ rest, cs ≠ c :: rest) :
    integerValue? cs = (magnitude? cs).map fun n : ℕ => (n : ℤ) := by
  rw [integerValue?]
  · cases magnitude? cs <;> rfl
  · exact hsign '-' (by decide)
  · exact hsign '+' (by decide)

theorem integerValue?_plus (cs : List Char) :
    integerValue? ('+' :: cs) = (magnitude? cs).map fun n : ℕ => (n : ℤ) := by
  rw [integerValue?]
  cases magnitude? cs <;> rfl

theorem integerValue?_minus (cs : List Char) :
    integerValue? ('-' :: cs) = (magnitude? cs).map fun n : ℕ => -(n : ℤ) := by
  rw [integerValue?]
  cases magnitude? cs <;> rfl

theorem integerValue?_eq_some_iff {v : ℤ} :
    integerValue? cs = some v ↔ SignedInteger cs v ∧ v.natAbs < 2 ^ 127 := by
  constructor
  · intro h
    by_cases hsign : ∀ c ∈ ['+', '-'], ∀ rest, cs ≠ c :: rest
    · -- no sign in front
      rw [integerValue?_unsigned hsign] at h
      obtain ⟨n, hn, rfl⟩ := Option.map_eq_some_iff.mp h
      obtain ⟨hliteral, hword⟩ := magnitude?_eq_some_iff.mp hn
      exact ⟨⟨[], 1, cs, n, .none, hliteral, rfl, by omega⟩, by omega⟩
    · push Not at hsign
      obtain ⟨c, hc, rest, rfl⟩ := hsign
      rcases List.mem_pair.mp hc with rfl | rfl
      · rw [integerValue?_plus] at h
        obtain ⟨n, hn, rfl⟩ := Option.map_eq_some_iff.mp h
        obtain ⟨hliteral, hword⟩ := magnitude?_eq_some_iff.mp hn
        exact ⟨⟨['+'], 1, rest, n, .plus, hliteral, rfl, by omega⟩, by omega⟩
      · rw [integerValue?_minus] at h
        obtain ⟨n, hn, rfl⟩ := Option.map_eq_some_iff.mp h
        obtain ⟨hliteral, hword⟩ := magnitude?_eq_some_iff.mp hn
        exact ⟨⟨['-'], -1, rest, n, .minus, hliteral, rfl, by omega⟩, by omega⟩
  · rintro ⟨⟨sign, s, unsigned, n, hsign, hliteral, rfl, rfl⟩, hword⟩
    have hsize : n < 2 ^ 127 := by
      cases hsign <;> omega
    have hread := magnitude?_eq_some_iff.mpr ⟨hliteral, hsize⟩
    cases hsign with
    | none =>
        rw [List.nil_append, integerValue?_unsigned fun c hc => hliteral.starts.ne_sign hc, hread,
          one_mul]
        rfl
    | plus =>
        rw [List.singleton_append, integerValue?_plus, hread, one_mul]
        rfl
    | minus =>
        rw [List.singleton_append, integerValue?_minus, hread, neg_one_mul]
        rfl

/-- A text without a plus sign in front of it. -/
def withoutPlus : List Char → List Char
  | '+' :: cs => cs
  | cs => cs

theorem withoutPlus_unsigned (h : StartsAsNumber cs) : withoutPlus cs = cs := by
  rw [withoutPlus]
  intro rest
  exact h.ne_sign (by decide) rest

/-- There is one plus sign to drop at most. -/
theorem SignedInteger.dropPlus {v : ℤ} (h : SignedInteger cs v) :
    trimStartWhere (· == '+') cs = withoutPlus cs := by
  obtain ⟨sign, s, unsigned, n, hsign, hliteral, rfl, -⟩ := h
  have hunsigned := dropPlus_unsigned hliteral.starts
  cases hsign with
  | none => exact hunsigned.trans (withoutPlus_unsigned hliteral.starts).symm
  | plus => exact hunsigned
  | minus => rfl

/-- A literal without its plus sign denotes the same value. -/
theorem SignedInteger.denotes {v : ℤ} (h : SignedInteger cs v) : Denotes (withoutPlus cs) v := by
  obtain ⟨sign, s, unsigned, n, hsign, hliteral, rfl, rfl⟩ := h
  cases hsign with
  | none =>
      rw [List.nil_append, withoutPlus_unsigned hliteral.starts]
      simpa using Denotes.plain (.integer hliteral)
  | plus =>
      show Denotes unsigned _
      simpa using Denotes.plain (.integer hliteral)
  | minus =>
      show Denotes ('-' :: unsigned) _
      simpa using Denotes.negated (.integer hliteral)

/-! ## Ranges -/

/-- The integer types by their bits, zero for a type without a size, and their widths. -/
def integerWidths : List (ℕ × ℕ) :=
  [(0, 64), (8, 8), (16, 16), (32, 32), (64, 64)]

/-- The kinds of integers, with the least value that the type holds and the first one above it. -/
inductive IntegerRange : ScalarKind → ℤ → ℤ → Prop where
  | signed {bits width : ℕ} (h : (bits, width) ∈ integerWidths) :
      IntegerRange (.int bits) (-2 ^ (width - 1)) (2 ^ (width - 1))
  | unsigned {bits width : ℕ} (h : (bits, width) ∈ integerWidths) :
      IntegerRange (.uint bits) 0 (2 ^ width)

theorem widthOf_of_mem {bits width : ℕ} (h : (bits, width) ∈ integerWidths) :
    widthOf bits = width := by
  have hwidths : ∀ entry ∈ integerWidths, widthOf entry.1 = entry.2 := by
    decide
  exact hwidths _ h

/-- What an integer type holds is far smaller than a word of 128 bits. -/
theorem IntegerRange.natAbs_lt {kind : ScalarKind} {low limit v : ℤ}
    (h : IntegerRange kind low limit) (hlow : low ≤ v) (hlimit : v < limit) :
    v.natAbs < 2 ^ 127 := by
  have hwidths : ∀ entry ∈ integerWidths, entry.2 ≤ 64 := by
    decide
  have hbase : (1 : ℤ) ≤ 2 := by
    decide
  cases h with
  | @signed bits width hmem =>
      have hwidth : width ≤ 64 := hwidths _ hmem
      have hpow := pow_le_pow_right₀ hbase ((Nat.sub_le width 1).trans hwidth)
      omega
  | @unsigned bits width hmem =>
      have hwidth : width ≤ 64 := hwidths _ hmem
      have hpow := pow_le_pow_right₀ hbase hwidth
      omega

end Number

namespace DefaultValue

open Number

variable {kind : ScalarKind} {low limit : ℤ}

theorem isLiteralOf_iff (hkind : IntegerRange kind low limit) (text : List Char) :
    isLiteralOf text kind = true ↔ ∃ v, SignedInteger text v ∧ low ≤ v ∧ v < limit := by
  have hread : isLiteralOf text kind = true
      ↔ ∃ v, integerValue? text = some v ∧ low ≤ v ∧ v < limit := by
    cases hkind with
    | signed h => simp [isLiteralOf, Option.any_eq_true, fitsSigned, widthOf_of_mem h]
    | unsigned h => simp [isLiteralOf, Option.any_eq_true, fitsUnsigned, widthOf_of_mem h]
  rw [hread]
  refine exists_congr fun v => ?_
  rw [integerValue?_eq_some_iff]
  constructor
  · rintro ⟨⟨hliteral, -⟩, hrange⟩
    exact ⟨hliteral, hrange⟩
  · rintro ⟨hliteral, hlow, hlimit⟩
    exact ⟨⟨hliteral, hkind.natAbs_lt hlow hlimit⟩, hlow, hlimit⟩

/-- The default of an integer that is accepted is the text as it is, without a plus sign. -/
theorem ofScalar_integer (hkind : IntegerRange kind low limit) (value : Argument) :
    ofScalar kind value =
      if isLiteralOf (trim value.text.toList) kind then
        .ok (.expression (String.ofList (trimStartWhere (· == '+') (trim value.text.toList))))
      else .error (.invalid (String.ofList (trim value.text.toList)) kind) := by
  cases hkind <;> rfl

/-- The default of an integer field is accepted exactly if it is a literal of Go behind at most one
    sign whose value the type of the field holds.  The expression that is written for it is the
    text without a plus sign, and denotes that value. -/
theorem integer_accepted_iff (hkind : IntegerRange kind low limit) (value : Argument) :
    ((∃ d, ofScalar kind value = .ok d)
        ↔ ∃ v, SignedInteger (trim value.text.toList) v ∧ low ≤ v ∧ v < limit)
      ∧ ∀ d, ofScalar kind value = .ok d → ∀ imports : ResolvedImports,
          (d.render imports).toList = withoutPlus (trim value.text.toList)
            ∧ ∀ v, SignedInteger (trim value.text.toList) v →
                Denotes (d.render imports).toList v := by
  rw [ofScalar_integer hkind, ← isLiteralOf_iff hkind]
  by_cases haccepted : isLiteralOf (trim value.text.toList) kind = true
  · obtain ⟨v, hliteral, -⟩ := (isLiteralOf_iff hkind _).mp haccepted
    rw [if_pos haccepted]
    refine ⟨⟨fun _ => haccepted, fun _ => ⟨_, rfl⟩⟩, ?_⟩
    intro d hd imports
    have htext : (d.render imports).toList = withoutPlus (trim value.text.toList) := by
      rw [← Except.ok.inj hd, render, String.toList_ofList, hliteral.dropPlus]
    refine ⟨htext, ?_⟩
    intro w hw
    rw [htext]
    exact hw.denotes
  · rw [if_neg haccepted]
    refine ⟨⟨?_, fun h => absurd h haccepted⟩, ?_⟩
    · rintro ⟨d, hd⟩
      cases hd
    · intro d hd
      cases hd

/-- The least value of a signed byte, with a base and underscores. -/
def lowestDefault : Argument :=
  ⟨.bare, "-0b_1000_0000 "⟩

theorem signedInteger_lowestDefault : SignedInteger (trim lowestDefault.text.toList) (-128) :=
  (integerValue?_eq_some_iff.mp (by decide)).1

/-- It is accepted as it is, without the blank behind it. -/
theorem integer_accepted_lowest :
    IntegerRange (.int 8) (-2 ^ 7) (2 ^ 7)
      ∧ SignedInteger (trim lowestDefault.text.toList) (-128)
      ∧ ofScalar (.int 8) lowestDefault = .ok (.expression "-0b_1000_0000")
      ∧ Denotes "-0b_1000_0000".toList (-128) := by
  have hkind : IntegerRange (.int 8) (-2 ^ 7) (2 ^ 7) :=
    @IntegerRange.signed 8 8 (by decide)
  obtain ⟨haccepted, hdenotes⟩ := integer_accepted_iff hkind lowestDefault
  obtain ⟨d, hd⟩ :=
    haccepted.mpr ⟨-128, signedInteger_lowestDefault, by norm_num, by norm_num⟩
  have hwritten : ofScalar (.int 8) lowestDefault = .ok (.expression "-0b_1000_0000") := by
    rfl
  rw [hwritten] at hd
  have hvalue := (hdenotes d (hwritten.trans hd) ⟨[]⟩).2 _ signedInteger_lowestDefault
  rw [← Except.ok.inj hd, render] at hvalue
  exact ⟨hkind, signedInteger_lowestDefault, hwritten, by simpa using hvalue⟩

/-- A plus sign is dropped, and one value further nothing is accepted. -/
example : ofScalar (.uint 8) ⟨.bare, "+0XfF"⟩ = .ok (.expression "0XfF")
    ∧ ofScalar (.uint 8) ⟨.bare, "+0x100"⟩ = .error (.invalid "+0x100" (.uint 8)) :=
  ⟨rfl, rfl⟩

end DefaultValue

end ServiceWiring
