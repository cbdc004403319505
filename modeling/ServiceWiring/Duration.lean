import ServiceWiring.Text.Blank

/-!
# Duration literals

Durations are written as in `"15m"` or `"1h30m"`: an optional sign, then decimal numbers, each
with a unit, or a bare `0`.  In generated code a literal stays readable as a sum of unit
multiples such as `15 * time.Minute`.  Go refuses fractional multiples of a unit constant, so a
number with a fraction moves to smaller units until it is whole: `1.5h` is `90 * time.Minute`.

Amounts are 64-bit words, and the whole literal has to fit the signed 64-bit nanosecond count that
Go keeps a duration in.  Amounts are checked; the product of a unit's factor and the digits of a
fraction is not, and wraps around.
-/

namespace ServiceWiring

open Text

/-- A unit of time. -/
structure TimeUnit where
  /-- The ways to write the unit behind a number. -/
  suffixes : List String
  /-- The constant of the `time` package that stands for the unit. -/
  constant : String
  /-- How many of the next smaller unit it is; one for the smallest. -/
  factor : Nat
  /-- Its length in nanoseconds. -/
  nanos : Nat
  deriving DecidableEq, Repr

/-- The units from the largest to the smallest. -/
def TimeUnit.all : List TimeUnit := [
  ⟨["h"], "Hour", 60, 3600000000000⟩,
  ⟨["m"], "Minute", 60, 60000000000⟩,
  ⟨["s"], "Second", 1000, 1000000000⟩,
  ⟨["ms"], "Millisecond", 1000, 1000000⟩,
  ⟨["us", "\u00b5s", "\u03bcs"], "Microsecond", 1000, 1000⟩,
  ⟨["ns"], "Nanosecond", 1, 1⟩]

/-- Why a text is no duration. -/
inductive DurationError where
  /-- The text does not follow the rules, or a number is no whole multiple of any unit. -/
  | invalid (text : String)
  /-- The duration has too many nanoseconds. -/
  | overflow (text : String)
  deriving DecidableEq, Repr

/-- The words a refused duration is reported in. -/
def DurationError.message : DurationError → String
  | .invalid text => s!"`{text}` is not a valid duration"
  | .overflow text => s!"`{text}` overflows time.Duration"

/-- A whole multiple of a unit. -/
structure DurationTerm where
  amount : Nat
  unit : TimeUnit
  deriving DecidableEq, Repr

/-- A duration literal.  Zero has no terms. -/
structure Duration where
  negative : Bool
  terms : List DurationTerm
  deriving DecidableEq, Repr

namespace Duration

/-- Amounts stay below this. -/
def wordLimit : Nat := Nat.pow 2 64

/-- The largest number of nanoseconds of a duration. -/
def maxNanos : Nat := Nat.pow 2 63 - 1

/-- A character of a number. -/
def isNumberChar (c : Char) : Bool :=
  c.isDigit || c == '.'

/-- The value of decimal digits; zero for no digits. -/
def digitsValue (ds : List Char) : Nat :=
  ds.foldl (fun n d => 10 * n + (d.toNat - '0'.toNat)) 0

/-- The value of at least one decimal digit, if it fits a word. -/
def word? (ds : List Char) : Option Nat :=
  if ds.isEmpty || !ds.all Char.isDigit || wordLimit ≤ digitsValue ds then none
  else some (digitsValue ds)

/-- A number in exactly `width` digits. -/
def paddedDigits (width n : Nat) : List Char :=
  let ds := Nat.toDigits 10 n
  List.replicate (width - ds.length) '0' ++ ds

/-- Digits of a fraction without the zeros at their end. -/
def trimZeros (ds : List Char) : List Char :=
  trimEndWhere (· == '0') ds

/-- Brings an amount of a unit and a decimal fraction of it to the next smaller unit, of which it
    is `factor` many: the amount that is carried over, and the fraction that is left.  The product
    of the factor and the fraction is a word that wraps around. -/
def carry? (factor amount : Nat) (fraction : List Char) : Option (Nat × List Char) := do
  let numerator ← word? fraction
  let divisor := Nat.pow 10 fraction.length
  if wordLimit ≤ divisor then none
  else
    let scaled := factor * numerator % wordLimit
    let carried := amount * factor + scaled / divisor
    if wordLimit ≤ carried then none
    else some (carried, trimZeros (paddedDigits fraction.length (scaled % divisor)))

/-- Brings `amount` of the first unit and a decimal fraction of it to a whole multiple of the
    first unit of the list that allows it. -/
def scale : List TimeUnit → Nat → List Char → Option DurationTerm
  | [], _, _ => none
  | unit :: smaller, amount, fraction =>
      if fraction.isEmpty then some ⟨amount, unit⟩
      else if unit.factor = 1 then none
      else do
        let (amount, fraction) ← carry? unit.factor amount fraction
        scale smaller amount fraction

/-- The units from the one with the given suffix on downwards. -/
def unitsFrom (suffix : String) : List TimeUnit :=
  TimeUnit.all.dropWhile fun unit => !unit.suffixes.contains suffix

/-- The term of a number and a unit suffix. -/
def term? (number unit : List Char) : Option DurationTerm :=
  let whole := number.takeWhile (· != '.')
  let fraction := (number.dropWhile (· != '.')).drop 1
  if whole.isEmpty && fraction.isEmpty then none
  else do
    let amount ← if whole.isEmpty then some 0 else word? whole
    scale (unitsFrom (String.ofList unit)) amount (trimZeros fraction)

theorem length_unit_rest {cs : List Char} {c : Char} {rest : List Char}
    (h : cs.dropWhile isNumberChar = c :: rest) :
    ((c :: rest).dropWhile fun c => !isNumberChar c).length < cs.length := by
  have hc : isNumberChar c = false := by
    have := List.head?_dropWhile_not isNumberChar cs
    rw [h] at this
    simpa using this
  have h1 := (List.dropWhile_sublist (l := cs) isNumberChar).length_le
  have h2 := (List.dropWhile_sublist (l := rest) fun c => !isNumberChar c).length_le
  rw [h, List.length_cons] at h1
  simp only [List.dropWhile_cons, hc, Bool.not_false, if_true]
  omega

/-- The terms of the numbers and units of a text. -/
def terms? (cs : List Char) : Option (List DurationTerm) :=
  if cs.isEmpty then some []
  else
    match h : cs.dropWhile isNumberChar with
    | [] => none
    | c :: rest =>
        have := length_unit_rest h
        do
          let first ← term? (cs.takeWhile isNumberChar) ((c :: rest).takeWhile (!isNumberChar ·))
          let more ← terms? ((c :: rest).dropWhile (!isNumberChar ·))
          return first :: more
termination_by cs.length

/-- The length of a list of terms in nanoseconds. -/
def totalNanos (terms : List DurationTerm) : Nat :=
  terms.foldr (fun term total => term.amount * term.unit.nanos + total) 0

/-- Takes the sign off a text. -/
def splitSign : List Char → Bool × List Char
  | '-' :: rest => (true, rest)
  | '+' :: rest => (false, rest)
  | cs => (false, cs)

/-- Reads a duration literal.  Terms of amount zero are left out, and zero has no sign. -/
def parse (text : String) : Except DurationError Duration :=
  let (negative, body) := splitSign (trim text.toList)
  if body = ['0'] then .ok ⟨false, []⟩
  else if body.isEmpty then .error (.invalid text)
  else
    match terms? body with
    | none => .error (.invalid text)
    | some all =>
        let terms := all.filter fun term => 0 < term.amount
        if maxNanos < totalNanos terms then .error (.overflow text)
        else .ok ⟨negative && !terms.isEmpty, terms⟩

/-- A duration as a Go expression, with `timeName` as the name of the `time` package. -/
def expression (d : Duration) (timeName : String) : String :=
  match d.terms with
  | [] => "0"
  | [term] =>
      (if d.negative then "-" else "") ++ s!"{term.amount} * {timeName}.{term.unit.constant}"
  | terms =>
      let sum := String.intercalate " + "
        (terms.map fun term => s!"{term.amount}*{timeName}.{term.unit.constant}")
      if d.negative then "-(" ++ sum ++ ")" else sum

end Duration

end ServiceWiring
