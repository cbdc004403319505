import ServiceWiring.Text.Blank

/-!
# Number literals

Defaults of numeric fields have to be literals that Go reads as numbers in range.

* `integerValue?` — the value of a Go integer literal with at most one sign: decimal, `0x`, `0o`,
  `0b` or octal with a leading zero, with underscores between digits, below 128 bits;
* `fitsSigned`, `fitsUnsigned` — the ranges of Go's integer types;
* `isFiniteDecimal` — a decimal floating-point number below the overflow threshold of 64-bit
  floating point.
-/

namespace ServiceWiring.Number

open Text

/-! ## Integers -/

/-- The value of a digit of any base up to sixteen, letters in lower case. -/
def digitValue? (c : Char) : Option Nat :=
  if c.isDigit then some (c.toNat - '0'.toNat)
  else if 'a' ≤ c && c ≤ 'f' then some (c.toNat - 'a'.toNat + 10)
  else none

/-- The value of digits of a base, none for no digits or a character that is no such digit. -/
def digitsValue? (base : Nat) (ds : List Char) : Option Nat :=
  if ds.isEmpty then none
  else
    ds.foldlM (fun n c => do
      let d ← digitValue? c
      if d < base then some (base * n + d) else none) 0

/-- The base of an unsigned literal in lower case, and its digits. -/
def splitBase : List Char → Nat × List Char
  | '0' :: 'x' :: ds => (16, ds)
  | '0' :: 'o' :: ds => (8, ds)
  | '0' :: 'b' :: ds => (2, ds)
  | '0' :: d :: ds => (8, d :: ds)
  | ds => (10, ds)

/-- Whether two underscores stand side by side. -/
def hasDoubleUnderscore : List Char → Bool
  | '_' :: '_' :: _ => true
  | _ :: cs => hasDoubleUnderscore cs
  | [] => false

/-- Whether underscores stand only where Go allows them: never at the end, never twice in a row
    and, in decimal literals, never at the start. -/
def underscoresFit (base : Nat) (ds : List Char) : Bool :=
  ds.getLast? != some '_' && !hasDoubleUnderscore ds && !(base == 10 && ds.head? == some '_')

/-- The value of an unsigned Go integer literal of any size. -/
def literalValue? (cs : List Char) : Option Nat :=
  let (base, ds) := splitBase (cs.map Char.toLower)
  if underscoresFit base ds then digitsValue? base (ds.filter (· != '_')) else none

/-- A number as a signed word of 128 bits, by way of an unsigned one. -/
def toWord? (n : Nat) : Option Nat :=
  if Nat.pow 2 128 ≤ n then none
  else if Nat.pow 2 127 ≤ n then none
  else some n

/-- The value of an unsigned Go integer literal, if a signed word of 128 bits holds it. -/
def magnitude? (cs : List Char) : Option Nat :=
  (literalValue? cs).bind toWord?

/-- The value of a Go integer literal with at most one sign, if a word of 128 bits holds it. -/
def integerValue? : List Char → Option Int
  | '-' :: cs => (magnitude? cs).map fun n => -(n : Int)
  | '+' :: cs => (magnitude? cs).map fun n => (n : Int)
  | cs => (magnitude? cs).map fun n => (n : Int)

/-- The width of an integer type, where zero bits stand for the widest one. -/
def widthOf (bits : Nat) : Nat :=
  if bits = 8 then 8 else if bits = 16 then 16 else if bits = 32 then 32 else 64

/-- Whether a value lies in the range of a signed type. -/
def fitsSigned (n : Int) (bits : Nat) : Bool :=
  let half : Int := Nat.pow 2 (widthOf bits - 1)
  (-half ≤ n && n < half)

/-- Whether a value lies in the range of an unsigned type. -/
def fitsUnsigned (n : Int) (bits : Nat) : Bool :=
  0 ≤ n && n < Nat.pow 2 (widthOf bits)

/-! ## Decimal floating point -/

/-- A decimal number: an integer times a power of ten. -/
structure Decimal where
  digits : Nat
  exponent : Int
  deriving DecidableEq, Repr

/-- Takes one sign off a text; true for a minus. -/
def splitSign : List Char → Bool × List Char
  | '-' :: cs => (true, cs)
  | '+' :: cs => (false, cs)
  | cs => (false, cs)

/-- The value of a text of decimal digits. -/
def decimalDigits (ds : List Char) : Nat :=
  ds.foldl (fun n d => 10 * n + (d.toNat - '0'.toNat)) 0

/-- The exponent behind the digits: nothing, or `e` with an optional sign and digits. -/
def exponent? : List Char → Option Int
  | [] => some 0
  | c :: cs =>
      if c = 'e' || c = 'E' then
        let (negative, ds) := splitSign cs
        if ds.isEmpty || !ds.all Char.isDigit then none
        else some (if negative then -(decimalDigits ds : Int) else decimalDigits ds)
      else none

/-- Reads an unsigned decimal number with at least one digit. -/
def unsignedDecimal? (cs : List Char) : Option Decimal := do
  let whole := cs.takeWhile Char.isDigit
  let rest := cs.dropWhile Char.isDigit
  let (fraction, rest) :=
    match rest with
    | '.' :: more => (more.takeWhile Char.isDigit, more.dropWhile Char.isDigit)
    | _ => ([], rest)
  if whole.isEmpty && fraction.isEmpty then none
  else
    let e ← exponent? rest
    return ⟨decimalDigits (whole ++ fraction), e - fraction.length⟩

/-- Numbers from here on round to infinity in 64-bit floating point. -/
def overflowThreshold : Nat := (Nat.pow 2 54 - 1) * Nat.pow 2 970

/-- Whether a decimal stays below the threshold.  The threshold has 309 digits, so the place of
    the leading digit decides for all numbers of another size. -/
def Decimal.isFinite (d : Decimal) : Bool :=
  if d.digits = 0 then true
  else
    let places := (Nat.toDigits 10 d.digits).length + d.exponent
    if places < 309 then true
    else if 309 < places then false
    else d.digits * Nat.pow 10 d.exponent.toNat
        < overflowThreshold * Nat.pow 10 (-d.exponent).toNat

/-- Whether a text is a decimal number, with at most one sign, that is finite as a 64-bit
    floating-point number. -/
def isFiniteDecimal (cs : List Char) : Bool :=
  (unsignedDecimal? (splitSign cs).2).any (·.isFinite)

end ServiceWiring.Number
