/-!
# JSON tokens

The words of a JSON text: punctuation, literals, numbers and strings.  `JsonToken.scan?` fails on
anything else, on a number or a string that breaks the grammar, and on a control character inside
a string.
-/

namespace ServiceWiring

/-- A word of a JSON text. -/
inductive JsonToken where
  | openBrace
  | closeBrace
  | openBracket
  | closeBracket
  | colon
  | comma
  | null
  | bool (b : Bool)
  | number (text : List Char)
  | string (text : Option String)
  deriving DecidableEq, Repr

namespace JsonToken

/-! ## Strings -/

/-- What a place in a string spells: a character or a UTF-16 code unit. -/
inductive StringUnit where
  | char (c : Char)
  | unit (n : Nat)
  deriving DecidableEq, Repr

/-- The character behind a backslash, for the short escapes. -/
def shortEscape? (c : Char) : Option Char :=
  [('"', '"'), ('\\', '\\'), ('/', '/'), ('b', '\x08'), ('f', '\x0c'), ('n', '\n'), ('r', '\r'),
    ('t', '\t')].lookup c

/-- The value of a hexadecimal digit. -/
def hexDigit? (c : Char) : Option Nat :=
  if c.isDigit then some (c.toNat - '0'.toNat)
  else if 'a' ≤ c && c ≤ 'f' then some (c.toNat - 'a'.toNat + 10)
  else if 'A' ≤ c && c ≤ 'F' then some (c.toNat - 'A'.toNat + 10)
  else none

/-- The value of four hexadecimal digits. -/
def hexUnit? (a b c d : Char) : Option Nat := do
  let a ← hexDigit? a
  let b ← hexDigit? b
  let c ← hexDigit? c
  let d ← hexDigit? d
  return ((a * 16 + b) * 16 + c) * 16 + d

/-- The units of a string behind its opening quote, and what follows the closing one. -/
def stringUnits? : List Char → Option (List StringUnit × List Char)
  | [] => none
  | '"' :: cs => some ([], cs)
  | '\\' :: 'u' :: a :: b :: c :: d :: cs => do
      let n ← hexUnit? a b c d
      let (units, rest) ← stringUnits? cs
      return (.unit n :: units, rest)
  | '\\' :: e :: cs => do
      let c ← shortEscape? e
      let (units, rest) ← stringUnits? cs
      return (.char c :: units, rest)
  | c :: cs =>
      if c.toNat < 0x20 || c = '\\' then none
      else (stringUnits? cs).map fun (units, rest) => (.char c :: units, rest)

/-- The text that units spell, if they spell Unicode text: a high surrogate joins the low one
    right behind it. -/
def unitsText? : List StringUnit → Option (List Char)
  | [] => some []
  | .char c :: units => (unitsText? units).map (c :: ·)
  | .unit n :: .unit m :: units =>
      if 0xD800 ≤ n && n < 0xDC00 then
        if 0xDC00 ≤ m && m < 0xE000 then
          (unitsText? units).map (Char.ofNat (0x10000 + (n - 0xD800) * 0x400 + (m - 0xDC00)) :: ·)
        else none
      else if 0xDC00 ≤ n && n < 0xE000 then none
      else (unitsText? (.unit m :: units)).map (Char.ofNat n :: ·)
  | .unit n :: units =>
      if 0xD800 ≤ n && n < 0xE000 then none
      else (unitsText? units).map (Char.ofNat n :: ·)

/-! ## Numbers -/

/-- At least one digit at the start, and what follows the digits. -/
def digits? (cs : List Char) : Option (List Char × List Char) :=
  let ds := cs.takeWhile Char.isDigit
  if ds.isEmpty then none else some (ds, cs.dropWhile Char.isDigit)

/-- An integer part: a zero, or digits that do not start with one. -/
def integerPart? : List Char → Option (List Char × List Char)
  | '0' :: cs => some (['0'], cs)
  | cs => digits? cs

/-- A fraction, if a dot starts one. -/
def fraction? : List Char → Option (List Char × List Char)
  | '.' :: cs => (digits? cs).map fun (ds, rest) => ('.' :: ds, rest)
  | cs => some ([], cs)

/-- An exponent, if its letter starts one. -/
def exponent? : List Char → Option (List Char × List Char)
  | c :: cs =>
      if c = 'e' || c = 'E' then
        match cs with
        | '+' :: more => (digits? more).map fun (ds, rest) => (c :: '+' :: ds, rest)
        | '-' :: more => (digits? more).map fun (ds, rest) => (c :: '-' :: ds, rest)
        | _ => (digits? cs).map fun (ds, rest) => (c :: ds, rest)
      else some ([], c :: cs)
  | [] => some ([], [])

/-- An unsigned number at the start of a text, and what follows it. -/
def unsignedNumber? (cs : List Char) : Option (List Char × List Char) := do
  let (whole, cs) ← integerPart? cs
  let (fraction, cs) ← fraction? cs
  let (exponent, cs) ← exponent? cs
  return (whole ++ fraction ++ exponent, cs)

/-- A number at the start of a text, and what follows it. -/
def number? : List Char → Option (List Char × List Char)
  | '-' :: cs => (unsignedNumber? cs).map fun (text, rest) => ('-' :: text, rest)
  | cs => unsignedNumber? cs

/-! ## All tokens -/

/-- A character between tokens. -/
def isGap (c : Char) : Bool :=
  c == ' ' || c == '\n' || c == '\t' || c == '\r'

/-- The token of a punctuation character. -/
def punctuation? (c : Char) : Option JsonToken :=
  [('\x7b', openBrace), ('\x7d', closeBrace), ('[', openBracket), (']', closeBracket),
    (':', colon), (',', comma)].lookup c

/-- The token at the start of a text that does not start with a gap, and what follows it. -/
def next? (cs : List Char) : Option (JsonToken × List Char) :=
  match cs with
  | 'n' :: 'u' :: 'l' :: 'l' :: rest => some (.null, rest)
  | 't' :: 'r' :: 'u' :: 'e' :: rest => some (.bool true, rest)
  | 'f' :: 'a' :: 'l' :: 's' :: 'e' :: rest => some (.bool false, rest)
  | '"' :: rest =>
      (stringUnits? rest).map fun (units, rest) =>
        (.string ((unitsText? units).map String.ofList), rest)
  | c :: rest =>
      match punctuation? c with
      | some token => some (token, rest)
      | none => (number? cs).map fun (text, rest) => (.number text, rest)
  | [] => none

/-- The tokens of a text.  A token that does not shorten the text is none. -/
def scan? (cs : List Char) : Option (List JsonToken) :=
  let body := cs.dropWhile isGap
  if body.isEmpty then some []
  else
    match next? body with
    | none => none
    | some (token, rest) =>
        if _h : rest.length < cs.length then (scan? rest).map (token :: ·) else none
termination_by cs.length

end JsonToken

end ServiceWiring
