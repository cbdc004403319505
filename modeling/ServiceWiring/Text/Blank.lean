/-!
# Blank characters, trimming and splitting

Text is scanned as a list of characters.  This module holds the pieces that every
scanner of the library shares:

* `isBlank` — the Unicode `White_Space` property, the one notion of a blank character;
* `trimStart`, `trimEnd`, `trim` — a text without its outer blanks;
* `splitWhere` — the parts between the characters a test accepts, empty parts included;
* `splitOn` — the parts between the occurrences of a separator text;
* `words` — the blank-separated words of a text;
* `after?` — what follows a given beginning.
-/

namespace ServiceWiring.Text

/-- The Unicode `White_Space` property. -/
def isBlank (c : Char) : Bool :=
  let n := c.toNat
  (9 ≤ n && n ≤ 13) || n == 0x20 || n == 0x85 || n == 0xA0 || n == 0x1680
    || (0x2000 ≤ n && n ≤ 0x200A) || n == 0x2028 || n == 0x2029 || n == 0x202F
    || n == 0x205F || n == 0x3000

/-- A text without the characters at its start that pass a test. -/
def trimStartWhere (p : Char → Bool) (cs : List Char) : List Char :=
  cs.dropWhile p

/-- A text without the characters at its end that pass a test. -/
def trimEndWhere (p : Char → Bool) (cs : List Char) : List Char :=
  (cs.reverse.dropWhile p).reverse

/-- A text without its leading blanks. -/
def trimStart (cs : List Char) : List Char :=
  trimStartWhere isBlank cs

/-- A text without its trailing blanks. -/
def trimEnd (cs : List Char) : List Char :=
  trimEndWhere isBlank cs

/-- A text without leading and trailing blanks. -/
def trim (cs : List Char) : List Char :=
  trimEnd (trimStart cs)

/-- `trim` on strings. -/
def trimmed (s : String) : String :=
  String.ofList (trim s.toList)

/-- Puts a character in front of the first part. -/
def extendHead (c : Char) : List (List Char) → List (List Char)
  | [] => [[c]]
  | part :: parts => (c :: part) :: parts

/-- The parts of a text between the characters that pass a test.  There is one part more
    than there are such characters, so empty parts are kept. -/
def splitWhere (p : Char → Bool) : List Char → List (List Char)
  | [] => [[]]
  | c :: cs => if p c then [] :: splitWhere p cs else extendHead c (splitWhere p cs)

/-- The maximal runs of characters that are not blank. -/
def words (cs : List Char) : List (List Char) :=
  (splitWhere isBlank cs).filter fun w => !w.isEmpty

/-- What follows `start` in a text that begins with it. -/
def after? (start cs : List Char) : Option (List Char) :=
  start.isPrefixOf? cs

/-- Whether a text begins with `start`. -/
def startsWith (start cs : List Char) : Bool :=
  (after? start cs).isSome

/-- The parts of a text between the occurrences of a non-empty separator, found from left
    to right; `skip` characters still belong to the separator just met. -/
def splitOnFrom (sep : List Char) : Nat → List Char → List (List Char)
  | _, [] => [[]]
  | skip + 1, _ :: cs => splitOnFrom sep skip cs
  | 0, c :: cs =>
      if startsWith sep (c :: cs) then [] :: splitOnFrom sep (sep.length - 1) cs
      else extendHead c (splitOnFrom sep 0 cs)

/-- The parts of a text between the occurrences of a separator.  The empty separator stands
    between any two characters and at both ends. -/
def splitOn (sep cs : List Char) : List (List Char) :=
  if sep.isEmpty then [] :: cs.map (fun c => [c]) ++ [[]] else splitOnFrom sep 0 cs

end ServiceWiring.Text
