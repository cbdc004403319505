import ServiceWiring.Json.Value

/-!
# Writing JSON

JSON over several lines: every item and field stands on a line of its own, two blanks to the
right of the line that opens it.  Empty arrays and objects stand on one line.
-/

namespace ServiceWiring

namespace JsonValue

/-- A hexadecimal digit in lower case. -/
def hexDigit (n : Nat) : Char :=
  if n < 10 then Char.ofNat (n + '0'.toNat) else Char.ofNat (n - 10 + 'a'.toNat)

/-- How one character is written inside a string. -/
def escapeChar (c : Char) : List Char :=
  if c = '"' then ['\\', '"']
  else if c = '\\' then ['\\', '\\']
  else if c = '\x08' then ['\\', 'b']
  else if c = '\x0c' then ['\\', 'f']
  else if c = '\n' then ['\\', 'n']
  else if c = '\r' then ['\\', 'r']
  else if c = '\t' then ['\\', 't']
  else if c.toNat < 0x20 then
    ['\\', 'u', '0', '0', hexDigit (c.toNat / 16), hexDigit (c.toNat % 16)]
  else [c]

/-- A text as a JSON string, quotes included. -/
def quoted (text : String) : List Char :=
  '"' :: (text.toList.flatMap escapeChar ++ ['"'])

/-- A line end and the indentation of the next line. -/
def newLine (depth : Nat) : List Char :=
  '\n' :: List.replicate (2 * depth) ' '

/-- Writes entries between brackets, each on a line of its own. -/
def bracketed (opening closing : Char) (depth : Nat) (entries : List (List Char)) : List Char :=
  if entries.isEmpty then [opening, closing]
  else
    let body := entries.map fun entry => newLine (depth + 1) ++ entry
    opening :: ([','].intercalate body ++ newLine depth ++ [closing])

mutual

/-- Writes a value that starts on a line of the given depth.  A string without a value is written
    empty. -/
def write (depth : Nat) : JsonValue → List Char
  | .null => "null".toList
  | .bool b => if b then "true".toList else "false".toList
  | .number text => text
  | .string text => quoted (text.getD "")
  | .array items => bracketed '[' ']' depth (writeItems (depth + 1) items)
  | .object fields => bracketed '\x7b' '\x7d' depth (writeFields (depth + 1) fields)

/-- Writes the items of an array. -/
def writeItems (depth : Nat) : List JsonValue → List (List Char)
  | [] => []
  | item :: rest => write depth item :: writeItems depth rest

/-- Writes the fields of an object. -/
def writeFields (depth : Nat) : List (Option String × JsonValue) → List (List Char)
  | [] => []
  | (key, value) :: rest =>
      (quoted (key.getD "") ++ ':' :: ' ' :: write depth value) :: writeFields depth rest

end

/-- The text of a value. -/
def pretty (v : JsonValue) : String :=
  String.ofList (v.write 0)

end JsonValue

end ServiceWiring
