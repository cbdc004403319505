/-!
# JSON values

A JSON value as it was written: numbers keep their text, and objects keep their fields in order,
repeated keys included.  Escapes may spell text that is no Unicode text, a surrogate without its
partner; such a string is still JSON, but it has no value.
-/

namespace ServiceWiring

/-- A JSON value. -/
inductive JsonValue where
  | null
  | bool (b : Bool)
  /-- A number as written. -/
  | number (text : List Char)
  /-- A string; none if its escapes spell no Unicode text. -/
  | string (text : Option String)
  | array (items : List JsonValue)
  | object (fields : List (Option String × JsonValue))

namespace JsonValue

/-- The text of a string. -/
def string? : JsonValue → Option String
  | .string text => text
  | _ => none

/-- The value of a Boolean. -/
def bool? : JsonValue → Option Bool
  | .bool b => some b
  | _ => none

/-- The texts of an array of strings. -/
def strings? : JsonValue → Option (List String)
  | .array items => items.mapM string?
  | _ => none

/-- The value of a number that is written as an unsigned integer. -/
def unsigned? : JsonValue → Option Nat
  | .number text =>
      if text.all Char.isDigit then
        some (text.foldl (fun n d => 10 * n + (d.toNat - '0'.toNat)) 0)
      else none
  | _ => none

end JsonValue

end ServiceWiring
