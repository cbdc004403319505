import ServiceWiring.Json.Value
import ServiceWiring.Json.Token

/-!
# Reading JSON

A pushdown reader: it takes one token at a time and keeps the arrays and objects that are still
open on a stack.

* `JsonReader.Frame` — an open array or object with what it holds so far;
* `JsonReader.Due` — what has to come next;
* `JsonReader.run` — reads tokens to the end;
* `JsonValue.parse?` — the value of a text.
-/

namespace ServiceWiring

namespace JsonReader

/-- The fields of an object. -/
abbrev Fields := List (Option String × JsonValue)

/-- An array or object that is still open. -/
inductive Frame where
  | array (done : List JsonValue)
  /-- An object whose field of the given key gets its value now. -/
  | object (done : Fields) (key : Option String)

/-- What has to come next. -/
inductive Due where
  | value
  /-- A value or the end of the array just opened. -/
  | firstItem
  /-- A key of an object; right behind the opening brace, its end may come instead. -/
  | key (done : Fields)  (first : Bool)
  /-- The colon behind a key. -/
  | colon (done : Fields) (key : Option String)
  /-- What follows a complete value. -/
  | behind (v : JsonValue)

/-- Takes a token where a value is due. -/
def startValue : JsonToken → Option Due
  | .null => some (.behind .null)
  | .bool b => some (.behind (.bool b))
  | .number text => some (.behind (.number text))
  | .string text => some (.behind (.string text))
  | .openBracket => some .firstItem
  | .openBrace => some (.key [] true)
  | _ => none

/-- Takes a token behind a complete value. -/
def followValue (v : JsonValue) : JsonToken → List Frame → Option (Due × List Frame)
  | .comma, .array done :: frames => some (.value, .array (done ++ [v]) :: frames)
  | .closeBracket, .array done :: frames => some (.behind (.array (done ++ [v])), frames)
  | .comma, .object done key :: frames => some (.key (done ++ [(key, v)]) false, frames)
  | .closeBrace, .object done key :: frames =>
      some (.behind (.object (done ++ [(key, v)])), frames)
  | _, _ => none

/-- Takes one token. -/
def step (due : Due) (frames : List Frame) (token : JsonToken) : Option (Due × List Frame) :=
  match due, token with
  | .value, token => (startValue token).map (·, frames)
  | .firstItem, .closeBracket => some (.behind (.array []), frames)
  | .firstItem, token => (startValue token).map (·, .array [] :: frames)
  | .key done _, .string key => some (.colon done key, frames)
  | .key done true, .closeBrace => some (.behind (.object done), frames)
  | .key _ _, _ => none
  | .colon done key, .colon => some (.value, .object done key :: frames)
  | .colon _ _, _ => none
  | .behind v, token => followValue v token frames

/-- Reads tokens to the end.  The value is complete when nothing is open any more. -/
def run : Due → List Frame → List JsonToken → Option JsonValue
  | .behind v, [], [] => some v
  | _, _, [] => none
  | due, frames, token :: rest =>
      match step due frames token with
      | some (due, frames) => run due frames rest
      | none => none

end JsonReader

/-- The value of a JSON text. -/
def JsonValue.parse? (text : String) : Option JsonValue :=
  (JsonToken.scan? text.toList).bind (JsonReader.run .value [])

end ServiceWiring
