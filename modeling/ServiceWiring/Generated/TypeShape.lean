import ServiceWiring.Import.TypeExpr

/-!
# Type shapes

How a field is filled from configuration depends on the shape of its declared type alone:
scalars and lists of scalars are parsed from text, `[]byte` takes the text as it is, a type that
reads itself from text does so, and everything else is left to the wiring runtime.
-/

namespace ServiceWiring

open Text

/-- Types with a value in one text. -/
inductive ScalarKind where
  | string
  /-- A signed integer of some bits, zero for the type without a size. -/
  | int (bits : Nat)
  | uint (bits : Nat)
  | float (bits : Nat)
  | bool
  | duration
  deriving DecidableEq, Repr

namespace ScalarKind

/-- The scalar of a predeclared type name. -/
def ofTypeName? (name : String) : Option ScalarKind :=
  [("string", string), ("int", int 0), ("int8", int 8), ("int16", int 16), ("int32", int 32),
    ("rune", int 32), ("int64", int 64), ("uint", uint 0), ("uint8", uint 8), ("byte", uint 8),
    ("uint16", uint 16), ("uint32", uint 32), ("uint64", uint 64), ("float32", float 32),
    ("float64", float 64), ("bool", bool)].lookup name

/-- The scalar of a type. -/
def ofType? (type : TypeExpr) : Option ScalarKind :=
  if type.isMember "time" "Duration" then some duration
  else ofTypeName? (trimmed type.text)

/-- The word for a scalar in reports. -/
def describe : ScalarKind → String
  | .string => "string"
  | .int _ => "integer"
  | .uint _ => "unsigned integer"
  | .float _ => "float"
  | .bool => "bool"
  | .duration => "duration"

end ScalarKind

/-- How a type is filled from configuration. -/
inductive TypeShape where
  | scalar (kind : ScalarKind)
  /-- A slice of scalars, with the element type as written. -/
  | list (kind : ScalarKind) (element : TypeExpr)
  | bytes
  /-- Any other type: its name without leading stars, whether it reads itself from text, and
      whether it is a pointer. -/
  | structured (base : String) (hook pointer : Bool)
  deriving DecidableEq, Repr

namespace TypeShape

/-- The shape of a type that is neither a scalar nor a slice of scalars. -/
def structuredOf (hooks : List String) (text : List Char) : TypeShape :=
  let base := trimStartWhere (· == '*') text
  .structured (String.ofList base)
    (base.all isNameChar && hooks.contains (String.ofList base))
    (text.head? == some '*')

/-- The shape of a type, given the types that read themselves from text. -/
def classify (hooks : List String) (type : TypeExpr) : TypeShape :=
  let text := trim type.text.toList
  match ScalarKind.ofType? type with
  | some kind => .scalar kind
  | none =>
      if text = "[]byte".toList || text = "[]uint8".toList then .bytes
      else
        match text with
        | '[' :: ']' :: rest =>
            let element : TypeExpr := { type with text := String.ofList rest }
            match ScalarKind.ofType? element with
            | some kind => .list kind element
            | none => structuredOf hooks text
        | _ => structuredOf hooks text

end TypeShape

end ServiceWiring
