import ServiceWiring.Duration
import ServiceWiring.Generated.Number
import ServiceWiring.Generated.TypeShape
import ServiceWiring.Service.Basic

/-!
# Default values

The default of a configuration value, checked against the shape of its field.  Rendering waits
until the imports are resolved, because a duration or an element type names packages.
-/

namespace ServiceWiring

open Text

/-- A default that fits its field. -/
inductive DefaultValue where
  /-- A Go expression that names no package. -/
  | expression (text : String)
  | duration (d : Duration)
  | list (element : TypeExpr) (items : List DefaultValue)

/-- Why a default does not fit. -/
inductive DefaultError where
  | invalid (text : String) (kind : ScalarKind)
  | duration (e : DurationError)
  /-- The type takes no defaults. -/
  | unsupported
  deriving DecidableEq, Repr

/-- The words for a default that does not fit. -/
def DefaultError.message : DefaultError → String
  | .invalid text kind => s!"`{text}` is not a valid {kind.describe}"
  | .duration e => e.message
  | .unsupported =>
      "defaults are only supported for scalars, lists, []byte and types with UnmarshalText"

namespace DefaultValue

/-- Whether a text is a literal of a numeric or Boolean scalar. -/
def isLiteralOf (text : List Char) : ScalarKind → Bool
  | .int bits => (Number.integerValue? text).any (Number.fitsSigned · bits)
  | .uint bits => (Number.integerValue? text).any (Number.fitsUnsigned · bits)
  | .float _ => Number.isFiniteDecimal text
  | .bool => text == "true".toList || text == "false".toList
  | _ => false

/-- The default of a scalar. -/
def ofScalar (kind : ScalarKind) (value : Argument) : Except DefaultError DefaultValue :=
  let text := trim value.text.toList
  match kind with
  | .string => .ok (.expression value.literal)
  | .duration =>
      match Duration.parse (String.ofList text) with
      | .ok d => .ok (.duration d)
      | .error e => .error (.duration e)
  | _ =>
      if isLiteralOf text kind then
        .ok (.expression (String.ofList (trimStartWhere (· == '+') text)))
      else .error (.invalid (String.ofList text) kind)

/-- The items of a list default: the non-empty, trimmed parts between the separators. -/
def itemsOf (separator : String) (value : Argument) : List Argument :=
  (((splitOn separator.toList value.text.toList).map trim).filter fun item => !item.isEmpty).map
    fun item => value.withText (String.ofList item)

/-- The default of a field of the given shape. -/
def ofShape (shape : TypeShape) (separator : String) (value : Argument) :
    Except DefaultError DefaultValue :=
  match shape with
  | .scalar kind => ofScalar kind value
  | .list kind element =>
      ((itemsOf separator value).mapM (ofScalar kind)).map (.list element)
  | .bytes => .ok (.expression s!"[]byte({value.literal})")
  | .structured _ true _ => .ok (.expression value.literal)
  | .structured _ false _ => .error .unsupported

/-- The Go expression of a default. -/
def render (imports : ResolvedImports) : DefaultValue → String
  | .expression text => text
  | .duration d => d.expression (imports.nameOfStandard "time")
  | .list element items =>
      "[]" ++ imports.renderType element ++ "\x7b"
        ++ String.intercalate ", " (items.map fun item => item.render imports) ++ "\x7d"

end DefaultValue

end ServiceWiring
