import ServiceWiring.Import.Resolved
import ServiceWiring.Annotation

/-!
# Services

A service is a marked struct with everything the code for it is made from: where its fields get
their values, and for routers which methods serve which routes.
-/

namespace ServiceWiring

/-- A configuration value looked up for a field. -/
structure ConfigLookup where
  key : String
  default : Option Argument
  required : Bool
  separator : String
  deriving DecidableEq, Repr

/-- Where a field gets its value. -/
inductive FieldOrigin where
  | inject (dependency : String)
  | config (lookup : ConfigLookup)
  deriving DecidableEq, Repr

/-- A field that the generated code fills. -/
structure WiredField where
  name : String
  type : TypeExpr
  origin : FieldOrigin
  loc : Location
  deriving DecidableEq, Repr

/-- A parameter of a handler. -/
structure EndpointParam where
  name : String
  /-- The element type if the parameter is variadic. -/
  type : TypeExpr
  variadic : Bool
  deriving DecidableEq, Repr

/-- A route and the method that serves it. -/
structure Endpoint where
  method : String
  /-- The full path, the router's mount path included. -/
  path : String
  middleware : List String
  handler : String
  params : List EndpointParam
  results : List TypeExpr
  loc : Location
  deriving DecidableEq, Repr

/-- A service. -/
structure Service where
  name : String
  structName : String
  isRouter : Bool
  mountPath : String
  fields : List WiredField
  endpoints : List Endpoint
  /-- The imports that the endpoints' types need. -/
  imports : List ImportEntry
  loc : Location
  deriving DecidableEq, Repr

/-- Metadata that cannot stand together in one service. -/
inductive Conflict where
  /-- A struct with a second marker. -/
  | repeatedMarker (structName : String)
  /-- Two structs with one service name. -/
  | duplicateName (name : String)
  /-- A configuration value both required and with a default. -/
  | requiredWithDefault (key : String)
  /-- A field both injected and configured. -/
  | injectAndConfig (field : String)
  /-- A field with two directives of one kind. -/
  | repeatedDirective (field directive : String)
  /-- A handler whose results cannot be folded into a response. -/
  | unsupportedResults (handler : String)
  /-- Two handlers for one route. -/
  | duplicateRoute (method path : String)
  /-- A default that does not fit the type of its field. -/
  | unfitDefault (written key field type reason : String)
  deriving DecidableEq, Repr

/-- The words for a conflict. -/
def Conflict.message : Conflict → String
  | .repeatedMarker structName => s!"struct `{structName}` carries more than one service marker"
  | .duplicateName name => s!"duplicate service name `{name}`"
  | .requiredWithDefault key => s!"config `{key}` is marked required=true but also has a default"
  | .injectAndConfig field => s!"field `{field}` carries both @Inject and @Config"
  | .repeatedDirective field directive => s!"field `{field}` carries more than one @{directive}"
  | .unsupportedResults handler =>
      s!"handler `{handler}` has an unsupported signature: results must be (), (T), (error) or (T, error)"
  | .duplicateRoute method path => s!"duplicate route {method} {path}"
  | .unfitDefault written key field type reason =>
      s!"default {written} for config `{key}` does not fit field `{field}` of type `{type}`: {reason}"

/-- The method by which a type reads itself from text. -/
def textHookName : String := "UnmarshalText"

/-- The types of some files that read themselves from text. -/
def textHooks (files : List SourceFile) : List String :=
  files.flatMap fun file => file.index.declarations.filterMap fun d =>
    if d.kind = .method && d.name = textHookName then d.receiver else none

end ServiceWiring
