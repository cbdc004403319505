import ServiceWiring.Directive.Argument
import ServiceWiring.Directive.Comment

/-!
# Directives

A directive with its arguments resolved.  Positional and named spellings of one directive meet
here, so that nothing behind this module looks at the form of the arguments again.

`Directive.parse?` reads the body of a directive line.  It answers `none` for names that are
not ours and an error for one of ours that is malformed.
-/

namespace ServiceWiring

open Text

/-- A configuration value for a field. -/
structure ConfigSpec where
  key : String
  default : Option Argument
  /-- The explicit `required=`, if given. -/
  required : Option Bool
  separator : String
  deriving DecidableEq, Repr

/-- A route served by a method. -/
structure RouteSpec where
  method : String
  path : String
  middleware : List String
  deriving DecidableEq, Repr

/-- A resolved directive. -/
inductive Directive where
  | service (name : Option String)
  | router (name : Option String) (mountPath : String)
  | inject (dependency : Option String)
  | config (spec : ConfigSpec)
  | route (spec : RouteSpec)
  deriving DecidableEq, Repr

namespace Directive

/-- Which directive it is. -/
def kind : Directive → DirectiveKind
  | .service _ => .service
  | .router _ _ => .router
  | .inject _ => .inject
  | .config _ => .config
  | .route _ => .route

/-- The name it is written with. -/
def label (d : Directive) : String :=
  d.kind.label

/-- Whether it turns a struct into a service. -/
def isMarker (d : Directive) : Bool :=
  d.kind.isMarker

/-- Whether it belongs to a struct field. -/
def isFieldDirective (d : Directive) : Bool :=
  d.kind.isFieldDirective

/-- The methods a route may name. -/
def httpMethods : List String :=
  ["GET", "POST", "PUT", "PATCH", "DELETE", "HEAD", "OPTIONS", "ANY"]

/-- The separator of list values when none is given. -/
def defaultSeparator : String := ","

/-! ## Shared checks -/

/-- Refuses the first key that is not allowed. -/
def checkKeys (kind : DirectiveKind) (allowed : List String) :
    Arguments → Except DirectiveError Unit
  | .named pairs =>
      match pairs.find? fun pair => !allowed.contains pair.1 with
      | some pair => .error (.unknownArgument pair.1 kind.label allowed)
      | none => .ok ()
  | _ => .ok ()

/-- The text of the only positional value. -/
def single (kind : DirectiveKind) (what : String) : List Argument → Except DirectiveError String
  | [value] => .ok value.text
  | values => .error (.notSingle kind.label what values.length)

/-- The text given for a key. -/
def textOf? (args : Arguments) (key : String) : Option String :=
  (args.get? key).map (·.text)

/-- The non-empty, trimmed parts of a comma-separated list. -/
def splitList (text : List Char) : List String :=
  (((splitWhere (· == ',') text).map trim).filter fun part => !part.isEmpty).map String.ofList

/-- Refuses service names that are empty or hold a double quote, a backslash or a blank. -/
def checkName : Option String → Except DirectiveError (Option String)
  | some name =>
      if name.toList.isEmpty then .error .emptyServiceName
      else if name.toList.any fun c => c == '"' || c == '\\' || isBlank c then
        .error (.invalidServiceName name)
      else .ok (some name)
  | none => .ok none

/-! ## Resolution -/

/-- A name given as only positional value or under the key `name`. -/
def nameArgument (kind : DirectiveKind) (what : String) :
    Arguments → Except DirectiveError (Option String)
  | .none => .ok none
  | .positional values => some <$> single kind what values
  | args => .ok (textOf? args "name")

/-- The path a router is mounted at, without trailing slashes. -/
def mountPathOf (args : Arguments) : String :=
  match textOf? args "prefix" with
  | some text => String.ofList (trimEndWhere (· == '/') text.toList)
  | none => ""

/-- Refuses a mount path that neither is empty nor starts with a slash. -/
def checkMountPath (path : String) : Except DirectiveError Unit :=
  if path.toList.isEmpty || path.toList.head? == some '/' then .ok ()
  else .error (.relativeMountPath path)

/-- The explicit `required=` of a configuration value. -/
def requiredOf (args : Arguments) : Except DirectiveError (Option Bool) :=
  match textOf? args "required" with
  | none => .ok none
  | some text =>
      if text = "true" then .ok (some true)
      else if text = "false" then .ok (some false)
      else .error (.requiredNotBoolean text)

/-- The configuration value described by an argument list. -/
def configSpec : Arguments → Except DirectiveError ConfigSpec
  | .none => .error .configWithoutKey
  | .positional values => do
      let key ← single .config "a configuration key" values
      return { key, default := none, required := none, separator := defaultSeparator }
  | args =>
      match textOf? args "key" with
      | none => .error .configKeyMissing
      | some key => do
          let required ← requiredOf args
          let separator := (textOf? args "sep").getD defaultSeparator
          if separator.toList.isEmpty then .error .emptySeparator
          else return { key, default := args.get? "default", required, separator }

/-- Method, path and middleware of a route as written. -/
def routeParts : Arguments → Except DirectiveError RouteSpec
  | .none => .error .routeWithoutArgument
  | .positional values =>
      match values.head?.elim [] fun v => words v.text.toList with
      | method :: path :: more =>
          .ok {
            method := String.ofList method
            path := String.ofList path
            middleware :=
              more.flatMap splitList ++ values.tail.flatMap fun v => splitList v.text.toList }
      | _ => .error .routePathMissing
  | args =>
      match textOf? args "method", textOf? args "path" with
      | none, _ => .error .routeMethodKeyMissing
      | _, none => .error .routePathKeyMissing
      | some method, some path =>
          .ok {
            method
            path
            middleware := (textOf? args "middleware").elim [] fun text => splitList text.toList }

/-- A route with its method in upper case, refused unless the method is an HTTP method and the
    path starts with a slash. -/
def checkRoute (spec : RouteSpec) : Except DirectiveError RouteSpec :=
  let method := String.ofList (spec.method.toList.map Char.toUpper)
  if !httpMethods.contains method then .error (.unsupportedMethod method)
  else if spec.path.toList.head? != some '/' then .error (.relativeRoutePath spec.path)
  else .ok { spec with method }

/-- The directive of a kind with the given arguments. -/
def resolve (kind : DirectiveKind) (args : Arguments) : Except DirectiveError Directive :=
  match kind with
  | .service => do
      checkKeys kind ["name"] args
      let name ← nameArgument kind "a service name" args
      return .service (← checkName name)
  | .router => do
      checkKeys kind ["name", "prefix"] args
      let name ← nameArgument kind "a service name" args
      let mountPath := mountPathOf args
      checkMountPath mountPath
      return .router (← checkName name) mountPath
  | .inject => do
      checkKeys kind ["name"] args
      return .inject (← nameArgument kind "a dependency name" args)
  | .config => do
      checkKeys kind ["key", "default", "required", "sep"] args
      let spec ← configSpec args
      if (trim spec.key.toList).isEmpty then .error .blankConfigKey
      else return .config spec
  | .route => do
      checkKeys kind ["method", "path", "middleware"] args
      let spec ← routeParts args
      return .route (← checkRoute spec)

/-- Reads the body of a directive line, the text behind the sigil. -/
def parse? (body : List Char) : Except DirectiveError (Option (Directive × Arguments)) :=
  match kindOf? body with
  | none => .ok none
  | some kind => do
      let args ← Arguments.parse (body.dropWhile isNameChar)
      let directive ← resolve kind args
      return some (directive, args)

end Directive

end ServiceWiring
