import ServiceWiring.Generated.CodeLine
import ServiceWiring.Generated.Default

/-!
# Field initialisers

The statements that fill the fields of a service.  Planning checks the defaults and tells which
packages of the standard library the statements call into; writing them down needs the resolved
imports.

* `FieldPlan`, `ServicePlan` — a field, or all fields of a service, known to have code;
* `ServicePlan.ofService` — fails with the first default that does not fit;
* `FieldPlan.code` — the statements for one field.
-/

namespace ServiceWiring

open Text

/-- How a field is filled. -/
inductive FieldInit where
  | inject (dependency : String)
  | config (key : String) (shape : TypeShape) (default : Option DefaultValue) (required : Bool)
      (separator : String)

/-- A field whose code is known to exist. -/
structure FieldPlan where
  name : String
  init : FieldInit

/-- A service whose code is known to exist. -/
structure ServicePlan where
  service : Service
  fields : List FieldPlan

namespace FieldPlan

/-- The default of a looked-up value, if it has one and it fits. -/
def defaultOf (field : WiredField) (lookup : ConfigLookup) (shape : TypeShape) :
    Except Conflict (Option DefaultValue) :=
  match lookup.default with
  | none => .ok none
  | some value =>
      match DefaultValue.ofShape shape lookup.separator value with
      | .ok default => .ok (some default)
      | .error e =>
          .error (.unfitDefault value.written lookup.key field.name field.type.text e.message)

/-- Plans a field, given the types that read themselves from text. -/
def ofField (hooks : List String) (field : WiredField) : Except Conflict FieldPlan :=
  match field.origin with
  | .inject dependency => .ok ⟨field.name, .inject dependency⟩
  | .config lookup =>
      let shape := TypeShape.classify hooks field.type
      (defaultOf field lookup shape).map fun default =>
        ⟨field.name, .config lookup.key shape default lookup.required lookup.separator⟩

/-- Whether the field is looked up in the configuration. -/
def isConfig (plan : FieldPlan) : Bool :=
  match plan.init with
  | .config .. => true
  | .inject _ => false

/-- The package that parsing a scalar calls into. -/
def scalarPackages : ScalarKind → List String
  | .string => []
  | .duration => ["time"]
  | _ => ["strconv"]

/-- The packages that decoding a value of a shape calls into. -/
def shapePackages : TypeShape → List String
  | .scalar kind => scalarPackages kind
  | .list kind _ => "strings" :: scalarPackages kind
  | .bytes => []
  | .structured .. => []

/-- The packages that a field's statements call into. -/
def packages (plan : FieldPlan) : List String :=
  match plan.init with
  | .inject _ => []
  | .config _ shape default _ _ =>
      shapePackages shape ++
        match default with
        | some (.duration _) => ["time"]
        | _ => []

end FieldPlan

namespace ServicePlan

/-- Plans all fields of a service. -/
def ofService (hooks : List String) (service : Service) : Except Conflict ServicePlan :=
  (service.fields.mapM (FieldPlan.ofField hooks)).map fun fields => ⟨service, fields⟩

/-- Whether a field of the service is looked up in the configuration. -/
def hasConfig (plan : ServicePlan) : Bool :=
  plan.fields.any (·.isConfig)

/-- The packages of the standard library that generated code calls into, sorted. -/
def callable : List String :=
  ["strconv", "strings", "time"]

/-- The imports that the statements for the fields need. -/
def imports (plan : ServicePlan) : List ImportEntry :=
  let used := plan.fields.flatMap (·.packages)
  (callable.filter fun path => used.contains path).map .conventional

end ServicePlan

/-- The names that generated statements refer to. -/
structure CodeNames where
  imports : ResolvedImports
  /-- The name of the wiring runtime. -/
  runtime : String

namespace FieldPlan

open CodeBlock

/-- Leaves the provider with a configuration error; `key` is a literal. -/
def configError (names : CodeNames) (key : String) : CodeBlock :=
  line s!"return nil, {names.runtime}.ConfigError({key}, err)"

/-- Leaves the provider because a required value is missing; `key` is a literal. -/
def missingConfig (names : CodeNames) (key : String) : CodeBlock :=
  line s!"return nil, {names.runtime}.MissingConfig({key})"

/-- Leaves the provider with a configuration error if there is one. -/
def checkError (names : CodeNames) (key : String) : CodeBlock :=
  line "if err != nil \x7b" ++ nested (configError names key) ++ line "\x7d"

/-- The call that parses a text into a scalar; texts need none. -/
def parseCall? (names : CodeNames) (kind : ScalarKind) (source : String) : Option String :=
  let strconv := names.imports.nameOfStandard "strconv"
  let time := names.imports.nameOfStandard "time"
  match kind with
  | .string => none
  | .int bits => some s!"{strconv}.ParseInt({source}, 10, {bits})"
  | .uint bits => some s!"{strconv}.ParseUint({source}, 10, {bits})"
  | .float bits => some s!"{strconv}.ParseFloat({source}, {bits})"
  | .bool => some s!"{strconv}.ParseBool({source})"
  | .duration => some s!"{time}.ParseDuration({source})"

/-- The name of a sized type. -/
def sized (stem : String) (bits : Nat) : String :=
  if bits = 0 then stem else s!"{stem}{bits}"

/-- The parse result as a value of the scalar's type. -/
def convert (kind : ScalarKind) (value : String) : String :=
  match kind with
  | .int bits => sized "int" bits ++ s!"({value})"
  | .uint bits => sized "uint" bits ++ s!"({value})"
  | .float bits => s!"float{bits}({value})"
  | _ => value

/-- The statements that append one part of a list value. -/
def appendPart (names : CodeNames) (kind : ScalarKind) (element : TypeExpr) (target key : String) :
    CodeBlock :=
  match parseCall? names kind "part" with
  | none => line s!"{target} = append({target}, part)"
  | some call =>
      let value :=
        if kind = .duration then "parsed" else s!"{names.imports.renderType element}(parsed)"
      line s!"parsed, err := {call}" ++ checkError names key
        ++ line s!"{target} = append({target}, {value})"

/-- The statements that decode the text expression `source` into `target`. -/
def decode (names : CodeNames) (shape : TypeShape) (target source separator key : String) :
    CodeBlock :=
  match shape with
  | .scalar kind =>
      match parseCall? names kind source with
      | none => line s!"{target} = {source}"
      | some call =>
          line s!"parsed, err := {call}" ++ checkError names key
            ++ line (target ++ " = " ++ convert kind "parsed")
  | .list kind element =>
      let strings := names.imports.nameOfStandard "strings"
      line s!"for _, part := range {strings}.Split({source}, {quote separator}) \x7b"
        ++ nested (line s!"part = {strings}.TrimSpace(part)"
          ++ line "if part == \"\" \x7b" ++ nested (line "continue") ++ line "\x7d"
          ++ appendPart names kind element target key)
        ++ line "\x7d"
  | .bytes => line s!"{target} = []byte({source})"
  | .structured base _ pointer =>
      (if pointer then line s!"{target} = new({base})" else [])
        ++ line s!"if err := {target}.UnmarshalText([]byte({source})); err != nil \x7b"
        ++ nested (configError names key) ++ line "\x7d"

/-- The branch taken when a value is missing from the configuration. -/
def missingBranch (names : CodeNames) (shape : TypeShape) (default : Option DefaultValue)
    (required : Bool) (target separator key : String) : CodeBlock :=
  match default with
  | some value =>
      let value := value.render names.imports
      line "\x7d else \x7b" ++ nested (
        match shape with
        | .structured .. => decode names shape target value separator key
        | _ => line s!"{target} = {value}")
  | none =>
      if required then line "\x7d else \x7b" ++ nested (missingConfig names key) else []

/-- The statements for a field of the service in the variable `svc`. -/
def code (names : CodeNames) (plan : FieldPlan) : CodeBlock :=
  let target := s!"svc.{plan.name}"
  match plan.init with
  | .inject dependency =>
      line s!"if err := c.Inject(&{target}, {quote dependency}); err != nil \x7b"
        ++ nested (line "return nil, err") ++ line "\x7d"
  | .config key shape default required separator =>
      let key := quote key
      match shape with
      | .structured _ false _ =>
          line s!"if _, ok := cfg.Lookup({key}); ok \x7b"
            ++ nested (line s!"if err := cfg.Unmarshal({key}, &{target}); err != nil \x7b"
              ++ nested (configError names key) ++ line "\x7d")
            ++ (if required then line "\x7d else \x7b" ++ nested (missingConfig names key) else [])
            ++ line "\x7d"
      | _ =>
          line s!"if v, ok := cfg.Lookup({key}); ok \x7b"
            ++ nested (decode names shape target "v" separator key)
            ++ missingBranch names shape default required target separator key
            ++ line "\x7d"

end FieldPlan

end ServiceWiring
