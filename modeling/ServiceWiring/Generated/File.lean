import ServiceWiring.Generated.PreservedBlock
import ServiceWiring.Generated.Route

/-!
# Generated files

The generated file of a folder: a header, the package clause, the imports, an `init` function
that registers every service, one function for each service, and the preserved blocks.  Services
stand in the order of their names and imports are sorted, so the same services always give the
same text.

* `Emission.ofServices` — plans all services, leaves out those whose defaults do not fit, and
  renders the file if any service is left.
-/

namespace ServiceWiring

open Text CodeBlock

/-- The first line of every generated file. -/
def generatedHeader : String := "// Code generated by wiregen. DO NOT EDIT."

/-- Whether a text starts like a generated file. -/
def isGenerated (text : String) : Bool :=
  startsWith generatedHeader.toList text.toList

namespace ServicePlan

/-- The function that registers a service. -/
def registerName (plan : ServicePlan) : String :=
  "register" ++ plan.service.structName

/-- The provider of a service: it fills the fields of a new struct. -/
def providerCode (names : CodeNames) (plan : ServicePlan) : CodeBlock :=
  line s!"r.Provide({quote plan.service.name}, func(c {names.runtime}.Container) (any, error) \x7b"
    ++ nested (line s!"svc := &{plan.service.structName}\x7b\x7d"
      ++ (if plan.hasConfig then line "cfg := c.Config()" else [])
      ++ plan.fields.flatMap (FieldPlan.code names)
      ++ line "return svc, nil")
    ++ line "\x7d)"

/-- The mounting of a router's endpoints. -/
def mountCode (names : CodeNames) (plan : ServicePlan) : CodeBlock :=
  if plan.service.isRouter && !plan.service.endpoints.isEmpty then
    line (s!"r.Mount({quote plan.service.name}, "
        ++ s!"func(instance any, router {names.runtime}.Router) \x7b")
      ++ nested (line s!"svc := instance.(*{plan.service.structName})"
        ++ plan.service.endpoints.flatMap (Endpoint.code names))
      ++ line "\x7d)"
  else []

/-- The function of a service. -/
def code (names : CodeNames) (plan : ServicePlan) : CodeBlock :=
  line s!"func {plan.registerName}(r *{names.runtime}.Registry) \x7b"
    ++ nested (plan.providerCode names ++ plan.mountCode names)
    ++ line "\x7d"

end ServicePlan

/-- What a generated file is made from. -/
structure FileParts where
  package : String
  services : List Service
  blocks : List PreservedBlock

/-- What generating a file gives. -/
structure Emission where
  /-- The file, if any service is in it. -/
  text : Option String
  /-- The names of the services in the file. -/
  services : List String
  /-- The services whose code cannot be written. -/
  rejected : List (Service × Conflict)

namespace Emission

/-- Splits services into planned and rejected ones. -/
def planAll (hooks : List String) : List Service → List ServicePlan × List (Service × Conflict)
  | [] => ([], [])
  | service :: rest =>
      let (plans, rejected) := planAll hooks rest
      match ServicePlan.ofService hooks service with
      | .ok plan => (plan :: plans, rejected)
      | .error conflict => (plans, (service, conflict) :: rejected)

/-- The imports of a file: the runtime, what the fields call into, what the endpoints name. -/
def importsOf (runtime : ImportEntry) (plans : List ServicePlan) : List ImportEntry :=
  runtime :: plans.flatMap (·.imports) ++ plans.flatMap (·.service.imports)

/-- The `init` function. -/
def initCode (names : CodeNames) (plans : List ServicePlan) : CodeBlock :=
  line "func init() \x7b"
    ++ nested (plans.flatMap fun plan => line s!"{plan.registerName}({names.runtime}.Default())")
    ++ line "\x7d"

/-- The lines of a generated file. -/
def fileLines (names : CodeNames) (package : String) (plans : List ServicePlan)
    (blocks : List PreservedBlock) : List String :=
  [generatedHeader, "", s!"package {package}", ""]
    ++ names.imports.blockLines
    ++ "" :: (initCode names plans).written
    ++ plans.flatMap (fun plan => "" :: (plan.code names).written)
    ++ blocks.flatMap (fun block => "" :: block.markedLines)

/-- Generates a file. -/
def ofServices (runtime : ImportEntry) (hooks : List String) (parts : FileParts) :
    Except ImportAmbiguity Emission :=
  let (plans, rejected) := planAll hooks parts.services
  if plans.isEmpty then .ok { text := none, services := [], rejected }
  else do
    let imports ← ResolvedImports.ofEntries (importsOf runtime plans)
    let names : CodeNames := { imports, runtime := (imports.nameOf? runtime.path).getD runtime.name }
    return {
      text := some (unlines (fileLines names parts.package plans parts.blocks))
      services := plans.map (·.service.name)
      rejected }

end Emission

end ServiceWiring
