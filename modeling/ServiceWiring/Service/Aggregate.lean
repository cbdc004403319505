import ServiceWiring.Service.Basic

/-!
# Aggregation

The annotations of all files of a folder make up its services: a struct, its fields and its
routes may stand in different files.  Markers are read first, then fields and routes.

A conflict concerns one service: it is reported, the service is left out, and the rest of the
folder still generates.

* `Aggregate` — the services met so far, the structs whose service is out, the issues;
* `Aggregate.ofFiles` — all annotations read;
* `Aggregate.services` — the services without conflict, by name.
-/

namespace ServiceWiring

open Text

/-- A file and its annotations. -/
structure Contribution where
  file : SourceFile
  annotations : List Annotation
  deriving DecidableEq, Repr

/-- What reading annotations has given so far. -/
structure Aggregate where
  /-- One service for each marked struct, in the order they were met. -/
  met : List Service := []
  /-- The structs whose service is out. -/
  failed : List String := []
  issues : List Issue := []
  deriving DecidableEq, Repr

namespace Aggregate

/-- The service of a struct. -/
def get? (agg : Aggregate) (structName : String) : Option Service :=
  agg.met.find? fun s => s.structName == structName

/-- Changes the service of a struct. -/
def modify (agg : Aggregate) (structName : String) (f : Service → Service) : Aggregate :=
  { agg with met := agg.met.map fun s => if s.structName == structName then f s else s }

/-- Reports a conflict in the service of a struct and takes the service out. -/
def report (agg : Aggregate) (structName : String) (loc : Location) (conflict : Conflict)
    (other : Option String) : Aggregate :=
  let service := (agg.get? structName).elim structName (·.name)
  { agg with
    failed := agg.failed ++ [structName]
    issues := agg.issues ++ [.conflict loc service conflict.message other] }

/-! ## Markers -/

/-- Enters a new service.  A name that an earlier service has puts both out. -/
def enter (agg : Aggregate) (service : Service) : Aggregate :=
  let owner := (agg.met.filter fun s => s.name == service.name).getLast?
  let agg := { agg with met := agg.met ++ [service] }
  match owner with
  | none => agg
  | some owner =>
      let agg := { agg with failed := agg.failed ++ [owner.structName] }
      agg.report service.structName service.loc (.duplicateName service.name)
        (some owner.loc.origin)

/-- The service a marker makes of a struct. -/
def serviceOf? (structName : String) (loc : Location) : Directive → Option Service
  | .service name =>
      some { name := name.getD structName, structName, isRouter := false, mountPath := "",
             fields := [], endpoints := [], imports := [], loc }
  | .router name mountPath =>
      some { name := name.getD structName, structName, isRouter := true, mountPath,
             fields := [], endpoints := [], imports := [], loc }
  | _ => none

/-- Reads a marker. -/
def addMarker (agg : Aggregate) (file : SourceFile) (a : Annotation) : Aggregate :=
  match a.target with
  | none => agg
  | some structName =>
      let loc := file.locate a.line
      match serviceOf? structName loc a.directive with
      | none => agg
      | some service =>
          match agg.get? structName with
          | some existing =>
              agg.report structName loc (.repeatedMarker structName) (some existing.loc.origin)
          | none => agg.enter service

/-! ## Fields -/

/-- The name of a dependency when none is given: the last name of the field's type. -/
def dependencyName (type : String) : String :=
  let base := trimStartWhere (fun c => c == '*' || c == '[' || c == ']') type.toList
  String.ofList (base.reverse.takeWhile (· != '.')).reverse

/-- Where a field directive makes a field get its value. -/
def originOf? (type : String) : Directive → Option (Except Conflict FieldOrigin)
  | .inject dependency => some (.ok (.inject (dependency.getD (dependencyName type))))
  | .config spec =>
      if spec.required = some true && spec.default.isSome then
        some (.error (.requiredWithDefault spec.key))
      else
        some (.ok (.config {
          key := spec.key
          default := spec.default
          required := spec.required.getD spec.default.isNone
          separator := spec.separator }))
  | _ => none

/-- The conflict of a second directive on a field. -/
def secondOrigin (field : String) (kind : DirectiveKind) : FieldOrigin → FieldOrigin → Conflict
  | .inject _, .config _ => .injectAndConfig field
  | .config _, .inject _ => .injectAndConfig field
  | _, _ => .repeatedDirective field kind.label

/-- Enters a field into the service of its struct. -/
def enterField (agg : Aggregate) (service : Service) (kind : DirectiveKind) (field : WiredField) :
    Aggregate :=
  match service.fields.find? fun f => f.name == field.name with
  | some earlier =>
      agg.report service.structName field.loc
        (secondOrigin field.name kind earlier.origin field.origin) (some earlier.loc.origin)
  | none => agg.modify service.structName fun s => { s with fields := s.fields ++ [field] }

/-- Reads a field directive. -/
def addField (agg : Aggregate) (file : SourceFile) (a : Annotation) : Aggregate :=
  match a.targetLine.bind file.index.fieldAt? with
  | none => agg
  | some field =>
      match field.names.head?, agg.get? field.owner with
      | some name, some service =>
          let loc := file.locate a.line
          match originOf? field.type a.directive with
          | none => agg
          | some (.error conflict) => agg.report field.owner loc conflict none
          | some (.ok origin) =>
              agg.enterField service a.directive.kind
                { name, type := .resolve field.type file.index, origin, loc }
      | _, _ => agg

/-! ## Routes -/

/-- The full path of a route below a mount path. -/
def joinRoute (mountPath path : String) : String :=
  if mountPath.toList.isEmpty then path
  else if path = "/" then mountPath
  else mountPath ++ path

/-- Results that fold into a response: none, one, or a value and an error. -/
def supportedResults : List String → Bool
  | [] => true
  | [_] => true
  | [_, last] => last == "error"
  | _ => false

/-- A parameter of a handler.  Without a usable name it is called by its position. -/
def endpointParam (index : DeclarationIndex) (position : Nat) (param : Param) : EndpointParam :=
  let name := if param.name = "" || param.name = "_" then s!"arg{position}" else param.name
  match after? "...".toList param.type.toList with
  | some element => ⟨name, .resolve (String.ofList element) index, true⟩
  | none => ⟨name, .resolve param.type index, false⟩

/-- The endpoint of a routed method. -/
def endpointOf (file : SourceFile) (service : Service) (spec : RouteSpec) (d : Declaration)
    (loc : Location) : Endpoint :=
  { method := spec.method
    path := joinRoute service.mountPath spec.path
    middleware := spec.middleware
    handler := d.name
    params := d.params.zipIdx.map fun (param, i) => endpointParam file.index i param
    results := d.results.map fun type => .resolve type file.index
    loc }

/-- The imports that an endpoint's types need. -/
def endpointImports (e : Endpoint) : List ImportEntry :=
  (e.params.map (·.type) ++ e.results).flatMap (·.imports)

/-- Adds imports that are not yet there. -/
def addImports (known more : List ImportEntry) : List ImportEntry :=
  more.foldl (fun known entry => if known.contains entry then known else known ++ [entry]) known

/-- Enters an endpoint into its service. -/
def enterEndpoint (agg : Aggregate) (service : Service) (e : Endpoint) : Aggregate :=
  match service.endpoints.find? fun r => r.method == e.method && r.path == e.path with
  | some earlier =>
      agg.report service.structName e.loc (.duplicateRoute e.method e.path)
        (some earlier.loc.origin)
  | none =>
      agg.modify service.structName fun s =>
        { s with
          endpoints := s.endpoints ++ [e]
          imports := addImports s.imports (endpointImports e) }

/-- Why a route on a receiver has no effect. -/
def routeIgnored? (receiver : String) : Option Service → Option String
  | none => some s!"receiver `{receiver}` has no @Router marker"
  | some service =>
      if service.isRouter then none
      else some s!"receiver `{receiver}` is a @Service; only @Router services expose routes"

/-- Reads a route directive on a method. -/
def addRouteOn (agg : Aggregate) (file : SourceFile) (spec : RouteSpec) (a : Annotation)
    (d : Declaration) (receiver : String) : Aggregate :=
  let loc := file.locate a.line
  let service := agg.get? receiver
  if service.isNone && agg.failed.contains receiver then agg
  else
    match routeIgnored? receiver service, service with
    | some reason, _ =>
        { agg with issues := agg.issues ++ [.ignored loc a.directive.label reason] }
    | none, some service =>
        if supportedResults d.results then
          agg.enterEndpoint service (endpointOf file service spec d loc)
        else agg.report receiver loc (.unsupportedResults d.name) none
    | none, none => agg

/-- Reads a route directive. -/
def addRoute (agg : Aggregate) (file : SourceFile) (spec : RouteSpec) (a : Annotation) :
    Aggregate :=
  match a.targetLine.bind file.index.declarationAt? with
  | none => agg
  | some d =>
      match d.receiver with
      | none => agg
      | some receiver => agg.addRouteOn file spec a d receiver

/-! ## All annotations -/

/-- Reads an annotation that is no marker. -/
def addMember (agg : Aggregate) (file : SourceFile) (a : Annotation) : Aggregate :=
  match a.directive with
  | .inject _ => agg.addField file a
  | .config _ => agg.addField file a
  | .route spec => agg.addRoute file spec a
  | _ => agg

/-- Reads the annotations of a folder's files: all markers, then everything else. -/
def ofFiles (contributions : List Contribution) : Aggregate :=
  let placed := contributions.flatMap fun c => c.annotations.map fun a => (c.file, a)
  let markers := placed.filter fun (_, a) => a.directive.isMarker
  let marked := markers.foldl (fun agg (file, a) => agg.addMarker file a) {}
  placed.foldl (fun agg (file, a) => agg.addMember file a) marked

/-- The services without conflict, by name. -/
def services (agg : Aggregate) : List Service :=
  (agg.met.filter fun s => !agg.failed.contains s.structName).mergeSort
    fun a b => (Ord.compare a.name b.name).isLE

end Aggregate

end ServiceWiring
