import Mathlib.Data.List.TakeWhile
import ServiceWiring.Proofs.Membership
import ServiceWiring.Proofs.ServiceText

/-!
# What a service is made of

What a service has is told from the directives that stand in front of its struct, its fields and its
methods, without the functions that read them: a field gets its value from the arguments of its
directive, and an endpoint its parts from the route and the signature of the method.

* `WiredField.FilledBy` — a field as its directive says;
* `CanBeSent`, `Endpoint.ServedBy` — an endpoint as its route and the method behind it say;
* `Service.MarkedBy`, `Service.MadeFrom` — a service as its marker and the directives of its struct
  say;
* `Service.Fits.madeFrom` — the members of a service without a clash.
-/

namespace ServiceWiring

open Aggregate Text

/-! ## Fields -/

/-- The last name of a type: what stands behind its last point, or behind the marks for pointers and
    lists if it has none. -/
inductive LastName : List Char → List Char → Prop where
  | qualified {front name : List Char} (hname : '.' ∉ name) :
      LastName (front ++ '.' :: name) name
  | plain {marks name : List Char} (hmarks : ∀ c ∈ marks, c ∈ ['*', '[', ']'])
      (hfirst : ∀ c ∈ name.head?, c ∉ ['*', '[', ']']) (hname : '.' ∉ name) :
      LastName (marks ++ name) name

/-- A dependency that is not named goes by the last name of the type of its field. -/
theorem lastName_dependencyName (type : String) :
    LastName type.toList (dependencyName type).toList := by
  let isMark : Char → Bool := fun c => c == '*' || c == '[' || c == ']'
  let base := type.toList.dropWhile isMark
  have hmarked : type.toList = type.toList.takeWhile isMark ++ base :=
    List.takeWhile_append_dropWhile.symm
  have hname : (dependencyName type).toList = (base.reverse.takeWhile (· != '.')).reverse := by
    rw [dependencyName, String.toList_ofList]
    rfl
  have hplain : '.' ∉ (base.reverse.takeWhile (· != '.')).reverse := by
    rw [List.mem_reverse]
    intro hmem
    exact absurd (List.mem_takeWhile_imp hmem) (by decide)
  have hbase : base = (base.reverse.dropWhile (· != '.')).reverse
      ++ (base.reverse.takeWhile (· != '.')).reverse := by
    rw [← List.reverse_append, List.takeWhile_append_dropWhile, List.reverse_reverse]
  rw [hname]
  cases hfront : base.reverse.dropWhile (· != '.') with
  | nil =>
      -- no point: the name is all that is left behind the marks
      rw [hfront, List.reverse_nil, List.nil_append] at hbase
      rw [hmarked, ← hbase]
      rw [← hbase] at hplain
      refine .plain ?_ ?_ hplain
      · intro c hc
        have hmark : isMark c = true := List.mem_takeWhile_imp hc
        simpa [isMark, or_assoc] using hmark
      · intro c hc hmark
        obtain ⟨tail, hbehind⟩ := List.head?_eq_some_iff.mp hc
        have hother : isMark c = false := not_of_dropWhile hbehind
        rw [show isMark c = true by simpa [isMark, or_assoc] using hmark] at hother
        cases hother
  | cons point front =>
      have hpoint : point = '.' := eq_of_dropWhile_ne hfront
      rw [hfront, hpoint, List.reverse_cons, List.append_assoc] at hbase
      rw [hmarked, hbase, ← List.append_assoc]
      rw [← hbase]
      exact .qualified hplain

/-- Where a field of a type gets its value by the arguments of its directive. -/
inductive FieldOrigin.ChosenBy (type : String) : Directive → FieldOrigin → Prop where
  | named (dependency : String) : ChosenBy type (.inject (some dependency)) (.inject dependency)
  | unnamed {dependency : String} (hname : LastName type.toList dependency.toList) :
      ChosenBy type (.inject none) (.inject dependency)
  | looked {spec : ConfigSpec} {lookup : ConfigLookup} (hkey : lookup.key = spec.key)
      (hdefault : lookup.default = spec.default) (hseparator : lookup.separator = spec.separator)
      (hrequired : lookup.required = true ↔
        spec.required = some true ∨ spec.required = none ∧ spec.default = none) :
      ChosenBy type (.config spec) (.config lookup)

/-- A field with what its directive says. -/
structure WiredField.FilledBy (f : WiredField) (d : FieldDirective) : Prop where
  name : f.name = d.name
  type : f.type = .resolve d.field.type d.file.index
  origin : f.origin.ChosenBy d.field.type d.annotation.directive
  loc : f.loc = d.file.locate d.annotation.line

theorem chosenBy_of_originOf? {type : String} {directive : Directive} {origin : FieldOrigin}
    (h : originOf? type directive = some (.ok origin)) : origin.ChosenBy type directive := by
  cases directive with
  | inject dependency =>
      obtain rfl := Except.ok.inj (Option.some.inj h)
      cases dependency with
      | some dependency => exact .named dependency
      | none => exact .unnamed (lastName_dependencyName type)
  | config spec =>
      rw [originOf?] at h
      split at h
      · cases h
      · obtain rfl := Except.ok.inj (Option.some.inj h)
        refine .looked rfl rfl rfl ?_
        cases spec.required with
        | none => simp
        | some required => simp
  | service _ => cases h
  | router _ _ => cases h
  | route _ => cases h

theorem FieldDirective.filledBy_of_wired? {d : FieldDirective} {f : WiredField}
    (h : d.wired? = some f) : f.FilledBy d := by
  rw [wired?] at h
  split at h
  · rename_i origin horigin
    obtain rfl := Option.some.inj h
    exact ⟨rfl, rfl, chosenBy_of_originOf? horigin, rfl⟩
  · cases h

/-! ## Endpoints -/

/-- The results of a method that an adapter can send: none, one, or a value and an error. -/
inductive CanBeSent : List String → Prop where
  | none : CanBeSent []
  | one (result : String) : CanBeSent [result]
  | both (value : String) : CanBeSent [value, "error"]

theorem supportedResults_iff {results : List String} :
    supportedResults results = true ↔ CanBeSent results := by
  constructor
  · intro h
    match results with
    | [] => exact .none
    | [result] => exact .one result
    | [value, last] =>
        rw [show last = "error" from beq_iff_eq.mp h]
        exact .both value
    | _ :: _ :: _ :: _ => cases h
  · intro h
    cases h with
    | none => rfl
    | one _ => rfl
    | both _ => rfl

/-- The full path of a route below a mount path. -/
inductive MountedAt : String → String → String → Prop where
  | unmounted (path : String) : MountedAt "" path path
  | root {mountPath : String} (hmount : mountPath ≠ "") : MountedAt mountPath "/" mountPath
  | below {mountPath path : String} (hmount : mountPath ≠ "") (hpath : path ≠ "/") :
      MountedAt mountPath path (mountPath ++ path)

/-- A parameter of an adapter as it is declared: under its name or, without a usable one, under its
    position, with its type or, if it takes any number of values, with their type. -/
structure EndpointParam.Declares (index : DeclarationIndex) (p : EndpointParam)
    (declared : Param × ℕ) : Prop where
  name : p.name = if declared.1.name ∈ ["", "_"] then s!"arg{declared.2}" else declared.1.name
  type : ∃ type : String, p.type = .resolve type index
    ∧ declared.1.type = (if p.variadic then "..." else "") ++ type
  plain : p.variadic = false → ¬ "...".toList <+: declared.1.type.toList

/-- An endpoint with what its route says, and the method behind it. -/
structure Endpoint.ServedBy (e : Endpoint) (mountPath : String) (r : RouteDirective) : Prop where
  method : e.method = r.spec.method
  path : MountedAt mountPath r.spec.path e.path
  middleware : e.middleware = r.spec.middleware
  handler : e.handler = r.method.name
  params : List.Forall₂ (EndpointParam.Declares r.file.index) e.params r.method.params.zipIdx
  results : e.results = r.method.results.map (.resolve · r.file.index)
  loc : e.loc = r.file.locate r.annotation.line

/-- The types of a handler: those of its parameters and those of its results. -/
def Endpoint.types (e : Endpoint) : List TypeExpr :=
  e.params.map (·.type) ++ e.results

theorem mountedAt_joinRoute (mountPath path : String) :
    MountedAt mountPath path (joinRoute mountPath path) := by
  rw [joinRoute]
  by_cases hmount : mountPath = ""
  · subst hmount
    exact .unmounted path
  · have hne : mountPath.toList.isEmpty = false := by
      simpa using hmount
    rw [hne, if_neg Bool.false_ne_true]
    by_cases hpath : path = "/"
    · rw [if_pos hpath, hpath]
      exact .root hmount
    · rw [if_neg hpath]
      exact .below hmount hpath

theorem declares_endpointParam (index : DeclarationIndex) (param : Param) (i : ℕ) :
    (endpointParam index i param).Declares index (param, i) := by
  have hname : (endpointParam index i param).name
      = if param.name ∈ ["", "_"] then s!"arg{i}" else param.name := by
    rw [endpointParam]
    simp only [Bool.or_eq_true, decide_eq_true_eq, List.mem_cons, List.not_mem_nil, or_false]
    split <;> rfl
  cases helement : after? "...".toList param.type.toList with
  | some element =>
      have hparam : endpointParam index i param
          = ⟨(endpointParam index i param).name, .resolve (String.ofList element) index, true⟩ := by
        rw [endpointParam, helement]
      refine ⟨hname, ⟨String.ofList element, ?_, ?_⟩, ?_⟩
      · rw [hparam]
      · rw [hparam]
        refine String.toList_inj.mp ?_
        rw [after?_eq_some_iff.mp helement]
        simp
      · rw [hparam]
        intro hvariadic
        cases hvariadic
  | none =>
      have hparam : endpointParam index i param
          = ⟨(endpointParam index i param).name, .resolve param.type index, false⟩ := by
        rw [endpointParam, helement]
      refine ⟨hname, ⟨param.type, ?_, ?_⟩, ?_⟩
      · rw [hparam]
      · rw [hparam]
        simp
      · rintro - ⟨element, hprefix⟩
        rw [after?_eq_some_iff.mpr hprefix.symm] at helement
        cases helement

theorem RouteDirective.servedBy_endpoint (r : RouteDirective) (marker : Service) :
    (r.endpoint marker).ServedBy marker.mountPath r where
  method := rfl
  path := mountedAt_joinRoute _ _
  middleware := rfl
  handler := rfl
  params := by
    show List.Forall₂ _ (r.method.params.zipIdx.map fun pair =>
      endpointParam r.file.index pair.2 pair.1) _
    rw [List.forall₂_map_left_iff, List.forall₂_same]
    rintro ⟨param, i⟩ -
    exact declares_endpointParam r.file.index param i
  results := rfl
  loc := rfl

/-! ## Services -/

/-- A service with what the marker in front of its struct says: the name that is given or that of
    the struct, and for a router the path that it is mounted at. -/
structure Service.MarkedBy (s : Service) (place : SourceFile × Annotation) : Prop where
  target : place.2.target = some s.structName
  loc : s.loc = place.1.locate place.2.line
  directive : ∃ given : Option String, s.name = given.getD s.structName ∧
    (s.isRouter = false ∧ s.mountPath = "" ∧ place.2.directive = .service given ∨
      s.isRouter = true ∧ place.2.directive = .router given s.mountPath)

theorem markedBy_of_markerService? {place : SourceFile × Annotation} {s : Service}
    (h : markerService? place = some s) : s.MarkedBy place := by
  obtain ⟨structName, htarget, h⟩ := Option.bind_eq_some_iff.mp h
  split at h
  · rename_i given hdirective
    obtain rfl := Option.some.inj h
    exact ⟨htarget, rfl, given, rfl, .inl ⟨rfl, rfl, hdirective⟩⟩
  · rename_i given mountPath hdirective
    obtain rfl := Option.some.inj h
    exact ⟨htarget, rfl, given, rfl, .inr ⟨rfl, hdirective⟩⟩
  · cases h

/-- A service has what its marker and the directives of its struct say, and nothing else. -/
structure Service.MadeFrom (places : List (SourceFile × Annotation)) (marker s : Service) :
    Prop where
  name : s.name = marker.name
  structName : s.structName = marker.structName
  isRouter : s.isRouter = marker.isRouter
  mountPath : s.mountPath = marker.mountPath
  marked : ∃ place ∈ places, s.MarkedBy place
  /-- The fields are those of the field directives, in their order. -/
  fields : List.Forall₂ WiredField.FilledBy s.fields (fieldsOf places s.structName)
  /-- The endpoints of a router are those of its routes, in their order. -/
  endpoints : s.isRouter = true →
    List.Forall₂ (fun e r => e.ServedBy s.mountPath r) s.endpoints (routesOf places s.structName)
  /-- Other services have no endpoints. -/
  unrouted : s.isRouter = false → s.endpoints = []
  /-- No two endpoints have one method and one full path. -/
  distinct : (s.endpoints.map fun e => (e.method, e.path)).Nodup
  /-- The imports are those that the types of the endpoints name. -/
  imports : ∀ entry, entry ∈ s.imports ↔
    ∃ e ∈ s.endpoints, ∃ type ∈ e.types, entry ∈ type.imports

theorem mem_foldl_addImports {endpoints : List Endpoint} {known : List ImportEntry}
    {entry : ImportEntry} :
    entry ∈ endpoints.foldl (fun known e => addImports known (endpointImports e)) known ↔
      entry ∈ known ∨ ∃ e ∈ endpoints, entry ∈ endpointImports e := by
  induction endpoints generalizing known with
  | nil => simp
  | cons e endpoints ih =>
      rw [List.foldl_cons, ih, mem_addImports_iff]
      simp [or_assoc]

/-- Directives that all fill their fields fill one field each. -/
theorem forall₂_wired? {fields : List FieldDirective}
    (h : ∀ d ∈ fields, d.wired?.isSome = true) :
    List.Forall₂ WiredField.FilledBy (fields.filterMap (·.wired?)) fields := by
  induction fields with
  | nil => exact .nil
  | cons d fields ih =>
      obtain ⟨f, hf⟩ := Option.isSome_iff_exists.mp (h d (List.mem_cons_self ..))
      rw [List.filterMap_cons_some hf]
      exact .cons (FieldDirective.filledBy_of_wired? hf)
        (ih fun d hd => h d (List.mem_cons_of_mem _ hd))

/-- The service of a marker with the members of its struct, when these do not clash. -/
theorem Service.Fits.madeFrom {places : List (SourceFile × Annotation)} {marker : Service}
    (hmarker : marker ∈ declared places)
    (h : marker.Fits (fieldsOf places marker.structName) (routesOf places marker.structName)) :
    marker.MadeFrom places (marker.withMembers (fieldsOf places marker.structName)
      (routesOf places marker.structName)) where
  name := rfl
  structName := rfl
  isRouter := rfl
  mountPath := rfl
  marked := by
    obtain ⟨place, hplace, hservice⟩ := List.mem_filterMap.mp hmarker
    obtain ⟨htarget, hloc, hdirective⟩ := markedBy_of_markerService? hservice
    exact ⟨place, hplace, htarget, hloc, hdirective⟩
  fields := forall₂_wired? h.wired
  endpoints := by
    intro hrouter
    have hendpoints : (marker.withMembers (fieldsOf places marker.structName)
        (routesOf places marker.structName)).endpoints
          = (routesOf places marker.structName).map (·.endpoint marker) :=
      if_pos hrouter
    rw [hendpoints, List.forall₂_map_left_iff]
    exact List.forall₂_same.mpr fun r _ => r.servedBy_endpoint marker
  unrouted := by
    intro hplain
    have hrouter : ¬ marker.isRouter = true := by
      rw [show marker.isRouter = false from hplain]
      exact Bool.false_ne_true
    exact if_neg hrouter
  distinct := by
    cases hrouter : marker.isRouter with
    | true =>
        rw [keys_withMembers _ _ hrouter]
        exact h.routes hrouter
    | false => simp [withMembers, hrouter]
  imports := by
    intro entry
    have hnames : ∀ e : Endpoint, entry ∈ endpointImports e
        ↔ ∃ type ∈ e.types, entry ∈ type.imports := fun e => List.mem_flatMap
    show entry ∈ List.foldl _ [] _ ↔ _
    rw [mem_foldl_addImports]
    simp [withMembers, hnames]

end ServiceWiring
