import Mathlib.Data.List.Nodup
import ServiceWiring.Proofs.Marking

/-!
# What the members of a struct give

Behind the markers every field directive and every route is read into the service of its struct.
As long as nothing clashes the service has exactly the fields and endpoints of the directives read
so far; the first clash puts the struct out for good.

* `FieldDirective`, `RouteDirective` — directives together with what they stand in front of;
* `Service.withMembers` — a service with the fields and endpoints of given directives;
* `Service.Fits` — given directives do not clash;
* `Aggregate.Filled`, `Aggregate.filled_ofFiles` — what becomes of a struct with a marker.
-/

namespace ServiceWiring

open Aggregate

/-! ## Directives and what they stand in front of -/

/-- A field directive in front of a field. -/
structure FieldDirective where
  file : SourceFile
  annotation : Annotation
  field : StructField
  name : String

/-- A route in front of a method. -/
structure RouteDirective where
  file : SourceFile
  annotation : Annotation
  spec : RouteSpec
  method : Declaration
  receiver : String

namespace FieldDirective

/-- An annotation as a field directive. -/
def of? (place : SourceFile × Annotation) : Option FieldDirective :=
  if place.2.directive.isFieldDirective then
    (place.2.targetLine.bind place.1.index.fieldAt?).bind fun field =>
      field.names.head?.map (⟨place.1, place.2, field, ·⟩)
  else none

theorem of?_eq_some_iff {place : SourceFile × Annotation} {d : FieldDirective} :
    of? place = some d ↔ place.2.directive.isFieldDirective = true ∧ ∃ field name,
      place.2.targetLine.bind place.1.index.fieldAt? = some field ∧
        field.names.head? = some name ∧ d = ⟨place.1, place.2, field, name⟩ := by
  constructor
  · intro h
    unfold of? at h
    split at h
    · rename_i hfield
      obtain ⟨field, htarget, h⟩ := Option.bind_eq_some_iff.mp h
      obtain ⟨name, hname, rfl⟩ := Option.map_eq_some_iff.mp h
      exact ⟨hfield, field, name, htarget, hname, rfl⟩
    · cases h
  · rintro ⟨hfield, field, name, htarget, hname, rfl⟩
    simp [of?, hfield, htarget, hname]

/-- The place of the directive. -/
def loc (d : FieldDirective) : Location :=
  d.file.locate d.annotation.line

/-- The field as the directive fills it.  A configuration value that is required and has a default
    fills none. -/
def wired? (d : FieldDirective) : Option WiredField :=
  match originOf? d.field.type d.annotation.directive with
  | some (.ok origin) => some ⟨d.name, .resolve d.field.type d.file.index, origin, d.loc⟩
  | _ => none

theorem name_of_wired? {d : FieldDirective} {f : WiredField} (h : d.wired? = some f) :
    f.name = d.name := by
  unfold wired? at h
  split at h
  · rw [← Option.some.inj h]
  · cases h

end FieldDirective

namespace RouteDirective

/-- An annotation as a route. -/
def of? (place : SourceFile × Annotation) : Option RouteDirective :=
  match place.2.directive with
  | .route spec =>
      (place.2.targetLine.bind place.1.index.declarationAt?).bind fun method =>
        method.receiver.map (⟨place.1, place.2, spec, method, ·⟩)
  | _ => none

theorem of?_eq_some_iff {place : SourceFile × Annotation} {r : RouteDirective} :
    of? place = some r ↔ ∃ spec method receiver, place.2.directive = .route spec ∧
      place.2.targetLine.bind place.1.index.declarationAt? = some method ∧
        method.receiver = some receiver ∧ r = ⟨place.1, place.2, spec, method, receiver⟩ := by
  constructor
  · intro h
    unfold of? at h
    split at h
    · rename_i spec hroute
      obtain ⟨method, htarget, h⟩ := Option.bind_eq_some_iff.mp h
      obtain ⟨receiver, hreceiver, rfl⟩ := Option.map_eq_some_iff.mp h
      exact ⟨spec, method, receiver, hroute, htarget, hreceiver, rfl⟩
    · cases h
  · rintro ⟨spec, method, receiver, hroute, htarget, hreceiver, rfl⟩
    simp [of?, hroute, htarget, hreceiver]

/-- The place of the directive. -/
def loc (r : RouteDirective) : Location :=
  r.file.locate r.annotation.line

/-- The endpoint that the route gives a service. -/
def endpoint (r : RouteDirective) (service : Service) : Endpoint :=
  endpointOf r.file service r.spec r.method r.loc

/-- Method and full path of the endpoint. -/
def key (r : RouteDirective) (service : Service) : String × String :=
  (r.spec.method, joinRoute service.mountPath r.spec.path)

end RouteDirective

/-- A route is no field directive. -/
theorem RouteDirective.of?_of_field {place : SourceFile × Annotation} {d : FieldDirective}
    (h : FieldDirective.of? place = some d) : RouteDirective.of? place = none := by
  obtain ⟨hfield, -⟩ := FieldDirective.of?_eq_some_iff.mp h
  rw [Option.eq_none_iff_forall_ne_some]
  intro r hr
  obtain ⟨spec, _, _, hroute, -⟩ := RouteDirective.of?_eq_some_iff.mp hr
  rw [hroute] at hfield
  cases hfield

/-! ## Services with members -/

namespace Service

variable {marker : Service} {fields : List FieldDirective} {routes : List RouteDirective}

/-- A service with the fields and endpoints that directives give it. -/
def withMembers (marker : Service) (fields : List FieldDirective) (routes : List RouteDirective) :
    Service :=
  let endpoints := if marker.isRouter then routes.map (·.endpoint marker) else []
  { marker with
    fields := fields.filterMap (·.wired?)
    endpoints
    imports := endpoints.foldl (fun known e => addImports known (endpointImports e)) [] }

/-- The directives of a service do not clash: each fills its field, and no field twice; the routes
    of a router have results that can be sent, and differ from each other. -/
structure Fits (marker : Service) (fields : List FieldDirective) (routes : List RouteDirective) :
    Prop where
  wired : ∀ d ∈ fields, d.wired?.isSome = true
  names : (fields.map (·.name)).Nodup
  results : marker.isRouter = true → ∀ r ∈ routes, supportedResults r.method.results = true
  routes : marker.isRouter = true → (routes.map (·.key marker)).Nodup

/-- One more element keeps a list free of equal values exactly if its own value is new. -/
theorem nodup_map_concat {α β : Type} {f : α → β} {l : List α} {x : α} :
    ((l ++ [x]).map f).Nodup ↔ (l.map f).Nodup ∧ f x ∉ l.map f := by
  rw [List.map_append, List.map_singleton, ← List.concat_eq_append, List.nodup_concat, and_comm]

theorem fits_nil (marker : Service) : marker.Fits [] [] :=
  ⟨by simp, by simp, by simp, by simp⟩

theorem fits_field {d : FieldDirective} : marker.Fits (fields ++ [d]) routes ↔
    marker.Fits fields routes ∧ d.wired?.isSome = true ∧ d.name ∉ fields.map (·.name) := by
  constructor
  · intro h
    obtain ⟨hwired, hlast⟩ := List.forall_mem_append.mp h.wired
    obtain ⟨hnames, hname⟩ := nodup_map_concat.mp h.names
    exact ⟨⟨hwired, hnames, h.results, h.routes⟩, hlast d (List.mem_singleton_self d), hname⟩
  · rintro ⟨h, hlast, hname⟩
    have hwired := List.forall_mem_append.mpr ⟨h.wired, List.forall_mem_singleton.mpr hlast⟩
    exact ⟨hwired, nodup_map_concat.mpr ⟨h.names, hname⟩, h.results, h.routes⟩

theorem fits_route {r : RouteDirective} : marker.Fits fields (routes ++ [r]) ↔
    marker.Fits fields routes ∧ (marker.isRouter = true →
      supportedResults r.method.results = true ∧ r.key marker ∉ routes.map (·.key marker)) := by
  constructor
  · intro h
    have hresults := fun hrouter => List.forall_mem_append.mp (h.results hrouter)
    have hroutes := fun hrouter => nodup_map_concat.mp (h.routes hrouter)
    refine ⟨⟨h.wired, h.names, fun hrouter => (hresults hrouter).1,
      fun hrouter => (hroutes hrouter).1⟩, ?_⟩
    intro hrouter
    exact ⟨(hresults hrouter).2 r (List.mem_singleton_self r), (hroutes hrouter).2⟩
  · rintro ⟨h, hr⟩
    refine ⟨h.wired, h.names, ?_, ?_⟩
    · intro hrouter
      have hlast : ∀ r' ∈ [r], supportedResults r'.method.results = true :=
        List.forall_mem_singleton.mpr (hr hrouter).1
      exact List.forall_mem_append.mpr ⟨h.results hrouter, hlast⟩
    · intro hrouter
      exact nodup_map_concat.mpr ⟨h.routes hrouter, (hr hrouter).2⟩

theorem withMembers_nil (hfields : marker.fields = []) (hendpoints : marker.endpoints = [])
    (himports : marker.imports = []) : marker.withMembers [] [] = marker := by
  obtain ⟨name, structName, isRouter, mountPath, fields, endpoints, imports, loc⟩ := marker
  dsimp only at hfields hendpoints himports
  subst hfields hendpoints himports
  cases isRouter <;> rfl

theorem withMembers_field {d : FieldDirective} {f : WiredField} (h : d.wired? = some f) :
    marker.withMembers (fields ++ [d]) routes = { marker.withMembers fields routes with
      fields := (marker.withMembers fields routes).fields ++ [f] } := by
  simp [withMembers, List.filterMap_append, h]

theorem withMembers_route (hrouter : marker.isRouter = true) (r : RouteDirective) :
    marker.withMembers fields (routes ++ [r]) = { marker.withMembers fields routes with
      endpoints := (marker.withMembers fields routes).endpoints ++ [r.endpoint marker]
      imports := addImports (marker.withMembers fields routes).imports
        (endpointImports (r.endpoint marker)) } := by
  simp [withMembers, hrouter, List.foldl_append]

theorem withMembers_plain (hplain : marker.isRouter = false) (more : List RouteDirective) :
    marker.withMembers fields more = marker.withMembers fields routes := by
  simp [withMembers, hplain]

/-- What can be seen of the values that a list gives, if each of its elements gives one. -/
theorem map_filterMap_of_forall {α β γ : Type} {f : α → Option β} {g : β → γ} {k : α → γ}
    {l : List α} (h : ∀ x ∈ l, (f x).map g = some (k x)) : (l.filterMap f).map g = l.map k := by
  induction l with
  | nil => rfl
  | cons x l ih =>
      obtain ⟨y, hy, hg⟩ := Option.map_eq_some_iff.mp (h x (List.mem_cons_self ..))
      rw [List.filterMap_cons_some hy, List.map_cons, List.map_cons, hg,
        ih fun z hz => h z (List.mem_cons_of_mem x hz)]

/-- The fields of a service are those that its directives name. -/
theorem names_withMembers (marker : Service) (routes : List RouteDirective)
    (h : ∀ d ∈ fields, d.wired?.isSome = true) :
    (marker.withMembers fields routes).fields.map (·.name) = fields.map (·.name) := by
  refine map_filterMap_of_forall ?_
  intro d hd
  obtain ⟨f, hf⟩ := Option.isSome_iff_exists.mp (h d hd)
  rw [hf, Option.map_some, FieldDirective.name_of_wired? hf]

theorem keys_withMembers (fields : List FieldDirective) (routes : List RouteDirective)
    (hrouter : marker.isRouter = true) :
    (marker.withMembers fields routes).endpoints.map (fun e => (e.method, e.path))
      = routes.map (·.key marker) := by
  simp only [withMembers, hrouter, if_true, List.map_map]
  rfl

end Service

/-! ## Reading one member -/

namespace Aggregate

variable {agg agg' : Aggregate} {structName : String} {service marker : Service}
  {file : SourceFile} {a : Annotation} {place : SourceFile × Annotation}
  {places : List (SourceFile × Annotation)}

/-- The service of a struct, and whether it is out, stay as they are. -/
structure Leaves (structName : String) (agg agg' : Aggregate) : Prop where
  met : agg'.get? structName = agg.get? structName
  failed : structName ∈ agg'.failed ↔ structName ∈ agg.failed

theorem Leaves.refl (structName : String) (agg : Aggregate) : Leaves structName agg agg :=
  ⟨rfl, Iff.rfl⟩

theorem leaves_report {other : String} (h : other ≠ structName) (agg : Aggregate) (loc : Location)
    (conflict : Conflict) (origin : Option String) :
    Leaves structName agg (agg.report other loc conflict origin) := by
  refine ⟨rfl, ?_⟩
  show structName ∈ agg.failed ++ [other] ↔ _
  simp [Ne.symm h]

theorem leaves_modify {other : String} (h : other ≠ structName) (agg : Aggregate)
    {f : Service → Service} (hf : ∀ s : Service, s.Extends (f s)) :
    Leaves structName agg (agg.modify other f) := by
  refine ⟨?_, Iff.rfl⟩
  rw [get?_modify agg hf]
  cases hget : agg.get? structName with
  | none => rfl
  | some service =>
      have hne : service.structName ≠ other := by
        rw [structName_of_get? hget]
        exact Ne.symm h
      simp [hne]

/-- A field is added, or it is filled already. -/
theorem enterField_cases (hservice : agg.get? structName = some service) (kind : DirectiveKind)
    (f : WiredField) :
    (f.name ∈ service.fields.map (·.name) ∧ ∃ conflict other,
      agg.enterField service kind f = agg.report structName f.loc conflict other) ∨
    f.name ∉ service.fields.map (·.name) ∧ agg.enterField service kind f
      = agg.modify structName fun s => { s with fields := s.fields ++ [f] } := by
  unfold enterField
  rw [structName_of_get? hservice]
  cases hfind : service.fields.find? fun g => g.name == f.name with
  | some earlier =>
      refine Or.inl ⟨?_, _, _, rfl⟩
      exact List.mem_map.mpr ⟨earlier, List.mem_of_find?_eq_some hfind,
        eq_of_beq (List.find?_some hfind :)⟩
  | none =>
      refine Or.inr ⟨?_, rfl⟩
      intro hmem
      obtain ⟨g, hg, hname⟩ := List.mem_map.mp hmem
      exact List.find?_eq_none.mp hfind g hg (beq_iff_eq.mpr hname)

/-- An endpoint is added, or there is one for its route already. -/
theorem enterEndpoint_cases (hservice : agg.get? structName = some service) (e : Endpoint) :
    ((e.method, e.path) ∈ service.endpoints.map (fun e => (e.method, e.path)) ∧
      ∃ conflict other,
        agg.enterEndpoint service e = agg.report structName e.loc conflict other) ∨
    (e.method, e.path) ∉ service.endpoints.map (fun e => (e.method, e.path)) ∧
      agg.enterEndpoint service e = agg.modify structName fun s =>
        { s with
          endpoints := s.endpoints ++ [e]
          imports := addImports s.imports (endpointImports e) } := by
  unfold enterEndpoint
  rw [structName_of_get? hservice]
  cases hfind : service.endpoints.find? fun r => r.method == e.method && r.path == e.path with
  | some earlier =>
      refine Or.inl ⟨?_, _, _, rfl⟩
      have hsame := List.find?_some hfind
      simp only [Bool.and_eq_true, beq_iff_eq] at hsame
      exact List.mem_map.mpr ⟨earlier, List.mem_of_find?_eq_some hfind, Prod.ext hsame.1 hsame.2⟩
  | none =>
      refine Or.inr ⟨?_, rfl⟩
      intro hmem
      obtain ⟨r, hr, hkey⟩ := List.mem_map.mp hmem
      obtain ⟨hmethod, hpath⟩ := Prod.mk.inj hkey
      exact List.find?_eq_none.mp hfind r hr (by simp [hmethod, hpath])

/-- What reading a field directive does: it cannot fill a field, its field is filled already, or
    the field is added. -/
theorem addMember_field {d : FieldDirective} (hd : FieldDirective.of? (file, a) = some d)
    (howner : d.field.owner = structName) (hservice : agg.get? structName = some service) :
    (d.wired? = none ∧ ∃ conflict, agg.addMember file a
        = agg.report structName d.loc conflict none) ∨
    ∃ f, d.wired? = some f ∧
      ((d.name ∈ service.fields.map (·.name) ∧ ∃ conflict other,
          agg.addMember file a = agg.report structName d.loc conflict other) ∨
        d.name ∉ service.fields.map (·.name) ∧ agg.addMember file a
          = agg.modify structName fun s => { s with fields := s.fields ++ [f] }) := by
  subst howner
  obtain ⟨hfield, field, name, htarget, hname, rfl⟩ := FieldDirective.of?_eq_some_iff.mp hd
  rw [addMember_of_field agg file hfield]
  dsimp only at htarget hservice ⊢
  cases horigin : originOf? field.type a.directive with
  | none => exact absurd horigin (originOf?_ne_none field.type hfield)
  | some origin =>
      cases origin with
      | error conflict =>
          refine Or.inl ⟨?_, conflict, ?_⟩
          · simp [FieldDirective.wired?, horigin]
          · simp [addField, FieldDirective.loc, htarget, hname, hservice, horigin]
      | ok origin =>
          refine Or.inr
            ⟨⟨name, .resolve field.type file.index, origin, file.locate a.line⟩, ?_, ?_⟩
          · simp [FieldDirective.wired?, FieldDirective.loc, horigin]
          · have hentered : agg.addField file a = agg.enterField service a.directive.kind
                ⟨name, .resolve field.type file.index, origin, file.locate a.line⟩ := by
              simp [addField, htarget, hname, hservice, horigin]
            rw [hentered]
            exact enterField_cases hservice a.directive.kind
              ⟨name, .resolve field.type file.index, origin, file.locate a.line⟩

/-- What reading a route does: a service that is no router ignores it; for a router its results
    cannot be sent, it is there already, or its endpoint is added. -/
theorem addMember_route {r : RouteDirective} (hr : RouteDirective.of? (file, a) = some r)
    (hreceiver : r.receiver = structName) (hservice : agg.get? structName = some service) :
    (service.isRouter = false ∧ Leaves structName agg (agg.addMember file a)) ∨
    service.isRouter = true ∧
      ((supportedResults r.method.results = false ∧ ∃ conflict, agg.addMember file a
          = agg.report structName r.loc conflict none) ∨
        supportedResults r.method.results = true ∧
          ((r.key service ∈ service.endpoints.map (fun e => (e.method, e.path)) ∧
            ∃ conflict other, agg.addMember file a
              = agg.report structName r.loc conflict other) ∨
          r.key service ∉ service.endpoints.map (fun e => (e.method, e.path)) ∧
            agg.addMember file a = agg.modify structName fun s =>
              { s with
                endpoints := s.endpoints ++ [r.endpoint service]
                imports := addImports s.imports (endpointImports (r.endpoint service)) })) := by
  subst hreceiver
  obtain ⟨spec, d, receiver, hspec, htarget, hreceiver, rfl⟩ :=
    RouteDirective.of?_eq_some_iff.mp hr
  dsimp only at hspec htarget hservice ⊢
  have hread : agg.addMember file a = agg.addRouteOn file spec a d receiver := by
    simp only [addMember, hspec, addRoute, htarget, hreceiver]
  rw [hread]
  unfold addRouteOn
  dsimp only
  rw [hservice]
  cases hrouter : service.isRouter with
  | false =>
      simp only [routeIgnored?, hrouter]
      exact Or.inl ⟨trivial, rfl, Iff.rfl⟩
  | true =>
      refine Or.inr ⟨rfl, ?_⟩
      simp only [routeIgnored?, hrouter, Option.isNone_some, Bool.false_and, if_true]
      cases hresults : supportedResults d.results with
      | false => exact Or.inl ⟨rfl, _, rfl⟩
      | true =>
          exact Or.inr ⟨rfl, enterEndpoint_cases hservice
            (endpointOf file service spec d (file.locate a.line))⟩

theorem leaves_addField (agg : Aggregate)
    (h : ∀ field name, a.targetLine.bind file.index.fieldAt? = some field →
      field.names.head? = some name → field.owner ≠ structName) :
    Leaves structName agg (agg.addField file a) := by
  unfold addField
  split
  · exact .refl structName agg
  · rename_i field htarget
    split
    · rename_i name service hname hservice
      have hne := h field name htarget hname
      dsimp only
      split
      · exact .refl structName agg
      · exact leaves_report hne agg _ _ _
      · rename_i origin _
        rcases enterField_cases hservice a.directive.kind
          ⟨name, .resolve field.type file.index, origin, file.locate a.line⟩ with
          ⟨-, conflict, other, heq⟩ | ⟨-, heq⟩
        · rw [heq]
          exact leaves_report hne agg _ _ _
        · rw [heq]
          exact leaves_modify hne agg fun s => s.extends_fields _
    · exact .refl structName agg

theorem leaves_addRoute (agg : Aggregate) (spec : RouteSpec)
    (h : ∀ d receiver, a.targetLine.bind file.index.declarationAt? = some d →
      d.receiver = some receiver → receiver ≠ structName) :
    Leaves structName agg (agg.addRoute file spec a) := by
  unfold addRoute
  split
  · exact .refl structName agg
  · rename_i d htarget
    split
    · exact .refl structName agg
    · rename_i receiver hreceiver
      have hne := h d receiver htarget hreceiver
      unfold addRouteOn
      dsimp only
      split
      · exact .refl structName agg
      · split
        · exact ⟨rfl, Iff.rfl⟩
        · rename_i service _ hservice
          split
          · rcases enterEndpoint_cases hservice
              (endpointOf file service spec d (file.locate a.line)) with
              ⟨-, conflict, other, heq⟩ | ⟨-, heq⟩
            · rw [heq]
              exact leaves_report hne agg _ _ _
            · rw [heq]
              exact leaves_modify hne agg fun s => s.extends_endpoints _ _
          · exact leaves_report hne agg _ _ _
        · exact .refl structName agg

/-- A struct is left alone by the members of other structs. -/
theorem leaves_addMember (agg : Aggregate)
    (hfield : ∀ d, FieldDirective.of? (file, a) = some d → d.field.owner ≠ structName)
    (hroute : ∀ r, RouteDirective.of? (file, a) = some r → r.receiver ≠ structName) :
    Leaves structName agg (agg.addMember file a) := by
  by_cases hkind : a.directive.isFieldDirective = true
  · rw [addMember_of_field agg file hkind]
    refine leaves_addField agg ?_
    intro field name htarget hname
    exact hfield ⟨file, a, field, name⟩
      (FieldDirective.of?_eq_some_iff.mpr ⟨hkind, field, name, htarget, hname, rfl⟩)
  · unfold addMember
    cases hd : a.directive with
    | route spec =>
        refine leaves_addRoute agg spec ?_
        intro d receiver htarget hreceiver
        exact hroute ⟨file, a, spec, d, receiver⟩
          (RouteDirective.of?_eq_some_iff.mpr ⟨spec, d, receiver, hd, htarget, hreceiver, rfl⟩)
    | inject dependency => exact absurd (congrArg Directive.isFieldDirective hd) hkind
    | config spec => exact absurd (congrArg Directive.isFieldDirective hd) hkind
    | service explicit => exact .refl structName agg
    | router explicit mountPath => exact .refl structName agg

end Aggregate

/-! ## Reading all members -/

namespace Aggregate

variable {agg agg' : Aggregate} {structName : String} {marker : Service}
  {place : SourceFile × Annotation} {places : List (SourceFile × Annotation)}

/-- The field directives of a struct. -/
def fieldsOf (places : List (SourceFile × Annotation)) (structName : String) :
    List FieldDirective :=
  (places.filterMap FieldDirective.of?).filter (·.field.owner == structName)

/-- The routes of a struct. -/
def routesOf (places : List (SourceFile × Annotation)) (structName : String) :
    List RouteDirective :=
  (places.filterMap RouteDirective.of?).filter (·.receiver == structName)

theorem mem_fieldsOf_iff {d : FieldDirective} : d ∈ fieldsOf places structName ↔
    (∃ place ∈ places, FieldDirective.of? place = some d) ∧ d.field.owner = structName := by
  rw [fieldsOf, List.mem_filter, List.mem_filterMap, beq_iff_eq]

theorem mem_routesOf_iff {r : RouteDirective} : r ∈ routesOf places structName ↔
    (∃ place ∈ places, RouteDirective.of? place = some r) ∧ r.receiver = structName := by
  rw [routesOf, List.mem_filter, List.mem_filterMap, beq_iff_eq]

/-- What becomes of a struct with a marker: while its members fit, its service has them all; from
    the first clash on it is out. -/
def Filled (marked : Aggregate) (marker : Service) (places : List (SourceFile × Annotation))
    (agg : Aggregate) : Prop :=
  let fields := fieldsOf places marker.structName
  let routes := routesOf places marker.structName
  (marker.Fits fields routes ∧
      agg.get? marker.structName = some (marker.withMembers fields routes) ∧
      (marker.structName ∈ agg.failed ↔ marker.structName ∈ marked.failed)) ∨
    ¬ marker.Fits fields routes ∧ marker.structName ∈ agg.failed

theorem MemberStep.failed {file : SourceFile} {a : Annotation} (h : MemberStep file a agg agg') :
    agg.failed ⊆ agg'.failed := by
  cases h with
  | stay => exact List.Subset.refl _
  | conflict _ _ _ => exact List.subset_append_left _ _
  | warning _ _ => exact List.Subset.refl _
  | field _ _ _ _ => exact List.Subset.refl _
  | endpoint _ _ _ _ => exact List.Subset.refl _

theorem fieldsOf_concat_of_ne
    (h : ∀ d, FieldDirective.of? place = some d → d.field.owner ≠ structName) :
    fieldsOf (places ++ [place]) structName = fieldsOf places structName := by
  rw [fieldsOf, List.filterMap_append, List.filter_append]
  cases hd : FieldDirective.of? place with
  | none => simp [hd, fieldsOf]
  | some d => simp [hd, fieldsOf, h d hd]

theorem fieldsOf_concat {d : FieldDirective} (h : FieldDirective.of? place = some d)
    (howner : d.field.owner = structName) :
    fieldsOf (places ++ [place]) structName = fieldsOf places structName ++ [d] := by
  simp [fieldsOf, List.filterMap_append, List.filter_append, h, howner]

theorem routesOf_concat_of_ne
    (h : ∀ r, RouteDirective.of? place = some r → r.receiver ≠ structName) :
    routesOf (places ++ [place]) structName = routesOf places structName := by
  rw [routesOf, List.filterMap_append, List.filter_append]
  cases hr : RouteDirective.of? place with
  | none => simp [hr, routesOf]
  | some r => simp [hr, routesOf, h r hr]

theorem routesOf_concat {r : RouteDirective} (h : RouteDirective.of? place = some r)
    (hreceiver : r.receiver = structName) :
    routesOf (places ++ [place]) structName = routesOf places structName ++ [r] := by
  simp [routesOf, List.filterMap_append, List.filter_append, h, hreceiver]

theorem mem_failed_report (agg : Aggregate) (structName : String) (loc : Location)
    (conflict : Conflict) (other : Option String) :
    structName ∈ (agg.report structName loc conflict other).failed :=
  List.mem_append_right _ (List.mem_singleton_self _)

theorem Filled.field {marked : Aggregate} (h : Filled marked marker places agg)
    {d : FieldDirective} (hd : FieldDirective.of? place = some d)
    (howner : d.field.owner = marker.structName) :
    Filled marked marker (places ++ [place]) (agg.addMember place.1 place.2) := by
  have hroutes : routesOf (places ++ [place]) marker.structName
      = routesOf places marker.structName := by
    refine routesOf_concat_of_ne ?_
    intro r hr
    cases hr.symm.trans (RouteDirective.of?_of_field hd)
  unfold Filled
  dsimp only
  rw [fieldsOf_concat hd howner, hroutes]
  rcases h with ⟨hfits, hget, hfailed⟩ | ⟨hclash, hout⟩
  · have hnames := Service.names_withMembers marker (routesOf places marker.structName) hfits.wired
    rcases addMember_field hd howner hget with
      ⟨hwired, conflict, heq⟩ | ⟨f, hwired, ⟨hname, conflict, other, heq⟩ | ⟨hname, heq⟩⟩
    · refine Or.inr ⟨?_, ?_⟩
      · intro hfits'
        have hsome := (Service.fits_field.mp hfits').2.1
        rw [hwired] at hsome
        cases hsome
      · rw [heq]
        exact mem_failed_report ..
    · -- the field has its value from an earlier directive
      rw [hnames] at hname
      refine Or.inr ⟨fun hfits' => (Service.fits_field.mp hfits').2.2 hname, ?_⟩
      rw [heq]
      exact mem_failed_report ..
    · rw [hnames] at hname
      rw [heq]
      refine Or.inl ⟨?_, ?_, hfailed⟩
      · exact Service.fits_field.mpr ⟨hfits, by rw [hwired]; rfl, hname⟩
      · rw [Service.withMembers_field hwired]
        exact get?_modify_self (fun s => s.extends_fields _) hget
  · -- what is out stays out
    refine Or.inr ⟨fun hfits' => hclash (Service.fits_field.mp hfits').1, ?_⟩
    exact (memberStep_addMember agg place.1 place.2).failed hout

theorem Filled.route {marked : Aggregate} (h : Filled marked marker places agg)
    {r : RouteDirective} (hr : RouteDirective.of? place = some r)
    (hreceiver : r.receiver = marker.structName) :
    Filled marked marker (places ++ [place]) (agg.addMember place.1 place.2) := by
  have hfields : fieldsOf (places ++ [place]) marker.structName
      = fieldsOf places marker.structName := by
    refine fieldsOf_concat_of_ne ?_
    intro d hd
    cases hr.symm.trans (RouteDirective.of?_of_field hd)
  unfold Filled
  dsimp only
  rw [routesOf_concat hr hreceiver, hfields]
  rcases h with ⟨hfits, hget, hfailed⟩ | ⟨hclash, hout⟩
  · rcases addMember_route hr hreceiver hget with ⟨hplain, hleaves⟩ | ⟨hrouter, hcases⟩
    · change marker.isRouter = false at hplain
      refine Or.inl ⟨?_, ?_, hleaves.failed.trans hfailed⟩
      · refine Service.fits_route.mpr ⟨hfits, ?_⟩
        intro hrouter
        cases hrouter.symm.trans hplain
      · rw [hleaves.met, hget, Service.withMembers_plain hplain]
    · change marker.isRouter = true at hrouter
      have hkeys := Service.keys_withMembers (fieldsOf places marker.structName)
        (routesOf places marker.structName) hrouter
      rcases hcases with
        ⟨hresults, conflict, heq⟩ | ⟨hresults, ⟨hkey, conflict, other, heq⟩ | ⟨hkey, heq⟩⟩
      · refine Or.inr ⟨?_, ?_⟩
        · intro hfits'
          cases hresults.symm.trans ((Service.fits_route.mp hfits').2 hrouter).1
        · rw [heq]
          exact mem_failed_report ..
      · -- an earlier route has the method and the path
        rw [hkeys] at hkey
        refine Or.inr ⟨fun hfits' => ((Service.fits_route.mp hfits').2 hrouter).2 hkey, ?_⟩
        rw [heq]
        exact mem_failed_report ..
      · rw [hkeys] at hkey
        rw [heq]
        refine Or.inl ⟨?_, ?_, hfailed⟩
        · exact Service.fits_route.mpr ⟨hfits, fun _ => ⟨hresults, hkey⟩⟩
        · rw [Service.withMembers_route hrouter]
          exact get?_modify_self (fun s => s.extends_endpoints _ _) hget
  · refine Or.inr ⟨fun hfits' => hclash (Service.fits_route.mp hfits').1, ?_⟩
    exact (memberStep_addMember agg place.1 place.2).failed hout

/-- What one more member does to a struct with a marker. -/
theorem Filled.addMember {marked : Aggregate} (h : Filled marked marker places agg)
    (place : SourceFile × Annotation) :
    Filled marked marker (places ++ [place]) (agg.addMember place.1 place.2) := by
  by_cases hfield : ∃ d, FieldDirective.of? place = some d ∧ d.field.owner = marker.structName
  · obtain ⟨d, hd, howner⟩ := hfield
    exact h.field hd howner
  · by_cases hroute : ∃ r, RouteDirective.of? place = some r ∧ r.receiver = marker.structName
    · obtain ⟨r, hr, hreceiver⟩ := hroute
      exact h.route hr hreceiver
    · have hfield' : ∀ d, FieldDirective.of? place = some d → d.field.owner ≠ marker.structName :=
        fun d hd howner => hfield ⟨d, hd, howner⟩
      have hroute' : ∀ r, RouteDirective.of? place = some r → r.receiver ≠ marker.structName :=
        fun r hr hreceiver => hroute ⟨r, hr, hreceiver⟩
      have hleaves := leaves_addMember agg hfield' hroute'
      unfold Filled
      dsimp only
      rw [fieldsOf_concat_of_ne hfield', routesOf_concat_of_ne hroute', hleaves.met,
        hleaves.failed]
      exact h

theorem filled_nil {marked : Aggregate} (hmarker : marked.get? marker.structName = some marker)
    (hfields : marker.fields = []) (hendpoints : marker.endpoints = [])
    (himports : marker.imports = []) : Filled marked marker [] marked := by
  refine Or.inl ⟨marker.fits_nil, ?_, Iff.rfl⟩
  rw [hmarker]
  exact congrArg some (Service.withMembers_nil hfields hendpoints himports).symm

/-- What becomes of a struct whose first marker is given. -/
theorem filled_ofFiles {contributions : List Contribution}
    (hmarker : firstOf? (declared (placed contributions)) structName = some marker) :
    Filled (marked contributions) marker (placed contributions) (ofFiles contributions) := by
  obtain rfl := structName_of_firstOf? hmarker
  have hmarked := marked_marks contributions
  obtain ⟨hfields, hendpoints, himports⟩ :=
    bare_of_mem_declared (List.mem_of_find?_eq_some hmarker)
  have hrun : ∀ places, Filled (marked contributions) marker places
      (places.foldl (fun agg place => agg.addMember place.1 place.2) (marked contributions)) := by
    intro places
    induction places using List.reverseRecOn with
    | nil => exact filled_nil ((hmarked.met _).trans hmarker) hfields hendpoints himports
    | append_singleton places place ih =>
        rw [List.foldl_append]
        exact ih.addMember place
  exact hrun (placed contributions)

end Aggregate

end ServiceWiring
