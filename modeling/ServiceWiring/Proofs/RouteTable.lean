import ServiceWiring.Proofs.ConflictFree

/-!
# The route table of a folder

An endpoint is bound to the full path of its route: the path that was written, behind the path that
its router is mounted at.  Directives that can be read fit together here.  A mount path does not end
with a slash and a route starts with one, so every full path starts with a slash, and below one
router a full path tells which path was written.

* `Directive.Accepted` — directives that can be read;
* `Endpoint.BoundTo` — an endpoint has what a route says;
* `Aggregate.exists_boundTo` — the endpoints of a folder come from routes that can be read;
* `Aggregate.wellFormed_toRouteTable` — from the body of a directive to the route table.
-/

namespace ServiceWiring

/-- A directive that some body is read as. -/
def Directive.Accepted (d : Directive) : Prop :=
  ∃ body args, Directive.parse? body = .ok (some (d, args))

theorem Directive.Accepted.wellFormed {d : Directive} (h : d.Accepted) : d.WellFormed := by
  obtain ⟨body, args, hparse⟩ := h
  exact wellFormed_of_parse? hparse

theorem Annotation.accepted_of_mem {path : Path} {content : String} {a : Annotation}
    (h : a ∈ (Contribution.ofText path content).annotations) : a.directive.Accepted := by
  obtain ⟨text, body, args, -, -, hparse, -⟩ :=
    Collected.exists_of_mem_annotations (Contribution.mem_collected_ofText h)
  exact ⟨body, args, hparse⟩

/-- An endpoint of a service has what a route says that can be read. -/
structure Endpoint.BoundTo (e : Endpoint) (s : Service) (spec : RouteSpec) : Prop where
  accepted : Directive.Accepted (.route spec)
  method : e.method = spec.method
  path : e.path = Aggregate.joinRoute s.mountPath spec.path
  middleware : e.middleware = spec.middleware

namespace Aggregate

variable {sources : List (Path × String)} {s : Service} {e : Endpoint}

/-! ## Full paths -/

/-- A full path starts with a slash, below any mount path. -/
theorem head?_joinRoute {mountPath path : String} (hmount : IsMountPath mountPath)
    (hpath : path.toList.head? = some '/') :
    (joinRoute mountPath path).toList.head? = some '/' := by
  rcases hmount with rfl | ⟨hslash, -⟩
  · exact hpath
  · unfold joinRoute
    split
    · exact hpath
    · split
      · exact hslash
      · rw [String.toList_append, List.head?_append, hslash]
        rfl

theorem head?_joinRoute_of_accepted {name : Option String} {mountPath : String} {spec : RouteSpec}
    (hrouter : Directive.Accepted (.router name mountPath))
    (hroute : Directive.Accepted (.route spec)) :
    (joinRoute mountPath spec.path).toList.head? = some '/' := by
  have hspec : spec.WellFormed := hroute.wellFormed
  exact head?_joinRoute hrouter.wellFormed.2 hspec.path

/-- Below one mount path a full path tells which path was written. -/
theorem path_eq_of_accepted {mountPath : String} {spec spec' : RouteSpec}
    (h : Directive.Accepted (.route spec)) (h' : Directive.Accepted (.route spec'))
    (heq : joinRoute mountPath spec.path = joinRoute mountPath spec'.path) :
    spec.path = spec'.path := by
  have hspec : spec.WellFormed := h.wellFormed
  have hspec' : spec'.WellFormed := h'.wellFormed
  exact joinRoute_injective mountPath hspec.path hspec'.path heq

/-! ## The endpoints of a folder -/

theorem accepted_of_mem_placed {place : SourceFile × Annotation}
    (h : place ∈ placed (Contribution.ofTexts sources)) : place.2.directive.Accepted := by
  obtain ⟨c, hc, hplace⟩ := List.mem_flatMap.mp h
  obtain ⟨a, ha, rfl⟩ := List.mem_map.mp hplace
  obtain ⟨⟨path, content⟩, -, rfl⟩ := List.mem_map.mp hc
  exact Annotation.accepted_of_mem ha

/-- The marker of a router is a directive with its mount path. -/
theorem exists_router {place : SourceFile × Annotation} {marker : Service}
    (h : markerService? place = some marker) (hrouter : marker.isRouter = true) :
    ∃ name, place.2.directive = .router name marker.mountPath := by
  obtain ⟨structName, -, hservice⟩ := Option.bind_eq_some_iff.mp h
  cases hd : place.2.directive with
  | service name =>
      rw [hd] at hservice
      rw [← Option.some.inj hservice] at hrouter
      cases hrouter
  | router name mountPath =>
      rw [hd] at hservice
      rw [← Option.some.inj hservice]
      exact ⟨name, rfl⟩
  | inject dependency =>
      rw [hd] at hservice
      cases hservice
  | config spec =>
      rw [hd] at hservice
      cases hservice
  | route spec =>
      rw [hd] at hservice
      cases hservice

/-- A service with endpoints is a router that can be read, and each of its endpoints has what a
    route says that can be read. -/
theorem exists_boundTo (hs : s ∈ (ofFiles (Contribution.ofTexts sources)).services)
    (he : e ∈ s.endpoints) :
    (∃ name, Directive.Accepted (.router name s.mountPath)) ∧ ∃ spec, e.BoundTo s spec := by
  obtain ⟨marker, hfree, -, heq⟩ := conflictFree_of_mem hs
  have hmount : s.mountPath = marker.mountPath := by
    rw [heq]
    rfl
  rw [heq] at he
  cases hrouter : marker.isRouter with
  | false =>
      simp [Service.withMembers, hrouter] at he
  | true =>
      -- a router was marked as one, and each of its endpoints comes from a route
      have hmarker :
          marker ∈ markersOf (placed (Contribution.ofTexts sources)) marker.structName := by
        rw [hfree.single]
        exact List.mem_singleton_self _
      obtain ⟨⟨place, hplace, hservice⟩, -⟩ := mem_markersOf_iff.mp hmarker
      obtain ⟨name, hname⟩ := exists_router hservice hrouter
      have hreads := accepted_of_mem_placed hplace
      rw [hname] at hreads
      simp only [Service.withMembers, hrouter, if_true] at he
      obtain ⟨r, hr, rfl⟩ := List.mem_map.mp he
      obtain ⟨⟨routed, hrouted, hof⟩, -⟩ := mem_routesOf_iff.mp hr
      obtain ⟨spec, method, receiver, hspec, -, -, rfl⟩ := RouteDirective.of?_eq_some_iff.mp hof
      have hroute := accepted_of_mem_placed hrouted
      rw [hspec] at hroute
      rw [hmount]
      refine ⟨⟨name, hreads⟩, spec, hroute, rfl, ?_, rfl⟩
      rw [hmount]
      rfl

/-- From the body of a directive to the route table.  Every directive that can be read is
    well-formed.  Below every router that can be read, the full path of every route that can be read
    starts with a slash, and two of them have one full path only if the same path was written.  And
    these are the paths of the table: every endpoint of a folder has the full path of a route that
    can be read below the mount path of its router. -/
theorem wellFormed_toRouteTable :
    (∀ body d args, Directive.parse? body = .ok (some (d, args)) → d.WellFormed) ∧
    (∀ name mountPath, Directive.Accepted (.router name mountPath) →
      (∀ spec, Directive.Accepted (.route spec) →
        (joinRoute mountPath spec.path).toList.head? = some '/') ∧
      ∀ spec spec', Directive.Accepted (.route spec) → Directive.Accepted (.route spec') →
        joinRoute mountPath spec.path = joinRoute mountPath spec'.path → spec.path = spec'.path) ∧
    ∀ sources, ∀ s ∈ (ofFiles (Contribution.ofTexts sources)).services,
      (∀ e ∈ s.endpoints, (∃ name, Directive.Accepted (.router name s.mountPath)) ∧
        e.path.toList.head? = some '/' ∧ ∃ spec, e.BoundTo s spec) ∧
      ∀ (e e' : Endpoint) (spec spec' : RouteSpec), e.BoundTo s spec → e'.BoundTo s spec' →
        e.path = e'.path → spec.path = spec'.path := by
  refine ⟨?_, ?_, ?_⟩
  · intro body d args h
    exact Directive.wellFormed_of_parse? h
  · intro name mountPath hrouter
    refine ⟨?_, ?_⟩
    · intro spec hspec
      exact head?_joinRoute_of_accepted hrouter hspec
    · intro spec spec' hspec hspec' heq
      exact path_eq_of_accepted hspec hspec' heq
  · intro sources s hs
    refine ⟨?_, ?_⟩
    · intro e he
      obtain ⟨⟨name, hrouter⟩, spec, hbound⟩ := exists_boundTo hs he
      refine ⟨⟨name, hrouter⟩, ?_, spec, hbound⟩
      rw [hbound.path]
      exact head?_joinRoute_of_accepted hrouter hbound.accepted
    · intro e e' spec spec' hbound hbound' heq
      rw [hbound.path, hbound'.path] at heq
      exact path_eq_of_accepted hbound.accepted hbound'.accepted heq

/-- A router and two of its routes, as they are read. -/
def usersRouter : Directive :=
  .router none "/api"

def rootRoute : RouteSpec :=
  ⟨"GET", "/", []⟩

def usersRoute : RouteSpec :=
  ⟨"GET", "/users", ["auth", "log"]⟩

theorem accepted_usersRouter : usersRouter.Accepted := by
  refine ⟨"Router(prefix=\"/api/\")".toList, .named [("prefix", ⟨.plain, "/api/"⟩)], ?_⟩
  decide +kernel

theorem accepted_rootRoute : Directive.Accepted (.route rootRoute) := by
  refine ⟨"Route(\"get /\")".toList, .positional [⟨.plain, "get /"⟩], ?_⟩
  decide +kernel

theorem accepted_usersRoute : Directive.Accepted (.route usersRoute) := by
  refine ⟨"Route(\"get /users auth,, log\")".toList, .positional [⟨.plain, "get /users auth,, log"⟩], ?_⟩
  decide +kernel

/-- A router with both routes. -/
def usersSource : Path × String :=
  (⟨"svc/a.go"⟩, "package svc\n\n// @Router(prefix=\"/api/\")\ntype A struct\x7b\x7d\n\n"
    ++ "// @Route(\"get /\")\nfunc (a *A) Root() \x7b\x7d\n\n"
    ++ "// @Route(\"get /users auth,, log\")\nfunc (a *A) List() \x7b\x7d\n")

theorem paths_usersSource :
    (ofFiles (Contribution.ofTexts [usersSource])).services.map
      (fun s => s.endpoints.map (·.path)) = [["/api", "/api/users"]] := by
  decide +kernel

theorem wellFormed_toRouteTable_of_users :
    usersRouter.WellFormed ∧
      ((joinRoute "/api" rootRoute.path).toList.head? = some '/' ∧
        joinRoute "/api" rootRoute.path ≠ joinRoute "/api" usersRoute.path) ∧
      ∃ s ∈ (ofFiles (Contribution.ofTexts [usersSource])).services,
        s.endpoints.map (·.path) = ["/api", "/api/users"] ∧
          ∀ e ∈ s.endpoints, e.path.toList.head? = some '/' ∧ ∃ spec, e.BoundTo s spec := by
  obtain ⟨hread, hpaths, htable⟩ := wellFormed_toRouteTable
  obtain ⟨body, args, hbody⟩ := accepted_usersRouter
  obtain ⟨hslash, hwritten⟩ := hpaths none "/api" accepted_usersRouter
  refine ⟨hread body _ args hbody, ⟨hslash _ accepted_rootRoute, ?_⟩, ?_⟩
  · intro heq
    exact absurd (hwritten _ _ accepted_rootRoute accepted_usersRoute heq) (by decide)
  · have hmem : ["/api", "/api/users"] ∈ (ofFiles (Contribution.ofTexts [usersSource])).services.map
        (fun s => s.endpoints.map (·.path)) := by
      rw [paths_usersSource]
      exact List.mem_singleton_self _
    obtain ⟨s, hs, hendpoints⟩ := List.mem_map.mp hmem
    refine ⟨s, hs, hendpoints, ?_⟩
    intro e he
    exact ((htable _ s hs).1 e he).2

end Aggregate

end ServiceWiring
