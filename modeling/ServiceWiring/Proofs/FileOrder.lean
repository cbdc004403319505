import Mathlib.Data.List.Flatten
import Mathlib.Data.List.Perm.Basic
import ServiceWiring.Proofs.ConflictFree

/-!
# The order of files

The directives of a folder are the same in every order of its files.  What depends on the order is
which marker of a struct is its first, and that marker gives the name that other structs must not
have.  A service that is kept in two orders is the same in both, up to the order of its endpoints:
all its field directives stand in the file of its only marker.

* `Contribution.markersOf_ne_nil` — field directives stand beside a marker of their struct;
* `Aggregate.ConflictFree.of_perm` — what stands against a service in another order;
* `Service.SameUpToOrder`, `Aggregate.OrderFree` — what two orders have in common;
* `Aggregate.orderFree_of_perm` — the services of a folder in two orders.
-/

namespace ServiceWiring

open Aggregate

variable {contributions contributions' : List Contribution} {structName : String}
  {marker : Service}

/-! ## The parts of a folder -/

namespace Aggregate

/-- The annotations of one file with the file. -/
def placedIn (c : Contribution) : List (SourceFile × Annotation) :=
  c.annotations.map fun a => (c.file, a)

theorem markersOf_placed (contributions : List Contribution) (structName : String) :
    markersOf (placed contributions) structName
      = contributions.flatMap fun c => markersOf (placedIn c) structName := by
  simp only [markersOf, declared, placed, placedIn, List.filterMap_flatMap, List.filter_flatMap]

theorem fieldsOf_placed (contributions : List Contribution) (structName : String) :
    fieldsOf (placed contributions) structName
      = contributions.flatMap fun c => fieldsOf (placedIn c) structName := by
  simp only [fieldsOf, placed, placedIn, List.filterMap_flatMap, List.filter_flatMap]

theorem perm_placed (h : contributions.Perm contributions') :
    (placed contributions).Perm (placed contributions') :=
  h.flatMap_right _

theorem perm_markersOf (h : contributions.Perm contributions') (structName : String) :
    (markersOf (placed contributions) structName).Perm
      (markersOf (placed contributions') structName) :=
  ((perm_placed h).filterMap _).filter _

theorem perm_fieldsOf (h : contributions.Perm contributions') (structName : String) :
    (fieldsOf (placed contributions) structName).Perm
      (fieldsOf (placed contributions') structName) :=
  ((perm_placed h).filterMap _).filter _

theorem perm_routesOf (h : contributions.Perm contributions') (structName : String) :
    (routesOf (placed contributions) structName).Perm
      (routesOf (placed contributions') structName) :=
  ((perm_placed h).filterMap _).filter _

end Aggregate

/-! ## Field directives stand beside a marker -/

namespace Contribution

/-- Behind the checks a field directive of a struct stands beside a marker of it. -/
theorem markersOf_validate_ne_nil (file : SourceFile) (annotations : List Annotation)
    (h : fieldsOf ((Placement.validate file annotations).annotations.map fun a => (file, a))
      structName ≠ []) :
    markersOf ((Placement.validate file annotations).annotations.map fun a => (file, a))
      structName ≠ [] := by
  obtain ⟨d, hd⟩ := List.exists_mem_of_ne_nil _ h
  obtain ⟨⟨place, hplace, hd⟩, rfl⟩ := mem_fieldsOf_iff.mp hd
  obtain ⟨a, ha, rfl⟩ := List.mem_map.mp hplace
  obtain ⟨hfield, field, name, htarget, -, rfl⟩ := FieldDirective.of?_eq_some_iff.mp hd
  -- a source that is taken out has no annotations at all
  have hkept : (Placement.validate file annotations).rejected = false := by
    refine Bool.eq_false_iff.mpr fun hrejected => ?_
    rw [Placement.annotations_of_rejected hrejected] at ha
    cases ha
  obtain ⟨m, -, hm, hmarker, howner⟩ := Placement.marker_of_kept_field hkept ha hfield htarget
  obtain ⟨service, hservice, -⟩ := shows_of_serviceOf? field.owner (file.locate m.line) hmarker
  have hdeclared : markerService? (file, m) = some service := by
    simp [markerService?_eq, howner, hservice]
  have hmem : service ∈ markersOf
      ((Placement.validate file annotations).annotations.map fun a => (file, a)) field.owner :=
    mem_markersOf_iff.mpr ⟨⟨_, List.mem_map.mpr ⟨m, hm, rfl⟩, hdeclared⟩,
      structName_of_serviceOf? hservice⟩
  exact List.ne_nil_of_mem hmem

/-- A source with a field directive of a struct has a marker of the struct too. -/
theorem markersOf_ne_nil {path : Path} {content : String}
    (h : fieldsOf (placedIn (ofText path content)) structName ≠ []) :
    markersOf (placedIn (ofText path content)) structName ≠ [] := by
  rw [placedIn, ofText] at h ⊢
  dsimp only at h ⊢
  exact markersOf_validate_ne_nil _ _ h

end Contribution

/-- The order of some blocks does not matter if only one of them holds anything. -/
theorem flatMap_eq_of_perm {α β γ : Type} {f : α → List β} {g : α → List γ} {l l' : List α}
    (hperm : l.Perm l') (hfilled : ∀ x ∈ l, f x ≠ [] → g x ≠ [])
    (hone : (l.flatMap g).length ≤ 1) : l.flatMap f = l'.flatMap f := by
  induction hperm with
  | nil => rfl
  | cons x _ ih =>
      rw [List.flatMap_cons, List.length_append] at hone
      rw [List.flatMap_cons, List.flatMap_cons,
        ih (fun y hy => hfilled y (List.mem_cons_of_mem x hy)) (by omega)]
  | swap x y l =>
      simp only [List.flatMap_cons, List.length_append] at hone
      -- two blocks that hold something would count twice
      have hempty : f x = [] ∨ f y = [] := by
        by_contra hboth
        obtain ⟨hx, hy⟩ := not_or.mp hboth
        have hgx := List.length_pos_iff.mpr (hfilled x (by simp) hx)
        have hgy := List.length_pos_iff.mpr (hfilled y (by simp) hy)
        omega
      rcases hempty with hempty | hempty
      · simp [hempty]
      · simp [hempty]
  | trans hfirst _ ih ih' =>
      rw [ih hfilled hone]
      refine ih' ?_ ?_
      · intro x hx
        exact hfilled x (hfirst.mem_iff.mpr hx)
      · rw [← (hfirst.flatMap_right g).length_eq]
        exact hone

namespace Aggregate

variable {sources sources' : List (Path × String)}

theorem perm_ofTexts (h : sources.Perm sources') :
    (Contribution.ofTexts sources).Perm (Contribution.ofTexts sources') :=
  h.map _

/-- The field directives of a struct with one marker come in the same order, whatever the order of
    the files: they all stand in one file. -/
theorem fieldsOf_eq_of_perm (h : sources.Perm sources')
    (hsingle : markersOf (placed (Contribution.ofTexts sources)) structName = [marker]) :
    fieldsOf (placed (Contribution.ofTexts sources')) structName
      = fieldsOf (placed (Contribution.ofTexts sources)) structName := by
  rw [fieldsOf_placed, fieldsOf_placed]
  have hone : ((Contribution.ofTexts sources).flatMap
      fun c => markersOf (placedIn c) structName).length ≤ 1 := by
    rw [← markersOf_placed, hsingle]
    exact Nat.le_refl 1
  refine (flatMap_eq_of_perm (perm_ofTexts h) ?_ hone).symm
  intro c hc
  obtain ⟨⟨path, content⟩, -, rfl⟩ := List.mem_map.mp hc
  exact Contribution.markersOf_ne_nil

/-! ## What stands against a service in another order -/

/-- The first marker of every other struct gives another name. -/
def NameFree (places : List (SourceFile × Annotation)) (structName name : String) : Prop :=
  ∀ other first, other ≠ structName → (markersOf places other).head? = some first →
    first.name ≠ name

/-- In another order of the files only the first marker of another struct can come to stand
    against a service. -/
theorem ConflictFree.of_perm (h : sources.Perm sources')
    (hfree : ConflictFree (placed (Contribution.ofTexts sources)) marker) :
    ConflictFree (placed (Contribution.ofTexts sources')) marker ↔
      NameFree (placed (Contribution.ofTexts sources')) marker.structName marker.name := by
  have hfields := perm_fieldsOf (perm_ofTexts h) marker.structName
  have hroutes := perm_routesOf (perm_ofTexts h) marker.structName
  refine ⟨fun hfree' => hfree'.name, ?_⟩
  intro hname
  refine ⟨?_, hname, ?_, ?_, ?_, ?_⟩
  · have hmarkers := perm_markersOf (perm_ofTexts h) marker.structName
    rw [hfree.single] at hmarkers
    exact List.perm_singleton.mp hmarkers.symm
  · exact (hfields.map _).nodup_iff.mp hfree.fields
  · intro d hd
    exact hfree.configs d (hfields.mem_iff.mpr hd)
  · intro hrouter r hr
    exact hfree.results hrouter r (hroutes.mem_iff.mpr hr)
  · intro hrouter
    exact (hroutes.map _).nodup_iff.mp (hfree.routes hrouter)

end Aggregate

/-- The same service, maybe with its endpoints and imports in another order. -/
structure Service.SameUpToOrder (s s' : Service) : Prop where
  name : s'.name = s.name
  structName : s'.structName = s.structName
  isRouter : s'.isRouter = s.isRouter
  mountPath : s'.mountPath = s.mountPath
  fields : s'.fields = s.fields
  endpoints : s'.endpoints.Perm s.endpoints
  imports : ∀ entry, entry ∈ s'.imports ↔ entry ∈ s.imports

theorem Service.sameUpToOrder_withMembers (marker : Service) {fields : List FieldDirective}
    {routes routes' : List RouteDirective} (h : routes'.Perm routes) :
    (marker.withMembers fields routes).SameUpToOrder (marker.withMembers fields routes') := by
  have hendpoints : (marker.withMembers fields routes').endpoints.Perm
      (marker.withMembers fields routes).endpoints := by
    cases hrouter : marker.isRouter with
    | false => simp [withMembers, hrouter]
    | true =>
        simp only [withMembers, hrouter, if_true]
        exact h.map _
  refine ⟨rfl, rfl, rfl, rfl, rfl, hendpoints, ?_⟩
  intro entry
  show entry ∈ List.foldl _ [] (marker.withMembers fields routes').endpoints ↔
    entry ∈ List.foldl _ [] (marker.withMembers fields routes).endpoints
  rw [mem_foldl_addImports, mem_foldl_addImports]
  simp only [hendpoints.mem_iff]

namespace Aggregate

variable {sources sources' : List (Path × String)}

/-- A struct with one marker in two orders has the same one in both. -/
theorem marker_eq_of_perm (h : sources.Perm sources') {marker' : Service}
    (hsingle : markersOf (placed (Contribution.ofTexts sources)) structName = [marker])
    (hsingle' : markersOf (placed (Contribution.ofTexts sources')) structName = [marker']) :
    marker' = marker := by
  have hmarkers := perm_markersOf (perm_ofTexts h) structName
  rw [hsingle, hsingle'] at hmarkers
  exact (List.singleton_perm_singleton.mp hmarkers).symm

/-- A struct that keeps its service in two orders has the same service in both. -/
theorem sameUpToOrder_of_perm (h : sources.Perm sources') {s s' : Service}
    (hs : s ∈ (ofFiles (Contribution.ofTexts sources)).services)
    (hs' : s' ∈ (ofFiles (Contribution.ofTexts sources')).services)
    (hstruct : s'.structName = s.structName) : s.SameUpToOrder s' := by
  obtain ⟨marker, hfree, hname, heq⟩ := conflictFree_of_mem hs
  obtain ⟨marker', hfree', hname', heq'⟩ := conflictFree_of_mem hs'
  have hsingle' := hfree'.single
  rw [hname', hstruct, ← hname] at hsingle'
  obtain rfl := marker_eq_of_perm h hfree.single hsingle'
  rw [heq, heq', hstruct, fieldsOf_eq_of_perm h (hname ▸ hfree.single)]
  exact Service.sameUpToOrder_withMembers _ (perm_routesOf (perm_ofTexts h) _).symm

/-- A service that is kept in one order is kept in another exactly if no other struct gets its name
    there. -/
theorem kept_iff_nameFree (h : sources.Perm sources') {s : Service}
    (hs : s ∈ (ofFiles (Contribution.ofTexts sources)).services) :
    (∃ s' ∈ (ofFiles (Contribution.ofTexts sources')).services, s'.structName = s.structName) ↔
      NameFree (placed (Contribution.ofTexts sources')) s.structName s.name := by
  obtain ⟨marker, hfree, hname, heq⟩ := conflictFree_of_mem hs
  have hservice : s.name = marker.name := by
    rw [heq]
    rfl
  rw [hservice, ← hname, ← hfree.of_perm h]
  constructor
  · rintro ⟨s', hs', hstruct⟩
    obtain ⟨marker', hfree', hname', -⟩ := conflictFree_of_mem hs'
    have hsingle' := hfree'.single
    rw [hname', hstruct] at hsingle'
    obtain rfl := marker_eq_of_perm h hfree.single hsingle'
    exact hfree'
  · exact mem_services_of_conflictFree

/-! ## Files that agree on names -/

/-- In any two files the first markers of a struct give it one name. -/
def NamesAgree (contributions : List Contribution) : Prop :=
  ∀ c ∈ contributions, ∀ c' ∈ contributions, ∀ structName first first',
    (markersOf (placedIn c) structName).head? = some first →
      (markersOf (placedIn c') structName).head? = some first' → first'.name = first.name

/-- The first marker of a struct is the first one in some file. -/
theorem exists_of_head?_markersOf {first : Service}
    (h : (markersOf (placed contributions) structName).head? = some first) :
    ∃ c ∈ contributions, (markersOf (placedIn c) structName).head? = some first := by
  rw [markersOf_placed, List.head?_flatMap] at h
  exact List.exists_of_findSome?_eq_some h

theorem NamesAgree.perm (h : NamesAgree contributions)
    (hperm : contributions.Perm contributions') : NamesAgree contributions' := by
  intro c hc c' hc'
  exact h c (hperm.mem_iff.mpr hc) c' (hperm.mem_iff.mpr hc')

/-- Where the files agree on names, a name that is free in one order is free in another. -/
theorem NamesAgree.nameFree (h : NamesAgree contributions)
    (hperm : contributions.Perm contributions') {name : String}
    (hfree : NameFree (placed contributions) structName name) :
    NameFree (placed contributions') structName name := by
  intro other first' hother hfirst'
  obtain ⟨c', hc', hin'⟩ := exists_of_head?_markersOf hfirst'
  -- the struct has a marker in the other order too, and there its first one gives the same name
  have hmarkers : markersOf (placed contributions) other ≠ [] := by
    intro hnil
    have hmarkers := perm_markersOf hperm other
    rw [hnil, List.nil_perm] at hmarkers
    rw [hmarkers] at hfirst'
    cases hfirst'
  have hfirst := List.head?_eq_some_head hmarkers
  obtain ⟨c, hc, hin⟩ := exists_of_head?_markersOf hfirst
  rw [h c hc c' (hperm.mem_iff.mpr hc') other _ _ hin hin']
  exact hfree other _ hother hfirst

theorem kept_of_namesAgree (h : sources.Perm sources')
    (hagree : NamesAgree (Contribution.ofTexts sources)) {s : Service}
    (hs : s ∈ (ofFiles (Contribution.ofTexts sources)).services) :
    ∃ s' ∈ (ofFiles (Contribution.ofTexts sources')).services, s'.structName = s.structName := by
  refine (kept_iff_nameFree h hs).mpr (hagree.nameFree (perm_ofTexts h) ?_)
  exact (kept_iff_nameFree (.refl sources) hs).mp ⟨s, hs, rfl⟩

/-! ## Two orders of the files -/

/-- What the services of sources in two orders have in common. -/
structure OrderFree (sources sources' : List (Path × String)) : Prop where
  /-- A struct that keeps its service in both orders has the same service in both. -/
  same : ∀ s ∈ (ofFiles (Contribution.ofTexts sources)).services,
    ∀ s' ∈ (ofFiles (Contribution.ofTexts sources')).services,
      s'.structName = s.structName → s.SameUpToOrder s'
  /-- A service is lost exactly if another struct gets its name from its first marker. -/
  kept : ∀ s ∈ (ofFiles (Contribution.ofTexts sources)).services,
    (∃ s' ∈ (ofFiles (Contribution.ofTexts sources')).services, s'.structName = s.structName) ↔
      NameFree (placed (Contribution.ofTexts sources')) s.structName s.name
  /-- Where the files agree on names, the same structs keep their service. -/
  agreed : NamesAgree (Contribution.ofTexts sources) → ∀ structName,
    (∃ s ∈ (ofFiles (Contribution.ofTexts sources)).services, s.structName = structName) ↔
      ∃ s' ∈ (ofFiles (Contribution.ofTexts sources')).services, s'.structName = structName

/-- The order of the files decides on nothing but the first markers of structs. -/
theorem orderFree_of_perm (h : sources.Perm sources') : OrderFree sources sources' where
  same _ hs _ hs' hstruct := sameUpToOrder_of_perm h hs hs' hstruct
  kept _ hs := kept_iff_nameFree h hs
  agreed hagree structName := by
    constructor
    · rintro ⟨s, hs, rfl⟩
      exact kept_of_namesAgree h hagree hs
    · rintro ⟨s', hs', rfl⟩
      exact kept_of_namesAgree h.symm (hagree.perm (perm_ofTexts h)) hs'

/-- A router, and a route of it in another file. -/
def splitRouter : List (Path × String) :=
  [(⟨"svc/a.go"⟩, "package svc\n\n// @Router(prefix=\"/r\")\ntype R struct \x7b\n"
      ++ "\t// @Inject\n\tDB *DB\n\x7d\n"),
    (⟨"svc/b.go"⟩, "package svc\n\n// @Route(\"GET /x\")\nfunc (r *R) Get() \x7b\x7d\n")]

/-- With the route in front the router keeps its service. -/
theorem orderFree_of_splitRouter :
    splitRouter.Perm splitRouter.reverse ∧ NamesAgree (Contribution.ofTexts splitRouter) ∧
      OrderFree splitRouter splitRouter.reverse ∧
      ∃ s ∈ (ofFiles (Contribution.ofTexts splitRouter.reverse)).services, s.structName = "R" := by
  have hperm : splitRouter.Perm splitRouter.reverse := splitRouter.reverse_perm.symm
  have hdeclared : declared (placed (Contribution.ofTexts splitRouter))
      = [⟨"R", "R", true, "/r", [], [], [], ⟨"svc/a.go", 3, 4, "// @Router(prefix=\"/r\")"⟩⟩] := by
    decide +kernel
  have hagree : NamesAgree (Contribution.ofTexts splitRouter) := by
    -- there is one marker in all
    have hmarker : ∀ c ∈ Contribution.ofTexts splitRouter, ∀ structName first,
        (markersOf (placedIn c) structName).head? = some first → first.name = "R" := by
      intro c hc structName first hfirst
      have hmem : first ∈ declared (placed (Contribution.ofTexts splitRouter)) := by
        obtain ⟨⟨place, hplace, hservice⟩, -⟩ := mem_markersOf_iff.mp (List.mem_of_head? hfirst)
        exact List.mem_filterMap.mpr ⟨place, List.mem_flatMap.mpr ⟨c, hc, hplace⟩, hservice⟩
      rw [hdeclared] at hmem
      rw [List.mem_singleton.mp hmem]
    intro c hc c' hc' structName first first' hfirst hfirst'
    rw [hmarker c hc structName first hfirst, hmarker c' hc' structName first' hfirst']
  have hkept : ∃ s ∈ (ofFiles (Contribution.ofTexts splitRouter)).services,
      s.structName = "R" := by
    decide +kernel
  exact ⟨hperm, hagree, orderFree_of_perm hperm,
    ((orderFree_of_perm hperm).agreed hagree "R").mp hkept⟩

/-- A struct that two files give different names, and another one that has the first of them. -/
def twiceNamed : List (Path × String) :=
  [(⟨"svc/b.go"⟩, "package svc\n\n// @Service(\"X\")\ntype T struct\x7b\x7d\n"),
    (⟨"svc/c.go"⟩, "package svc\n\n// @Service(\"Y\")\ntype T struct\x7b\x7d\n"),
    (⟨"svc/s.go"⟩, "package svc\n\n// @Service(\"X\")\ntype S struct\x7b\x7d\n")]

/-- The other struct keeps its service or not, as the files come. -/
theorem order_decides_twiceNamed :
    twiceNamed.Perm twiceNamed.reverse ∧
      (ofFiles (Contribution.ofTexts twiceNamed)).services = [] ∧
      (ofFiles (Contribution.ofTexts twiceNamed.reverse)).services.map (·.structName) = ["S"] := by
  refine ⟨twiceNamed.reverse_perm.symm, ?_, ?_⟩
  · decide +kernel
  · decide +kernel

end Aggregate

end ServiceWiring
