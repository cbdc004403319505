import ServiceWiring.Proofs.AcceptedDirective
import ServiceWiring.Proofs.Membership
import ServiceWiring.Proofs.Prescan
import ServiceWiring.Proofs.ServiceContent

/-!
# The services that a folder keeps

A struct keeps its service exactly if nothing stands against it, and the service has what the
directives say and nothing else.  Every service that is left out has a conflict that names it, and
no conflict names one that is kept.

* `Aggregate.ConflictFree` — nothing stands against the service of a marker;
* `Aggregate.keeps_ofTexts` — the services of a folder.
-/

namespace ServiceWiring

open Aggregate

/-! ## The annotations of sources -/

/-- What a source contributes: its annotations, checked. -/
def Contribution.ofText (path : Path) (content : String) : Contribution :=
  let file := SourceFile.parse path content
  { file
    annotations := (Placement.validate file (Collected.ofFile file).annotations).annotations }

/-- What sources contribute. -/
def Contribution.ofTexts (sources : List (Path × String)) : List Contribution :=
  sources.map fun (path, content) => .ofText path content

/-- The checks keep the order of annotations. -/
theorem Placement.inOrder_validate (file : SourceFile) {annotations : List Annotation}
    (h : annotations.Pairwise (·.line < ·.line)) :
    (validate file annotations).annotations.Pairwise (·.line < ·.line) := by
  unfold validate
  dsimp only
  split
  · exact h.filter _
  · exact List.Pairwise.nil

namespace Contribution

variable {sources : List (Path × String)} {c : Contribution}

theorem annotations_ofText (path : Path) (content : String) :
    (ofText path content).annotations = (Placement.validate (.parse path content)
      (Collected.ofFile (.parse path content)).annotations).annotations := by
  rw [ofText]

theorem mem_collected_ofText {path : Path} {content : String} {a : Annotation}
    (h : a ∈ (ofText path content).annotations) :
    a ∈ (Collected.ofFile (.parse path content)).annotations := by
  rw [annotations_ofText] at h
  exact Placement.mem_of_mem_validate h

/-- The annotations of a source are in line order. -/
theorem inOrder_ofText (path : Path) (content : String) :
    (ofText path content).annotations.Pairwise (·.line < ·.line) := by
  rw [annotations_ofText]
  exact Placement.inOrder_validate _ (Collected.annotations_inOrder _)

end Contribution

namespace Aggregate

variable {sources : List (Path × String)} {structName : String} {marker : Service}
  {contributions : List Contribution}

/-- The routes of sources have a path that starts with a slash. -/
theorem path_of_mem_routesOf {r : RouteDirective}
    (h : r ∈ routesOf (placed (Contribution.ofTexts sources)) structName) :
    r.spec.path.toList.head? = some '/' := by
  obtain ⟨⟨place, hplace, hr⟩, -⟩ := mem_routesOf_iff.mp h
  obtain ⟨c, hc, hplace⟩ := List.mem_flatMap.mp hplace
  obtain ⟨a, ha, rfl⟩ := List.mem_map.mp hplace
  obtain ⟨⟨path, content⟩, -, rfl⟩ := List.mem_map.mp hc
  obtain ⟨text, body, args, -, -, hparse, -⟩ :=
    Collected.exists_of_mem_annotations (Contribution.mem_collected_ofText ha)
  obtain ⟨spec, method, receiver, hspec, -, -, rfl⟩ := RouteDirective.of?_eq_some_iff.mp hr
  dsimp only at hspec
  rw [hspec] at hparse
  have hroute : spec.WellFormed := Directive.wellFormed_of_parse? hparse
  exact hroute.path

/-- Below one mount path different paths stay different. -/
theorem joinRoute_injective (mountPath : String) {path path' : String}
    (h : path.toList.head? = some '/') (h' : path'.toList.head? = some '/')
    (heq : joinRoute mountPath path = joinRoute mountPath path') : path = path' := by
  have hne : ∀ {path : String}, path.toList.head? = some '/' → mountPath ++ path ≠ mountPath := by
    intro path hpath heq
    have hlist := congrArg String.toList heq
    rw [String.toList_append, List.append_right_eq_self] at hlist
    rw [hlist] at hpath
    cases hpath
  unfold joinRoute at heq
  split at heq
  · exact heq
  · split at heq
    · rename_i hroot
      split at heq
      · rename_i hroot'
        rw [hroot, hroot']
      · exact absurd heq.symm (hne h')
    · split at heq
      · exact absurd heq (hne h)
      · have hlist := congrArg String.toList heq
        rw [String.toList_append, String.toList_append] at hlist
        exact String.toList_inj.mp (List.append_cancel_left hlist)

/-! ## Behind all annotations -/

theorem MemberStep.get?_eq_none {agg agg' : Aggregate} {file : SourceFile} {a : Annotation}
    (hstep : MemberStep file a agg agg') (h : agg.get? structName = none) :
    agg'.get? structName = none := by
  cases hstep with
  | stay => exact h
  | conflict _ _ _ => exact h
  | warning _ _ => exact h
  | field _ _ _ _ =>
      rw [get?_modify agg fun s => s.extends_fields _, h]
      rfl
  | endpoint _ _ _ _ =>
      rw [get?_modify agg fun s => s.extends_endpoints _ _, h]
      rfl

/-- Only structs with a marker have a service. -/
theorem firstOf?_of_get? {s : Service} (h : (ofFiles contributions).get? structName = some s) :
    ∃ first, firstOf? (declared (placed contributions)) structName = some first := by
  rw [← Option.isSome_iff_exists, ← Option.ne_none_iff_isSome]
  intro hnone
  rw [← (marked_marks contributions).met] at hnone
  have hmissing : (ofFiles contributions).get? structName = none := by
    refine List.foldlRecOn (motive := fun agg : Aggregate => agg.get? structName = none) _ _
      hnone ?_
    intro agg hagg place _
    exact (memberStep_addMember agg place.1 place.2).get?_eq_none hagg
  cases hmissing.symm.trans h

/-- What the markers give is there behind all annotations, with its name. -/
theorem get?_of_firstOf? {first : Service}
    (h : firstOf? (declared (placed contributions)) structName = some first) :
    ∃ s, (ofFiles contributions).get? structName = some s ∧ s.name = first.name := by
  have hgrows : (marked contributions).Grows (ofFiles contributions) := by
    refine List.foldlRecOn _ _ (.of_met rfl (List.Subset.refl _)) ?_
    intro agg hagg place _
    exact hagg.trans (memberStep_addMember agg place.1 place.2).grows
  obtain ⟨s, hs, hext⟩ := hgrows.services structName first
    (((marked_marks contributions).met _).trans h)
  exact ⟨s, hs, hext.name⟩

theorem mem_services_iff {s : Service} : s ∈ (ofFiles contributions).services ↔
    (ofFiles contributions).get? s.structName = some s ∧
      s.structName ∉ (ofFiles contributions).failed := by
  unfold services
  rw [List.mem_mergeSort, List.mem_filter]
  constructor
  · rintro ⟨hmet, hkept⟩
    exact ⟨(sound_ofFiles contributions).unique s hmet, by simpa using hkept⟩
  · rintro ⟨hget, hkept⟩
    exact ⟨List.mem_of_find?_eq_some hget, by simpa using hkept⟩

/-- A struct with a marker is kept exactly if its members fit and its markers are not contested. -/
theorem not_mem_failed_iff
    (hmarker : firstOf? (declared (placed contributions)) structName = some marker) :
    structName ∉ (ofFiles contributions).failed ↔
      marker.Fits (fieldsOf (placed contributions) structName)
          (routesOf (placed contributions) structName) ∧
        ¬ Contested (declared (placed contributions)) structName := by
  obtain rfl := structName_of_firstOf? hmarker
  have hmarked := (marked_marks contributions).failed marker.structName
  rcases filled_ofFiles hmarker with ⟨hfits, -, hfailed⟩ | ⟨hclash, hout⟩
  · rw [hfailed, hmarked]
    exact ⟨fun h => ⟨hfits, h⟩, fun h => h.2⟩
  · exact ⟨fun h => absurd hout h, fun h => absurd h.1 hclash⟩

/-- A service that is kept has exactly its members. -/
theorem eq_withMembers_of_mem {s : Service} (h : s ∈ (ofFiles contributions).services) :
    ∃ marker, firstOf? (declared (placed contributions)) s.structName = some marker ∧
      s = marker.withMembers (fieldsOf (placed contributions) s.structName)
        (routesOf (placed contributions) s.structName) := by
  obtain ⟨hget, hkept⟩ := mem_services_iff.mp h
  obtain ⟨marker, hmarker⟩ := firstOf?_of_get? hget
  refine ⟨marker, hmarker, ?_⟩
  have hname := structName_of_firstOf? hmarker
  rcases filled_ofFiles hmarker with ⟨-, hmade, -⟩ | ⟨-, hout⟩
  · rw [hname] at hmade
    exact Option.some.inj (hget.symm.trans hmade)
  · rw [hname] at hout
    exact absurd hout hkept

/-! ## Nothing stands against a service -/

/-- Nothing stands against the service that a marker makes. -/
structure ConflictFree (places : List (SourceFile × Annotation)) (marker : Service) : Prop where
  /-- The struct has no other marker. -/
  single : markersOf places marker.structName = [marker]
  /-- The first marker of every other struct gives another name. -/
  name : ∀ other first, other ≠ marker.structName →
    (markersOf places other).head? = some first → first.name ≠ marker.name
  /-- No two directives are about fields of one name. -/
  fields : ((fieldsOf places marker.structName).map (·.name)).Nodup
  /-- No configuration value is required and has a default. -/
  configs : ∀ d ∈ fieldsOf places marker.structName, ∀ spec, d.annotation.directive = .config spec →
    ¬ (spec.required = some true ∧ spec.default.isSome = true)
  /-- The methods that a router serves routes with have results that can be sent. -/
  results : marker.isRouter = true → ∀ r ∈ routesOf places marker.structName,
    CanBeSent r.method.results
  /-- The routes of a router differ in method or path. -/
  routes : marker.isRouter = true →
    ((routesOf places marker.structName).map fun r => (r.spec.method, r.spec.path)).Nodup

theorem head?_markersOf (places : List (SourceFile × Annotation)) (structName : String) :
    (markersOf places structName).head? = firstOf? (declared places) structName :=
  List.head?_filter ..

theorem wired?_isSome_iff {places : List (SourceFile × Annotation)} {d : FieldDirective}
    (h : d ∈ fieldsOf places structName) : d.wired?.isSome = true ↔
      ∀ spec, d.annotation.directive = .config spec →
        ¬ (spec.required = some true ∧ spec.default.isSome = true) := by
  obtain ⟨⟨place, -, hd⟩, -⟩ := mem_fieldsOf_iff.mp h
  obtain ⟨hfield, field, name, -, -, rfl⟩ := FieldDirective.of?_eq_some_iff.mp hd
  unfold FieldDirective.wired?
  dsimp only
  cases hkind : place.2.directive with
  | inject dependency => simp [originOf?]
  | config spec =>
      -- the one thing that keeps a configured field from being wired
      by_cases hboth : spec.required = some true ∧ spec.default.isSome = true
      · obtain ⟨default, hdefault⟩ := Option.isSome_iff_exists.mp hboth.2
        simp [originOf?, hboth.1, hdefault]
      · simp only [originOf?, Bool.and_eq_true, decide_eq_true_eq, hboth, if_false]
        refine iff_of_true rfl ?_
        intro spec' hspec
        rw [← Directive.config.inj hspec]
        exact hboth
  | service explicit =>
      rw [hkind] at hfield
      cases hfield
  | router explicit mountPath =>
      rw [hkind] at hfield
      cases hfield
  | route spec =>
      rw [hkind] at hfield
      cases hfield

/-- The routes of sources differ in their full paths exactly if they differ in their own. -/
theorem nodup_keys_iff (sources : List (Path × String)) (marker : Service) :
    ((routesOf (placed (Contribution.ofTexts sources)) structName).map (·.key marker)).Nodup ↔
      ((routesOf (placed (Contribution.ofTexts sources)) structName).map
        fun r => (r.spec.method, r.spec.path)).Nodup := by
  simp only [List.Nodup, List.pairwise_map]
  refine List.Pairwise.iff_of_mem ?_
  intro r r' hr hr'
  rw [not_iff_not, RouteDirective.key, RouteDirective.key, Prod.mk.injEq, Prod.mk.injEq]
  refine and_congr_right fun _ => ⟨?_, congrArg _⟩
  exact joinRoute_injective _ (path_of_mem_routesOf hr) (path_of_mem_routesOf hr')

/-- Nothing stands against a service exactly if its members fit and its markers are not
    contested. -/
theorem conflictFree_iff : ConflictFree (placed (Contribution.ofTexts sources)) marker ↔
    firstOf? (declared (placed (Contribution.ofTexts sources))) marker.structName = some marker ∧
      marker.Fits (fieldsOf (placed (Contribution.ofTexts sources)) marker.structName)
        (routesOf (placed (Contribution.ofTexts sources)) marker.structName) ∧
      ¬ Contested (declared (placed (Contribution.ofTexts sources))) marker.structName := by
  constructor
  · intro h
    have hfirst := head?_markersOf (placed (Contribution.ofTexts sources)) marker.structName
    rw [h.single] at hfirst
    refine ⟨hfirst.symm, ⟨?_, h.fields, ?_, ?_⟩, ?_⟩
    · intro d hd
      exact (wired?_isSome_iff hd).mpr (h.configs d hd)
    · intro hrouter r hr
      exact supportedResults_iff.mpr (h.results hrouter r hr)
    · intro hrouter
      exact (nodup_keys_iff sources marker).mpr (h.routes hrouter)
    · rintro (hcount | ⟨other, first, first', hdistinct, hfirst', hother, hname⟩)
      · -- a second marker on the struct
        have hone := congrArg List.length h.single
        rw [markersOf] at hone
        rw [hone] at hcount
        simp at hcount
      · -- another struct with the name of the service
        rw [← head?_markersOf] at hother
        obtain rfl := Option.some.inj (hfirst.trans hfirst')
        exact h.name other first' hdistinct hother hname
  · rintro ⟨hfirst, hfits, hcontested⟩
    have hhead := head?_markersOf (placed (Contribution.ofTexts sources)) marker.structName
    rw [hfirst] at hhead
    refine ⟨?_, ?_, hfits.names, ?_, ?_, ?_⟩
    · obtain ⟨more, hmarkers⟩ := List.head?_eq_some_iff.mp hhead
      cases more with
      | nil => exact hmarkers
      | cons second more =>
          refine absurd (Or.inl ?_) hcontested
          show 2 ≤ (markersOf _ marker.structName).length
          rw [hmarkers]
          simp
    · intro other first hdistinct hother hname
      rw [head?_markersOf] at hother
      exact hcontested (Or.inr ⟨other, marker, first, hdistinct, hfirst, hother, hname⟩)
    · intro d hd
      exact (wired?_isSome_iff hd).mp (hfits.wired d hd)
    · intro hrouter r hr
      exact supportedResults_iff.mp (hfits.results hrouter r hr)
    · intro hrouter
      exact (nodup_keys_iff sources marker).mp (hfits.routes hrouter)

/-! ## One service for each struct -/

variable {agg agg' : Aggregate} {file : SourceFile} {a : Annotation}

theorem map_structName_modify {f : Service → Service} (hf : ∀ s : Service, s.Extends (f s))
    (agg : Aggregate) (structName : String) :
    (agg.modify structName f).met.map (·.structName) = agg.met.map (·.structName) := by
  show (agg.met.map _).map _ = _
  rw [List.map_map]
  refine List.map_congr_left ?_
  intro s _
  show Service.structName (if _ then _ else _) = _
  split
  · exact (hf s).structName
  · rfl

theorem MemberStep.structNames (h : MemberStep file a agg agg') :
    agg'.met.map (·.structName) = agg.met.map (·.structName) := by
  cases h with
  | stay => rfl
  | conflict _ _ _ => rfl
  | warning _ _ => rfl
  | field _ _ _ _ => exact map_structName_modify (fun s => s.extends_fields _) agg _
  | endpoint _ _ _ _ => exact map_structName_modify (fun s => s.extends_endpoints _ _) agg _

theorem MarkerStep.structNames (h : MarkerStep file a agg agg')
    (hdistinct : (agg.met.map (·.structName)).Nodup) : (agg'.met.map (·.structName)).Nodup := by
  cases h with
  | stay => exact hdistinct
  | repeated _ _ _ => exact hdistinct
  | @enter structName service _ hservice hnew =>
      rw [met_enter]
      refine Service.nodup_map_concat.mpr ⟨hdistinct, ?_⟩
      intro hmem
      obtain ⟨s, hs, hname⟩ := List.mem_map.mp hmem
      rw [structName_of_serviceOf? hservice] at hname
      exact List.find?_eq_none.mp hnew s hs (beq_iff_eq.mpr hname)

/-- No struct has two services. -/
theorem nodup_structNames (contributions : List Contribution) :
    ((ofFiles contributions).services.map (·.structName)).Nodup := by
  have hmet : ((ofFiles contributions).met.map (·.structName)).Nodup := by
    refine ofFiles_induction (P := fun agg => (agg.met.map (·.structName)).Nodup) contributions
      List.nodup_nil ?_ ?_
    · intro agg c a _ _ h
      exact (markerStep_addMarker agg c.file a).structNames h
    · intro agg c a _ _ h
      rw [(memberStep_addMember agg c.file a).structNames]
      exact h
  have hperm := ((List.mergeSort_perm ((ofFiles contributions).met.filter fun s =>
    !(ofFiles contributions).failed.contains s.structName)
      fun a b => (Ord.compare a.name b.name).isLE).map (·.structName))
  refine hperm.nodup_iff.mpr (hmet.sublist ?_)
  exact List.filter_sublist.map _

/-! ## The services of a folder -/

/-- Exactly the structs that nothing stands against keep their service, and conflicts name those
    that do not. -/
structure Keeps (places : List (SourceFile × Annotation)) (agg : Aggregate) : Prop where
  kept : ∀ structName, (∃ s ∈ agg.services, s.structName = structName) ↔
    ∃ marker, marker.structName = structName ∧ ConflictFree places marker
  single : (agg.services.map (·.structName)).Nodup
  made : ∀ s ∈ agg.services, ∃ marker, ConflictFree places marker ∧ marker.MadeFrom places s
  disputed : ∀ structName first, (markersOf places structName).head? = some first →
    (∀ s ∈ agg.services, s.structName ≠ structName) → agg.Disputes first.name
  undisputed : ∀ s ∈ agg.services, ¬ agg.Disputes s.name

/-- A service of sources is kept with its members, and nothing stands against it. -/
theorem conflictFree_of_mem {s : Service}
    (h : s ∈ (ofFiles (Contribution.ofTexts sources)).services) :
    ∃ marker, ConflictFree (placed (Contribution.ofTexts sources)) marker ∧
      marker.structName = s.structName ∧
      s = marker.withMembers (fieldsOf (placed (Contribution.ofTexts sources)) s.structName)
        (routesOf (placed (Contribution.ofTexts sources)) s.structName) := by
  obtain ⟨marker, hmarker, heq⟩ := eq_withMembers_of_mem h
  have hname := structName_of_firstOf? hmarker
  refine ⟨marker, ?_, hname, heq⟩
  obtain ⟨-, hkept⟩ := mem_services_iff.mp h
  rw [conflictFree_iff, hname]
  exact ⟨hmarker, (not_mem_failed_iff hmarker).mp hkept⟩

/-- A struct that nothing stands against keeps its service. -/
theorem mem_services_of_conflictFree
    (h : ConflictFree (placed (Contribution.ofTexts sources)) marker) :
    ∃ s ∈ (ofFiles (Contribution.ofTexts sources)).services,
      s.structName = marker.structName := by
  obtain ⟨hmarker, hfree⟩ := conflictFree_iff.mp h
  have hkept := (not_mem_failed_iff hmarker).mpr hfree
  obtain ⟨s, hget, -⟩ := get?_of_firstOf? hmarker
  have hname := structName_of_get? hget
  refine ⟨s, mem_services_iff.mpr ?_, hname⟩
  rw [hname]
  exact ⟨hget, hkept⟩

/-- A conflict never names a service that is kept: two services of one name are both out. -/
theorem not_disputes_of_mem {s : Service} (h : s ∈ (ofFiles contributions).services) :
    ¬ (ofFiles contributions).Disputes s.name := by
  obtain ⟨hget, hkept⟩ := mem_services_iff.mp h
  intro hdispute
  obtain ⟨other, hout, s', hget', hname⟩ := blames_ofFiles contributions s.name hdispute
  have hdistinct : other ≠ s.structName := by
    rintro rfl
    exact hkept hout
  obtain ⟨first, hfirst⟩ := firstOf?_of_get? hget
  obtain ⟨first', hfirst'⟩ := firstOf?_of_get? hget'
  obtain ⟨_, hagain, hfirstName⟩ := get?_of_firstOf? hfirst
  obtain rfl := Option.some.inj (hget.symm.trans hagain)
  obtain ⟨_, hagain', hfirstName'⟩ := get?_of_firstOf? hfirst'
  obtain rfl := Option.some.inj (hget'.symm.trans hagain')
  refine ((not_mem_failed_iff hfirst).mp hkept).2 (Or.inr ?_)
  exact ⟨other, first, first', hdistinct, hfirst, hfirst',
    hfirstName'.symm.trans (hname.trans hfirstName)⟩

/-- A struct with a marker and without a service has a conflict that names its service. -/
theorem disputes_of_dropped {first : Service}
    (hfirst : firstOf? (declared (placed contributions)) structName = some first)
    (hdropped : ∀ s ∈ (ofFiles contributions).services, s.structName ≠ structName) :
    (ofFiles contributions).Disputes first.name := by
  obtain ⟨s, hget, hname⟩ := get?_of_firstOf? hfirst
  have hstruct := structName_of_get? hget
  have hout : structName ∈ (ofFiles contributions).failed := by
    by_contra hkept
    rw [← hstruct] at hget hkept
    exact hdropped s (mem_services_iff.mpr ⟨hget, hkept⟩) hstruct
  obtain ⟨s', hget', hdispute⟩ := (sound_ofFiles contributions).failed structName hout
  obtain rfl := Option.some.inj (hget.symm.trans hget')
  rw [← hname]
  exact hdispute

/-- The services of sources: annotations come in line order, and exactly the structs that nothing
    stands against keep a service, made from its directives. -/
theorem keeps_ofTexts (sources : List (Path × String)) :
    (∀ c ∈ Contribution.ofTexts sources, c.annotations.Pairwise (·.line < ·.line)) ∧
      Keeps (placed (Contribution.ofTexts sources)) (ofFiles (Contribution.ofTexts sources)) := by
  refine ⟨?_, ?_, nodup_structNames _, ?_, ?_, ?_⟩
  · intro c hc
    obtain ⟨⟨path, content⟩, -, rfl⟩ := List.mem_map.mp hc
    exact Contribution.inOrder_ofText path content
  · intro structName
    constructor
    · rintro ⟨s, hs, rfl⟩
      obtain ⟨marker, hfree, hname, -⟩ := conflictFree_of_mem hs
      exact ⟨marker, hname, hfree⟩
    · rintro ⟨marker, rfl, hfree⟩
      exact mem_services_of_conflictFree hfree
  · intro s hs
    obtain ⟨marker, hfree, hname, heq⟩ := conflictFree_of_mem hs
    refine ⟨marker, hfree, ?_⟩
    obtain ⟨hmarker, hfits, -⟩ := conflictFree_iff.mp hfree
    rw [heq, ← hname]
    exact hfits.madeFrom (List.mem_of_find?_eq_some hmarker)
  · intro structName first hfirst hdropped
    rw [head?_markersOf] at hfirst
    exact disputes_of_dropped hfirst hdropped
  · intro s hs
    exact not_disputes_of_mem hs

/-- A struct with two blank fields and a directive on each. -/
def blankFields : List (Path × String) :=
  [(⟨"svc/a.go"⟩, "package svc\n\n// @Service\ntype S struct \x7b\n\t// @Inject\n\t_ *A\n"
    ++ "\t// @Inject\n\t_ *B\n\x7d\n")]

/-- Fields are told apart by name.  The fields are two, each with one directive, and nothing else
    stands against the service; still it is left out. -/
theorem dropped_of_blankFields :
    ∃ marker, markersOf (placed (Contribution.ofTexts blankFields)) "S" = [marker] ∧
      marker.isRouter = false ∧
      (∀ other first, other ≠ "S" →
        (markersOf (placed (Contribution.ofTexts blankFields)) other).head? = some first →
          first.name ≠ marker.name) ∧
      ((fieldsOf (placed (Contribution.ofTexts blankFields)) "S").map (·.field)).Nodup ∧
      (∀ d ∈ fieldsOf (placed (Contribution.ofTexts blankFields)) "S",
        d.annotation.directive = .inject none) ∧
      (ofFiles (Contribution.ofTexts blankFields)).services = [] := by
  have hdeclared : declared (placed (Contribution.ofTexts blankFields))
      = [⟨"S", "S", false, "", [], [], [], ⟨"svc/a.go", 3, 4, "// @Service"⟩⟩] := by
    decide +kernel
  refine ⟨⟨"S", "S", false, "", [], [], [], ⟨"svc/a.go", 3, 4, "// @Service"⟩⟩, ?_, rfl, ?_, ?_, ?_,
    ?_⟩
  · rw [markersOf, hdeclared]
    rfl
  · intro other first hother hfirst
    rw [markersOf, hdeclared] at hfirst
    simp [Ne.symm hother] at hfirst
  · decide +kernel
  · decide +kernel
  · decide +kernel

end Aggregate

end ServiceWiring
