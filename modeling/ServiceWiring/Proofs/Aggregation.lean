import ServiceWiring.Proofs.Generation

/-!
# What becomes of an annotation

Reading annotations only adds: services gain fields and endpoints, issues stay.  So what reading
one annotation does can still be seen when all are read.  A marker or a field directive is taken
up by the service of its struct, or that service has a conflict; a route is taken up in the same
way, or it is ignored with a warning.

* `Service.Shows` — a part of a service stands at the place of a directive;
* `Aggregate.Grows` — what reading more annotations keeps;
* `Aggregate.Sound` — no struct has two services, and a service that is out has a conflict;
* `Aggregate.Takes` — the service of a struct shows a directive or has a conflict;
* `Aggregate.takes_of_marker`, `Aggregate.takes_of_field`, `Aggregate.settled_of_route` — what
  becomes of the annotations of a folder.
-/

namespace ServiceWiring

/-! ## Services -/

/-- The directive that an origin comes from. -/
def FieldOrigin.kind : FieldOrigin → DirectiveKind
  | .inject _ => .inject
  | .config _ => .config

namespace Service

variable {s s' s'' : Service} {loc : Location} {kind : DirectiveKind}

/-- A part of a service stands at the place of a directive: the service itself for a marker, a
    field that is filled as the directive says, or an endpoint. -/
def Shows (s : Service) (loc : Location) : DirectiveKind → Prop
  | .service => s.loc = loc ∧ s.isRouter = false
  | .router => s.loc = loc ∧ s.isRouter = true
  | .inject => ∃ f ∈ s.fields, f.loc = loc ∧ f.origin.kind = .inject
  | .config => ∃ f ∈ s.fields, f.loc = loc ∧ f.origin.kind = .config
  | .route => ∃ e ∈ s.endpoints, e.loc = loc

/-- The same service, maybe with more fields and endpoints. -/
structure Extends (s s' : Service) : Prop where
  name : s'.name = s.name
  structName : s'.structName = s.structName
  isRouter : s'.isRouter = s.isRouter
  loc : s'.loc = s.loc
  fields : s.fields ⊆ s'.fields
  endpoints : s.endpoints ⊆ s'.endpoints

theorem Extends.refl (s : Service) : s.Extends s :=
  ⟨rfl, rfl, rfl, rfl, List.Subset.refl _, List.Subset.refl _⟩

theorem Extends.trans (h : s.Extends s') (h' : s'.Extends s'') : s.Extends s'' :=
  ⟨h'.name.trans h.name, h'.structName.trans h.structName, h'.isRouter.trans h.isRouter,
    h'.loc.trans h.loc, List.Subset.trans h.fields h'.fields,
    List.Subset.trans h.endpoints h'.endpoints⟩

theorem extends_fields (s : Service) (more : List WiredField) :
    s.Extends { s with fields := s.fields ++ more } :=
  ⟨rfl, rfl, rfl, rfl, List.subset_append_left _ _, List.Subset.refl _⟩

theorem extends_endpoints (s : Service) (more : List Endpoint) (imports : List ImportEntry) :
    s.Extends { s with endpoints := s.endpoints ++ more, imports } :=
  ⟨rfl, rfl, rfl, rfl, List.Subset.refl _, List.subset_append_left _ _⟩

theorem Shows.mono (h : s.Shows loc kind) (hext : s.Extends s') : s'.Shows loc kind := by
  cases kind with
  | service => exact ⟨hext.loc.trans h.1, hext.isRouter.trans h.2⟩
  | router => exact ⟨hext.loc.trans h.1, hext.isRouter.trans h.2⟩
  | inject =>
      obtain ⟨f, hf, hshown⟩ := h
      exact ⟨f, hext.fields hf, hshown⟩
  | config =>
      obtain ⟨f, hf, hshown⟩ := h
      exact ⟨f, hext.fields hf, hshown⟩
  | route =>
      obtain ⟨e, he, hshown⟩ := h
      exact ⟨e, hext.endpoints he, hshown⟩

theorem shows_field (s : Service) (f : WiredField) :
    Shows { s with fields := s.fields ++ [f] } f.loc f.origin.kind := by
  have hmem : f ∈ s.fields ++ [f] := List.mem_append_right _ (List.mem_singleton_self f)
  cases horigin : f.origin with
  | inject dependency => exact ⟨f, hmem, rfl, congrArg FieldOrigin.kind horigin⟩
  | config lookup => exact ⟨f, hmem, rfl, congrArg FieldOrigin.kind horigin⟩

theorem shows_endpoint (s : Service) (e : Endpoint) (imports : List ImportEntry) :
    Shows { s with endpoints := s.endpoints ++ [e], imports } e.loc .route :=
  ⟨e, List.mem_append_right _ (List.mem_singleton_self e), rfl⟩

end Service

namespace Aggregate

variable {agg agg' agg'' : Aggregate} {file : SourceFile} {a : Annotation} {loc : Location}
  {kind : DirectiveKind} {structName : String} {service : Service} {f : Service → Service}

/-! ## Looking up services -/

theorem get?_modify (agg : Aggregate) (hf : ∀ s : Service, s.Extends (f s))
    (structName other : String) : (agg.modify structName f).get? other
      = (agg.get? other).map fun s => if s.structName == structName then f s else s := by
  show (agg.met.map _).find? _ = _
  rw [List.find?_map]
  have hname : ∀ s : Service,
      (if s.structName == structName then f s else s).structName = s.structName := by
    intro s
    split
    · exact (hf s).structName
    · rfl
  -- the search looks at the names of structs only, and these stay
  have htest : ((fun s : Service => s.structName == other)
      ∘ fun s => if s.structName == structName then f s else s)
        = fun s => s.structName == other := by
    funext s
    show (Service.structName _ == other) = _
    rw [hname]
  rw [htest]
  rfl

theorem get?_modify_self (hf : ∀ s : Service, s.Extends (f s))
    (h : agg.get? structName = some service) :
    (agg.modify structName f).get? structName = some (f service) := by
  rw [get?_modify agg hf, h]
  show some (if _ then _ else _) = _
  rw [structName_of_get? h, if_pos (beq_self_eq_true structName)]

theorem met_enter (agg : Aggregate) (service : Service) :
    (agg.enter service).met = agg.met ++ [service] := by
  unfold enter
  dsimp only
  split
  · rfl
  · rfl

theorem enter_of_owner {owner : Service}
    (h : (agg.met.filter fun s => s.name == service.name).getLast? = some owner) :
    agg.enter service =
      report { met := agg.met ++ [service], failed := agg.failed ++ [owner.structName],
               issues := agg.issues }
        service.structName service.loc (.duplicateName service.name) (some owner.loc.origin) := by
  unfold enter
  rw [h]

theorem get?_enter (agg : Aggregate) (service : Service) (structName : String) :
    (agg.enter service).get? structName
      = (agg.get? structName).or
        (if service.structName == structName then some service else none) := by
  unfold get?
  rw [met_enter, List.find?_append, List.find?_singleton]

theorem get?_enter_self (hnew : agg.get? service.structName = none) :
    (agg.enter service).get? service.structName = some service := by
  rw [get?_enter, hnew, if_pos (beq_self_eq_true service.structName)]
  rfl

theorem get?_enter_of_get? {s : Service} (h : agg.get? structName = some s) (service : Service) :
    (agg.enter service).get? structName = some s := by
  rw [get?_enter, h]
  rfl

/-! ## The directives behind services and fields -/

theorem structName_of_serviceOf? {d : Directive} (h : serviceOf? structName loc d = some service) :
    service.structName = structName := by
  unfold serviceOf? at h
  split at h
  · rw [← Option.some.inj h]
  · rw [← Option.some.inj h]
  · cases h

/-- A marker makes a service that stands at the marker. -/
theorem shows_of_serviceOf? (structName : String) (loc : Location) {d : Directive}
    (hmarker : d.isMarker = true) :
    ∃ service, serviceOf? structName loc d = some service ∧ service.Shows loc d.kind := by
  cases d with
  | service name => exact ⟨_, rfl, rfl, rfl⟩
  | router name mountPath => exact ⟨_, rfl, rfl, rfl⟩
  | inject dependency => cases hmarker
  | config spec => cases hmarker
  | route spec => cases hmarker

theorem originOf?_ne_none (type : String) {d : Directive} (hkind : d.isFieldDirective = true) :
    originOf? type d ≠ none := by
  cases d with
  | inject dependency => exact Option.some_ne_none _
  | config spec =>
      show ite _ _ _ ≠ none
      split
      · exact Option.some_ne_none _
      · exact Option.some_ne_none _
  | service name => cases hkind
  | router name mountPath => cases hkind
  | route spec => cases hkind

theorem kind_of_originOf? {type : String} {d : Directive} {origin : FieldOrigin}
    (h : originOf? type d = some (.ok origin)) : origin.kind = d.kind := by
  unfold originOf? at h
  split at h
  · rw [← Except.ok.inj (Option.some.inj h)]
    rfl
  · split at h
    · cases h
    · rw [← Except.ok.inj (Option.some.inj h)]
      rfl
  · cases h

/-! ## What reading more annotations keeps -/

/-- Services stay, maybe with more fields and endpoints, and issues stay. -/
structure Grows (agg agg' : Aggregate) : Prop where
  services : ∀ structName s, agg.get? structName = some s →
    ∃ s', agg'.get? structName = some s' ∧ s.Extends s'
  issues : agg.issues ⊆ agg'.issues

theorem Grows.trans (h : agg.Grows agg') (h' : agg'.Grows agg'') : agg.Grows agg'' := by
  refine ⟨?_, List.Subset.trans h.issues h'.issues⟩
  intro structName s hs
  obtain ⟨s', hs', hext⟩ := h.services structName s hs
  obtain ⟨s'', hs'', hext'⟩ := h'.services structName s' hs'
  exact ⟨s'', hs'', hext.trans hext'⟩

theorem Grows.of_met (hmet : agg'.met = agg.met) (hissues : agg.issues ⊆ agg'.issues) :
    agg.Grows agg' := by
  refine ⟨?_, hissues⟩
  intro structName s hs
  refine ⟨s, ?_, Service.Extends.refl s⟩
  unfold get?
  rw [hmet]
  exact hs

theorem grows_modify (agg : Aggregate) (hf : ∀ s : Service, s.Extends (f s))
    (structName : String) : agg.Grows (agg.modify structName f) := by
  refine ⟨?_, List.Subset.refl _⟩
  intro other s hs
  rw [get?_modify agg hf, hs]
  refine ⟨_, rfl, ?_⟩
  dsimp only
  split
  · exact hf s
  · exact Service.Extends.refl s

theorem grows_enter (agg : Aggregate) (service : Service) : agg.Grows (agg.enter service) := by
  refine ⟨?_, ?_⟩
  · intro structName s hs
    exact ⟨s, get?_enter_of_get? hs service, Service.Extends.refl s⟩
  · unfold enter
    dsimp only
    split
    · exact List.Subset.refl _
    · exact List.subset_append_left _ _

theorem MemberStep.grows (h : MemberStep file a agg agg') : agg.Grows agg' := by
  cases h with
  | stay => exact .of_met rfl (List.Subset.refl _)
  | conflict _ _ _ => exact .of_met rfl (List.subset_append_left _ _)
  | warning _ _ => exact .of_met rfl (List.subset_append_left _ _)
  | field _ _ _ _ => exact grows_modify agg (fun s => s.extends_fields _) _
  | endpoint _ _ _ _ => exact grows_modify agg (fun s => s.extends_endpoints _ _) _

theorem MarkerStep.grows (h : MarkerStep file a agg agg') : agg.Grows agg' := by
  cases h with
  | stay => exact .of_met rfl (List.Subset.refl _)
  | repeated _ _ _ => exact .of_met rfl (List.subset_append_left _ _)
  | enter _ _ _ => exact grows_enter agg _

/-! ## Services that are out -/

/-- A conflict is reported for a service of the given name. -/
def Disputes (agg : Aggregate) (name : String) : Prop :=
  ∃ loc message other, Issue.conflict loc name message other ∈ agg.issues

theorem Disputes.mono {name : String} (h : agg.Disputes name) (hissues : agg.issues ⊆ agg'.issues) :
    agg'.Disputes name := by
  obtain ⟨loc, message, other, h⟩ := h
  exact ⟨loc, message, other, hissues h⟩

theorem disputes_report (h : agg.get? structName = some service) (loc : Location)
    (conflict : Conflict) (other : Option String) :
    (agg.report structName loc conflict other).Disputes service.name := by
  refine ⟨loc, conflict.message, other, List.mem_append_right _ ?_⟩
  rw [h]
  exact List.mem_singleton_self _

/-- No struct has two services, and where the service of a struct is out a conflict is reported
    for it. -/
structure Sound (agg : Aggregate) : Prop where
  unique : ∀ s ∈ agg.met, agg.get? s.structName = some s
  failed : ∀ structName ∈ agg.failed,
    ∃ s, agg.get? structName = some s ∧ agg.Disputes s.name

theorem sound_empty : Sound {} :=
  ⟨fun _ h => absurd h List.not_mem_nil, fun _ h => absurd h List.not_mem_nil⟩

theorem Sound.report (h : agg.Sound) (hservice : agg.get? structName = some service)
    (loc : Location) (conflict : Conflict) (other : Option String) :
    (agg.report structName loc conflict other).Sound := by
  refine ⟨h.unique, ?_⟩
  intro name hname
  rcases List.mem_append.mp hname with hname | hname
  · obtain ⟨s, hs, hdispute⟩ := h.failed name hname
    exact ⟨s, hs, hdispute.mono (List.subset_append_left _ _)⟩
  · rw [List.mem_singleton.mp hname]
    exact ⟨service, hservice, disputes_report hservice loc conflict other⟩

theorem Sound.modify (h : agg.Sound) (hf : ∀ s : Service, s.Extends (f s)) (structName : String) :
    (agg.modify structName f).Sound := by
  refine ⟨?_, ?_⟩
  · intro s hs
    obtain ⟨s', hs', rfl⟩ := List.mem_map.mp hs
    have hname : (if s'.structName == structName then f s' else s').structName = s'.structName := by
      split
      · exact (hf s').structName
      · rfl
    rw [hname, get?_modify agg hf, h.unique s' hs']
    rfl
  · intro name hname
    obtain ⟨s, hs, hdispute⟩ := h.failed name hname
    obtain ⟨s', hs', hkept⟩ := (grows_modify agg hf structName).services name s hs
    refine ⟨s', hs', ?_⟩
    rw [hkept.name]
    exact hdispute

/-- A second service of one name puts both out, with one conflict that names both. -/
theorem Sound.enter (h : agg.Sound) (hnew : agg.get? service.structName = none) :
    (agg.enter service).Sound := by
  have hself := get?_enter_self hnew
  refine ⟨?_, ?_⟩
  · intro s hs
    rw [met_enter] at hs
    rcases List.mem_append.mp hs with hs | hs
    · exact get?_enter_of_get? (h.unique s hs) service
    · rw [List.mem_singleton.mp hs]
      exact hself
  · have hold : ∀ name ∈ agg.failed,
        ∃ s, (agg.enter service).get? name = some s ∧ (agg.enter service).Disputes s.name := by
      intro name hname
      obtain ⟨s, hs, hdispute⟩ := h.failed name hname
      exact ⟨s, get?_enter_of_get? hs service, hdispute.mono (grows_enter agg service).issues⟩
    cases howner : (agg.met.filter fun s => s.name == service.name).getLast? with
    | none =>
        have hfailed : (agg.enter service).failed = agg.failed := by
          unfold Aggregate.enter
          rw [howner]
        rw [hfailed]
        exact hold
    | some owner =>
        -- the conflict names the new service, and `owner` has the same name
        obtain ⟨hmet, hsame⟩ := List.mem_filter.mp (List.mem_of_getLast? howner)
        have hdispute : (agg.enter service).Disputes service.name := by
          rw [enter_of_owner howner] at hself ⊢
          refine disputes_report ?_ _ _ _
          exact hself
        have hfailed : (agg.enter service).failed
            = agg.failed ++ [owner.structName] ++ [service.structName] := by
          rw [enter_of_owner howner]
          rfl
        intro name hname
        rw [hfailed] at hname
        simp only [List.mem_append, List.mem_singleton] at hname
        rcases hname with (hname | rfl) | rfl
        · exact hold name hname
        · refine ⟨owner, get?_enter_of_get? (h.unique owner hmet) service, ?_⟩
          rw [eq_of_beq hsame]
          exact hdispute
        · exact ⟨service, hself, hdispute⟩

theorem Sound.memberStep (h : agg.Sound) (hstep : MemberStep file a agg agg') : agg'.Sound := by
  cases hstep with
  | stay => exact h
  | conflict hservice conflict other => exact h.report hservice _ conflict other
  | warning _ _ =>
      refine ⟨h.unique, ?_⟩
      intro name hname
      obtain ⟨s, hs, hdispute⟩ := h.failed name hname
      exact ⟨s, hs, hdispute.mono (List.subset_append_left _ _)⟩
  | field _ _ _ _ => exact h.modify (fun s => s.extends_fields _) _
  | endpoint _ _ _ _ => exact h.modify (fun s => s.extends_endpoints _ _) _

theorem Sound.markerStep (h : agg.Sound) (hstep : MarkerStep file a agg agg') : agg'.Sound := by
  cases hstep with
  | stay => exact h
  | repeated hexisting conflict other => exact h.report hexisting _ conflict other
  | enter _ hservice hnew =>
      rw [← structName_of_serviceOf? hservice] at hnew
      exact h.enter hnew

/-- The services of a folder are sound. -/
theorem sound_ofFiles (contributions : List Contribution) : (ofFiles contributions).Sound := by
  refine ofFiles_induction contributions sound_empty ?_ ?_
  · intro agg c a _ _ h
    exact h.markerStep (markerStep_addMarker agg c.file a)
  · intro agg c a _ _ h
    exact h.memberStep (memberStep_addMember agg c.file a)

/-! ## Reading one annotation -/

/-- The service of a struct has taken a directive up: a part of it stands at the directive's
    place, or a conflict is reported for it. -/
def Takes (agg : Aggregate) (structName : String) (loc : Location) (kind : DirectiveKind) : Prop :=
  ∃ s, agg.get? structName = some s ∧ (agg.Disputes s.name ∨ s.Shows loc kind)

theorem Takes.grows (h : agg.Takes structName loc kind) (hgrows : agg.Grows agg') :
    agg'.Takes structName loc kind := by
  obtain ⟨s, hs, htaken⟩ := h
  obtain ⟨s', hs', hext⟩ := hgrows.services structName s hs
  refine ⟨s', hs', ?_⟩
  rcases htaken with hdispute | hshows
  · rw [hext.name]
    exact Or.inl (hdispute.mono hgrows.issues)
  · exact Or.inr (hshows.mono hext)

theorem takes_report (h : agg.get? structName = some service) (loc' : Location)
    (conflict : Conflict) (other : Option String) :
    (agg.report structName loc' conflict other).Takes structName loc kind :=
  ⟨service, h, Or.inl (disputes_report h loc' conflict other)⟩

/-- The struct of a marker has a service, and it stands at the marker or has a conflict. -/
theorem takes_addMarker (agg : Aggregate) (htarget : a.target = some structName)
    (hmarker : a.directive.isMarker = true) :
    (agg.addMarker file a).Takes structName (file.locate a.line) a.directive.kind := by
  obtain ⟨service, hservice, hshows⟩ :=
    shows_of_serviceOf? structName (file.locate a.line) hmarker
  unfold addMarker
  rw [htarget]
  dsimp only
  rw [hservice]
  dsimp only
  cases hget : agg.get? structName with
  | some existing => exact takes_report hget _ _ _
  | none =>
      have hname := structName_of_serviceOf? hservice
      subst hname
      exact ⟨service, get?_enter_self hget, Or.inr hshows⟩

/-- As a member, a directive of a field is read for its field. -/
theorem addMember_of_field (agg : Aggregate) (file : SourceFile)
    (hkind : a.directive.isFieldDirective = true) : agg.addMember file a = agg.addField file a := by
  unfold addMember
  cases hd : a.directive with
  | inject dependency => rfl
  | config spec => rfl
  | service explicit =>
      rw [hd] at hkind
      cases hkind
  | router explicit mountPath =>
      rw [hd] at hkind
      cases hkind
  | route spec =>
      rw [hd] at hkind
      cases hkind

/-- The service of a field's struct gets the field or a conflict. -/
theorem takes_addField {field : StructField} {name : String}
    (htarget : a.targetLine.bind file.index.fieldAt? = some field)
    (hname : field.names.head? = some name) (hservice : agg.get? field.owner = some service)
    (hkind : a.directive.isFieldDirective = true) :
    (agg.addField file a).Takes field.owner (file.locate a.line) a.directive.kind := by
  unfold addField
  rw [htarget]
  dsimp only
  rw [hname, hservice]
  dsimp only
  split
  · rename_i hnone
    exact absurd hnone (originOf?_ne_none field.type hkind)
  · exact takes_report hservice _ _ _
  · rename_i origin horigin
    unfold enterField
    -- a field that is filled already is a conflict
    split
    · rw [structName_of_get? hservice]
      exact takes_report hservice _ _ _
    · rw [structName_of_get? hservice, ← kind_of_originOf? horigin]
      refine ⟨_, get?_modify_self (fun s => s.extends_fields _) hservice, Or.inr ?_⟩
      exact service.shows_field _

/-- A route is ignored with a warning, or the service of its receiver gets an endpoint or a
    conflict. -/
theorem settled_addRoute (h : agg.Sound) {d : Declaration} {receiver : String}
    (htarget : a.targetLine.bind file.index.declarationAt? = some d)
    (hreceiver : d.receiver = some receiver) (spec : RouteSpec) :
    (∃ reason, Issue.ignored (file.locate a.line) a.directive.label reason
      ∈ (agg.addRoute file spec a).issues) ∨
    (agg.addRoute file spec a).Takes receiver (file.locate a.line) .route := by
  unfold addRoute
  rw [htarget]
  dsimp only
  rw [hreceiver]
  dsimp only
  unfold addRouteOn
  dsimp only
  cases hget : agg.get? receiver with
  | none =>
      -- a struct without a service is not among those whose service is out
      have hout : agg.failed.contains receiver = false := by
        rw [Bool.eq_false_iff]
        intro hcontains
        obtain ⟨s, hs, -⟩ := h.failed receiver (List.contains_iff_mem.mp hcontains)
        exact nomatch hget.symm.trans hs
      rw [hout]
      exact Or.inl ⟨_, List.mem_append_right _ (List.mem_singleton_self _)⟩
  | some service =>
      cases hrouter : service.isRouter with
      | false =>
          unfold routeIgnored?
          dsimp only
          rw [hrouter]
          exact Or.inl ⟨_, List.mem_append_right _ (List.mem_singleton_self _)⟩
      | true =>
          refine Or.inr ?_
          unfold routeIgnored?
          dsimp only
          rw [if_pos hrouter]
          show Takes (if supportedResults d.results then _ else _) _ _ _
          split
          · unfold enterEndpoint
            split
            · rw [structName_of_get? hget]
              exact takes_report hget _ _ _
            · rw [structName_of_get? hget]
              refine ⟨_, get?_modify_self (fun s => s.extends_endpoints _ _) hget, Or.inr ?_⟩
              exact service.shows_endpoint _ _
          · exact takes_report hget _ _ _

/-! ## Reading all annotations -/

/-- The annotations of a folder with their files. -/
def placed (contributions : List Contribution) : List (SourceFile × Annotation) :=
  contributions.flatMap fun c => c.annotations.map fun a => (c.file, a)

/-- What the markers of a folder give. -/
def marked (contributions : List Contribution) : Aggregate :=
  ((placed contributions).filter fun (_, a) => a.directive.isMarker).foldl
    (fun agg (file, a) => agg.addMarker file a) {}

variable {contributions : List Contribution} {c : Contribution}

theorem mem_placed (hc : c ∈ contributions) (ha : a ∈ c.annotations) :
    (c.file, a) ∈ placed contributions :=
  List.mem_flatMap.mpr ⟨c, hc, List.mem_map.mpr ⟨a, ha, rfl⟩⟩

theorem sound_marked (contributions : List Contribution) : (marked contributions).Sound := by
  refine List.foldlRecOn _ _ sound_empty ?_
  intro agg h p _
  exact h.markerStep (markerStep_addMarker agg p.1 p.2)

/-- What reading one element brings about is still there when all are read: `P` holds in front of
    each element, and `Q` is kept by the rest. -/
theorem foldl_of_mem {α : Type} {P Q : Aggregate → Prop} {step : Aggregate → α → Aggregate}
    {items : List α} {x : α} (hx : x ∈ items) (h : P agg)
    (hP : ∀ agg y, P agg → P (step agg y)) (hset : ∀ agg, P agg → Q (step agg x))
    (hgrows : ∀ agg y, Grows agg (step agg y)) (hQ : ∀ agg agg', Q agg → agg.Grows agg' → Q agg') :
    Q (items.foldl step agg) := by
  induction items generalizing agg with
  | nil => exact absurd hx List.not_mem_nil
  | cons y items ih =>
      rcases List.mem_cons.mp hx with rfl | hx
      · -- from here on the aggregate grows, and that keeps `Q`
        refine List.foldlRecOn items step (hset agg h) ?_
        intro later hlater y _
        exact hQ later _ hlater (hgrows later y)
      · exact ih hx (hP agg y h)

theorem takes_marked (hc : c ∈ contributions) (ha : a ∈ c.annotations)
    (hmarker : a.directive.isMarker = true) (htarget : a.target = some structName) :
    (marked contributions).Takes structName (c.file.locate a.line) a.directive.kind := by
  have hmem : (c.file, a) ∈ (placed contributions).filter fun (_, a) => a.directive.isMarker :=
    List.mem_filter.mpr ⟨mem_placed hc ha, hmarker⟩
  refine foldl_of_mem (P := fun _ => True)
    (Q := (Takes · structName (c.file.locate a.line) a.directive.kind)) hmem trivial ?_ ?_ ?_ ?_
  · intro agg p _
    trivial
  · intro agg _
    exact takes_addMarker agg htarget hmarker
  · intro agg p
    exact (markerStep_addMarker agg p.1 p.2).grows
  · intro agg agg' h hgrows
    exact h.grows hgrows

/-- What reading an annotation brings about behind the markers is there when all are read. -/
theorem ofFiles_of_mem {Q : Aggregate → Prop} (hc : c ∈ contributions) (ha : a ∈ c.annotations)
    (hset : ∀ agg, agg.Sound → (marked contributions).Grows agg → Q (agg.addMember c.file a))
    (hQ : ∀ agg agg', Q agg → agg.Grows agg' → Q agg') : Q (ofFiles contributions) := by
  have hmarked : (marked contributions).Grows (marked contributions) :=
    .of_met rfl (List.Subset.refl _)
  refine foldl_of_mem (P := fun agg => agg.Sound ∧ (marked contributions).Grows agg)
    (mem_placed hc ha) ⟨sound_marked contributions, hmarked⟩ ?_ ?_ ?_ hQ
  · rintro agg p ⟨hsound, hgrows⟩
    have hstep := memberStep_addMember agg p.1 p.2
    exact ⟨hsound.memberStep hstep, hgrows.trans hstep.grows⟩
  · rintro agg ⟨hsound, hgrows⟩
    exact hset agg hsound hgrows
  · intro agg p
    exact (memberStep_addMember agg p.1 p.2).grows

/-- Every marker is taken up by the service of its struct. -/
theorem takes_of_marker (hc : c ∈ contributions) (ha : a ∈ c.annotations)
    (hmarker : a.directive.isMarker = true) (htarget : a.target = some structName) :
    (ofFiles contributions).Takes structName (c.file.locate a.line) a.directive.kind := by
  refine ofFiles_of_mem (Q := (Takes · structName (c.file.locate a.line) a.directive.kind))
    hc ha ?_ fun agg agg' => Takes.grows
  intro agg _ hgrows
  -- the marker was read before all members, and reading it once more as a member only adds
  have hstep := memberStep_addMember agg c.file a
  exact (takes_marked hc ha hmarker htarget).grows (hgrows.trans hstep.grows)

/-- Every field directive of a struct with a marker is taken up by the service of the struct. -/
theorem takes_of_field {m : Annotation} {field : StructField} {name : String}
    (hc : c ∈ contributions) (ha : a ∈ c.annotations) (hm : m ∈ c.annotations)
    (hmarker : m.directive.isMarker = true) (howner : m.target = some field.owner)
    (hkind : a.directive.isFieldDirective = true)
    (htarget : a.targetLine.bind c.file.index.fieldAt? = some field)
    (hname : field.names.head? = some name) :
    (ofFiles contributions).Takes field.owner (c.file.locate a.line) a.directive.kind := by
  refine ofFiles_of_mem (Q := (Takes · field.owner (c.file.locate a.line) a.directive.kind))
    hc ha ?_ fun agg agg' => Takes.grows
  intro agg _ hgrows
  -- whatever was read in between, the struct has its service from the marker
  obtain ⟨service, hservice, -⟩ := (takes_marked hc hm hmarker howner).grows hgrows
  rw [addMember_of_field agg c.file hkind]
  exact takes_addField htarget hname hservice hkind

/-- Every route is ignored with a warning or taken up by the service of its receiver. -/
theorem settled_of_route {d : Declaration} {receiver : String} {spec : RouteSpec}
    (hc : c ∈ contributions) (ha : a ∈ c.annotations) (hroute : a.directive = .route spec)
    (htarget : a.targetLine.bind c.file.index.declarationAt? = some d)
    (hreceiver : d.receiver = some receiver) :
    (∃ reason, Issue.ignored (c.file.locate a.line) a.directive.label reason
      ∈ (ofFiles contributions).issues) ∨
    (ofFiles contributions).Takes receiver (c.file.locate a.line) .route := by
  refine ofFiles_of_mem (Q := fun agg =>
    (∃ reason, Issue.ignored (c.file.locate a.line) a.directive.label reason ∈ agg.issues) ∨
      agg.Takes receiver (c.file.locate a.line) .route) hc ha ?_ ?_
  · intro agg hsound _
    have hsettled := settled_addRoute hsound htarget hreceiver spec
    unfold addMember
    rw [hroute] at hsettled ⊢
    exact hsettled
  · rintro agg agg' (⟨reason, hreason⟩ | htaken) hgrows
    · exact Or.inl ⟨reason, hgrows.issues hreason⟩
    · exact Or.inr (htaken.grows hgrows)

end Aggregate

end ServiceWiring
