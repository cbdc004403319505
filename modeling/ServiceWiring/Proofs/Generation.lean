import ServiceWiring.Folder.Generation
import ServiceWiring.Proofs.Import
import ServiceWiring.Proofs.Text

/-!
# What a generation depends on, and what it speaks of

Generating for a folder never fails.  Every issue on the way is about one of the sources, and of
the generated file that is there only the preserved blocks count.

* `Aggregate.MemberStep`, `Aggregate.MarkerStep` — what reading one annotation can do to the
  services met so far;
* `Aggregate.Within` — all services and issues stand in given files, kept by every step;
* `Generation.ofState_eq_ok` — the generation for a folder, `Generation.made`;
* `Generation.anyMarker_of_text` — there is a generated file only where a source marks a service;
* `Generation.file_of_issue` — every issue of a generation is about a source.
-/

namespace ServiceWiring

/-! ## Aggregation -/

namespace Aggregate

variable {agg agg' : Aggregate} {file : SourceFile} {a : Annotation} {loc : Location}
  {files : String → Prop}

theorem structName_of_get? {structName : String} {s : Service} (h : agg.get? structName = some s) :
    s.structName = structName :=
  eq_of_beq (List.find?_some h :)

theorem get?_structName {structName : String} {s : Service} (h : agg.get? structName = some s) :
    agg.get? s.structName = some s := by
  rw [structName_of_get? h]
  exact h

/-- What reading an annotation that is no marker can do. -/
inductive MemberStep (file : SourceFile) (a : Annotation) (agg : Aggregate) : Aggregate → Prop where
  | stay : MemberStep file a agg agg
  | conflict {structName : String} {service : Service}
      (hservice : agg.get? structName = some service) (conflict : Conflict)
      (other : Option String) :
      MemberStep file a agg (agg.report structName (file.locate a.line) conflict other)
  | warning (directive reason : String) :
      MemberStep file a agg
        { agg with issues := agg.issues ++ [.ignored (file.locate a.line) directive reason] }
  | field {field : StructField} {name : String} {service : Service} {origin : FieldOrigin}
      (hfield : field ∈ file.index.fields) (hname : name ∈ field.names)
      (hservice : agg.get? field.owner = some service)
      (horigin : originOf? field.type a.directive = some (.ok origin)) :
      MemberStep file a agg (agg.modify service.structName fun s =>
        { s with
          fields := s.fields ++
            [⟨name, .resolve field.type file.index, origin, file.locate a.line⟩] })
  | endpoint {d : Declaration} {receiver : String} {service : Service} (spec : RouteSpec)
      (hd : d ∈ file.index.declarations) (hreceiver : d.receiver = some receiver)
      (hservice : agg.get? receiver = some service) :
      MemberStep file a agg (agg.modify service.structName fun s =>
        let e := endpointOf file service spec d (file.locate a.line)
        { s with
          endpoints := s.endpoints ++ [e]
          imports := addImports s.imports (endpointImports e) })

theorem memberStep_addField (agg : Aggregate) (file : SourceFile) (a : Annotation) :
    MemberStep file a agg (agg.addField file a) := by
  unfold addField
  split
  · exact .stay
  · rename_i field hfield
    obtain ⟨line, -, hfield⟩ := Option.bind_eq_some_iff.mp hfield
    split
    · rename_i name service hname hservice
      dsimp only
      split
      · exact .stay
      · exact .conflict hservice _ _
      · rename_i origin horigin
        unfold enterField
        split
        · exact .conflict (get?_structName hservice) _ _
        · exact .field (List.mem_of_find?_eq_some hfield) (List.mem_of_head? hname) hservice
            horigin
    · exact .stay

theorem memberStep_addRoute (agg : Aggregate) (file : SourceFile) (spec : RouteSpec)
    (a : Annotation) : MemberStep file a agg (agg.addRoute file spec a) := by
  unfold addRoute
  split
  · exact .stay
  · rename_i d hd
    obtain ⟨line, -, hd⟩ := Option.bind_eq_some_iff.mp hd
    split
    · exact .stay
    · rename_i receiver hreceiver
      unfold addRouteOn
      dsimp only
      split
      · exact .stay
      · split
        · exact .warning ..
        · rename_i service _ hservice
          split
          · unfold enterEndpoint
            split
            · exact .conflict (get?_structName hservice) _ _
            · exact .endpoint spec (List.mem_of_find?_eq_some hd) hreceiver hservice
          · exact .conflict hservice _ _
        · exact .stay

/-- Reading an annotation takes one step, at the line of the annotation. -/
theorem memberStep_addMember (agg : Aggregate) (file : SourceFile) (a : Annotation) :
    MemberStep file a agg (agg.addMember file a) := by
  unfold addMember
  split
  · exact memberStep_addField agg file a
  · exact memberStep_addField agg file a
  · exact memberStep_addRoute agg file _ a
  · exact .stay

/-- What reading a marker can do. -/
inductive MarkerStep (file : SourceFile) (a : Annotation) (agg : Aggregate) : Aggregate → Prop where
  | stay : MarkerStep file a agg agg
  | repeated {structName : String} {existing : Service}
      (hexisting : agg.get? structName = some existing) (conflict : Conflict)
      (other : Option String) :
      MarkerStep file a agg (agg.report structName (file.locate a.line) conflict other)
  | enter {structName : String} {service : Service} (htarget : a.target = some structName)
      (hservice : serviceOf? structName (file.locate a.line) a.directive = some service)
      (hnew : agg.get? structName = none) :
      MarkerStep file a agg (agg.enter service)

theorem loc_of_serviceOf? {structName : String} {d : Directive} {service : Service}
    (h : serviceOf? structName loc d = some service) : service.loc = loc := by
  unfold serviceOf? at h
  split at h
  · rw [← Option.some.inj h]
  · rw [← Option.some.inj h]
  · cases h

theorem markerStep_addMarker (agg : Aggregate) (file : SourceFile) (a : Annotation) :
    MarkerStep file a agg (agg.addMarker file a) := by
  unfold addMarker
  split
  · exact .stay
  · rename_i structName htarget
    dsimp only
    split
    · exact .stay
    · rename_i service hservice
      split
      · rename_i existing hexisting
        exact .repeated hexisting _ _
      · rename_i hnew
        exact .enter htarget hservice hnew

/-- What holds at the start and is kept by every marker and every other annotation holds of all
    files: markers come first, then everything else on top of them. -/
theorem ofFiles_induction {P : Aggregate → Prop} (contributions : List Contribution)
    (hempty : P {})
    (hmarker : ∀ agg, ∀ c a, c ∈ contributions → a ∈ c.annotations → P agg →
      P (agg.addMarker c.file a))
    (hmember : ∀ agg, ∀ c a, c ∈ contributions → a ∈ c.annotations → P agg →
      P (agg.addMember c.file a)) : P (ofFiles contributions) := by
  have hplaced : ∀ p ∈ contributions.flatMap (fun c => c.annotations.map fun a => (c.file, a)),
      ∃ c ∈ contributions, ∃ a ∈ c.annotations, p = (c.file, a) := by
    intro p hp
    obtain ⟨c, hc, hp⟩ := List.mem_flatMap.mp hp
    obtain ⟨a, ha, rfl⟩ := List.mem_map.mp hp
    exact ⟨c, hc, a, ha, rfl⟩
  refine List.foldlRecOn _ _ (List.foldlRecOn _ _ hempty ?_) ?_
  · intro agg h p hp
    obtain ⟨c, hc, a, ha, rfl⟩ := hplaced p (List.mem_filter.mp hp).1
    exact hmarker agg c a hc ha h
  · intro agg h p hp
    obtain ⟨c, hc, a, ha, rfl⟩ := hplaced p hp
    exact hmember agg c a hc ha h

/-! ### The files of services and issues -/

/-- All services and issues stand in the given files. -/
structure Within (files : String → Prop) (agg : Aggregate) : Prop where
  services : ∀ s ∈ agg.met, files s.loc.file
  issues : ∀ i ∈ agg.issues, files i.file

theorem within_empty (files : String → Prop) : Within files {} :=
  ⟨fun _ h => absurd h List.not_mem_nil, fun _ h => absurd h List.not_mem_nil⟩

/-- One issue more. -/
theorem Within.concat (h : agg.Within files) {issue : Issue} (hfile : files issue.file) :
    Within files { agg with issues := agg.issues ++ [issue] } := by
  refine ⟨h.services, ?_⟩
  intro i hi
  rcases List.mem_append.mp hi with hi | hi
  · exact h.issues i hi
  · rw [List.mem_singleton.mp hi]
    exact hfile

theorem Within.report (h : agg.Within files) (hloc : files loc.file) (structName : String)
    (conflict : Conflict) (other : Option String) :
    (agg.report structName loc conflict other).Within files := by
  have hreported : Within files
      { agg with issues := (agg.report structName loc conflict other).issues } :=
    h.concat hloc
  exact ⟨h.services, hreported.issues⟩

theorem Within.modify (h : agg.Within files) {f : Service → Service} (hf : ∀ s, (f s).loc = s.loc)
    (structName : String) : (agg.modify structName f).Within files := by
  refine ⟨?_, h.issues⟩
  intro s hs
  obtain ⟨s', hs', rfl⟩ := List.mem_map.mp hs
  have hloc : (if s'.structName == structName then f s' else s').loc = s'.loc := by
    split
    · exact hf s'
    · rfl
  rw [hloc]
  exact h.services s' hs'

theorem Within.memberStep (h : agg.Within files) (hstep : MemberStep file a agg agg')
    (hloc : files file.path.display) : agg'.Within files := by
  cases hstep with
  | stay => exact h
  | conflict _ conflict other => exact h.report hloc _ conflict other
  | warning directive reason => exact h.concat hloc
  | field _ _ _ _ =>
      refine h.modify ?_ _
      intro s
      rfl
  | endpoint spec _ _ _ =>
      refine h.modify ?_ _
      intro s
      rfl

theorem Within.markerStep (h : agg.Within files) (hstep : MarkerStep file a agg agg')
    (hloc : files file.path.display) : agg'.Within files := by
  cases hstep with
  | stay => exact h
  | repeated _ conflict other => exact h.report hloc _ conflict other
  | @enter structName service _ hservice _ =>
      have hservice := loc_of_serviceOf? hservice
      have hmet : Within files { agg with met := agg.met ++ [service] } := by
        refine ⟨?_, h.issues⟩
        intro s hs
        rcases List.mem_append.mp hs with hs | hs
        · exact h.services s hs
        · rw [List.mem_singleton.mp hs, hservice]
          exact hloc
      unfold enter
      dsimp only
      split
      · exact hmet
      · -- the name is taken, and the owner fails with the newcomer
        rename_i owner _
        have hfailed : Within files
            { agg with met := agg.met ++ [service], failed := agg.failed ++ [owner.structName] } :=
          ⟨hmet.services, hmet.issues⟩
        refine hfailed.report ?_ ..
        rw [hservice]
        exact hloc

/-- The services and issues of some files stand in these files. -/
theorem within_ofFiles (contributions : List Contribution) :
    (ofFiles contributions).Within fun file =>
      ∃ c ∈ contributions, file = c.file.path.display := by
  refine ofFiles_induction contributions (within_empty _) ?_ ?_
  · intro agg c a hc ha h
    exact h.markerStep (markerStep_addMarker agg c.file a) ⟨c, hc, rfl⟩
  · intro agg c a hc ha h
    exact h.memberStep (memberStep_addMember agg c.file a) ⟨c, hc, rfl⟩

theorem mem_met_of_mem_services {s : Service} (h : s ∈ agg.services) : s ∈ agg.met :=
  (List.mem_filter.mp (List.mem_mergeSort.mp h)).1

theorem services_of_met_eq_nil (h : agg.met = []) : agg.services = [] := by
  rw [services, h, List.filter_nil, List.mergeSort_nil]

end Aggregate

/-! ## Emission -/

namespace Emission

variable {hooks : List String} {services : List Service}

theorem mem_of_rejected {s : Service} {conflict : Conflict}
    (h : (s, conflict) ∈ (planAll hooks services).2) : s ∈ services := by
  induction services with
  | nil => cases h
  | cons first rest ih =>
      unfold planAll at h
      dsimp only at h
      split at h
      · exact List.mem_cons_of_mem _ (ih h)
      · rcases List.mem_cons.mp h with h | h
        · rw [(Prod.mk.inj h).1]
          exact List.mem_cons_self ..
        · exact List.mem_cons_of_mem _ (ih h)

/-- Every plan is that of one of the services. -/
theorem exists_of_mem_planAll {plan : ServicePlan} (h : plan ∈ (planAll hooks services).1) :
    ∃ s ∈ services, ServicePlan.ofService hooks s = .ok plan := by
  induction services with
  | nil => cases h
  | cons first rest ih =>
      unfold planAll at h
      dsimp only at h
      split at h
      · rename_i planned hfirst
        rcases List.mem_cons.mp h with rfl | h
        · exact ⟨first, List.mem_cons_self .., hfirst⟩
        · obtain ⟨s, hs, hplan⟩ := ih h
          exact ⟨s, List.mem_cons_of_mem _ hs, hplan⟩
      · obtain ⟨s, hs, hplan⟩ := ih h
        exact ⟨s, List.mem_cons_of_mem _ hs, hplan⟩

/-- The names that the code of some services refers to. -/
def namesOf (runtime : ImportEntry) (plans : List ServicePlan) : CodeNames :=
  let imports : ResolvedImports :=
    ⟨ResolvedImports.renameFrom [] (ResolvedImports.merge (importsOf runtime plans))⟩
  { imports, runtime := (imports.nameOf? runtime.path).getD runtime.name }

/-- Generating a file never fails: there is a file as soon as a service can be planned. -/
theorem ofServices_eq_ok (runtime : ImportEntry) (hooks : List String) (parts : FileParts) :
    ofServices runtime hooks parts = .ok (
      let (plans, rejected) := planAll hooks parts.services
      { text :=
          if plans.isEmpty then none
          else some (Text.unlines (fileLines (namesOf runtime plans) parts.package plans parts.blocks))
        services := plans.map (·.service.name)
        rejected }) := by
  unfold ofServices
  dsimp only
  split
  · rename_i hplans
    rw [List.isEmpty_iff.mp hplans]
    rfl
  · rw [ResolvedImports.ofEntries_eq_ok]
    rfl

end Emission

/-! ## Generation -/

namespace FolderState

/-- The sources of a folder, parsed. -/
def files (state : FolderState) : List SourceFile :=
  state.inputs.map fun input => .parse input.path input.content

/-- What the sources contribute. -/
def findings (state : FolderState) : List SourceFindings :=
  state.inputs.filterMap fun input =>
    SourceFindings.ofSource? (.parse input.path input.content) input.content

/-- The services of a folder before their code is planned. -/
def aggregate (state : FolderState) : Aggregate :=
  if state.anyMarker then .ofFiles (state.findings.map (·.contribution)) else {}

/-- The services that can be generated, and those that cannot. -/
def planned (state : FolderState) : List ServicePlan × List (Service × Conflict) :=
  Emission.planAll (textHooks state.files) state.aggregate.services

/-- The file of a folder with the given blocks, if it has services. -/
def textWith (state : FolderState) (runtime : ImportEntry) (blocks : List PreservedBlock) :
    Option String :=
  if state.planned.1.isEmpty then none
  else some (Text.unlines (Emission.fileLines (Emission.namesOf runtime state.planned.1)
    (Generation.packageName state.files state.name) state.planned.1 blocks))

/-- All issues of a folder. -/
def issues (state : FolderState) : List Issue :=
  Issue.sort (state.readIssues ++ state.findings.flatMap (·.issues) ++ state.aggregate.issues
    ++ state.planned.2.map Generation.rejectedIssue)

theorem aggregate_of_unmarked {state : FolderState} (h : state.anyMarker = false) :
    state.aggregate = {} := by
  rw [aggregate, h, if_neg Bool.false_ne_true]

theorem planned_of_unmarked {state : FolderState} (h : state.anyMarker = false) :
    state.planned = ([], []) := by
  rw [planned, aggregate_of_unmarked h, Aggregate.services_of_met_eq_nil rfl]
  rfl

/-- The blocks of the file that is there. -/
def blocksOf (previous : Option String) : List PreservedBlock :=
  (previous.map PreservedBlock.extract).getD []

end FolderState

namespace Generation

/-- The generation for a folder. -/
def made (runtime : ImportEntry) (state : FolderState) (previous : Option String) : Generation where
  issues := state.issues
  services := state.planned.1.map (·.service.name)
  text := state.textWith runtime (FolderState.blocksOf previous)

/-- Generating for a folder never fails. -/
theorem ofState_eq_ok (runtime : ImportEntry) (state : FolderState) (previous : Option String) :
    ofState runtime state previous = .ok (made runtime state previous) := by
  have hfiles : (state.inputs.map fun input =>
      (SourceFile.parse input.path input.content, input.content)).map (·.1) = state.files := by
    rw [List.map_map]
    rfl
  unfold ofState
  simp only [hfiles, List.filterMap_map, Emission.ofServices_eq_ok]
  rfl

/-- A generation depends on the sources, the name of the folder and the previous file only. -/
theorem made_congr {state state' : FolderState} (hsources : state.sources = state'.sources)
    (hname : state.name = state'.name) (runtime : ImportEntry) (previous : Option String) :
    made runtime state previous = made runtime state' previous := by
  cases state with
  | mk sources output manifest name =>
      cases state' with
      | mk sources' output' manifest' name' =>
          subst hsources hname
          rfl

/-! ### The generated file -/

theorem isGenerated_of_text {runtime : ImportEntry} {state : FolderState}
    {previous : Option String} {text : String} (h : (made runtime state previous).text = some text) :
    isGenerated text = true := by
  unfold made FolderState.textWith at h
  dsimp only at h
  split at h
  · cases h
  · rw [← Option.some.inj h]
    unfold isGenerated Emission.fileLines Text.unlines
    simp only [List.cons_append, List.foldr_cons, String.toList_append, List.append_assoc]
    exact Text.startsWith_append _ _

/-- There is a generated file only where a source marks a service. -/
theorem anyMarker_of_text {runtime : ImportEntry} {state : FolderState}
    {previous : Option String} {text : String} (h : (made runtime state previous).text = some text) :
    state.anyMarker = true := by
  cases hmarker : state.anyMarker with
  | true => rfl
  | false =>
      unfold made FolderState.textWith at h
      rw [FolderState.planned_of_unmarked hmarker] at h
      cases h

theorem text_isSome_of_previous (runtime : ImportEntry) (state : FolderState)
    (previous previous' : Option String) :
    (made runtime state previous).text.isSome = (made runtime state previous').text.isSome := by
  cases hplans : state.planned.1.isEmpty with
  | true => simp [made, FolderState.textWith, hplans]
  | false => simp [made, FolderState.textWith, hplans]

/-! ### The files of issues -/

theorem file_of_ofLine {file : SourceFile} {line : Nat} {text : String} {i : Issue}
    (h : i ∈ (Collected.ofLine file line text).issues) : i.file = file.path.display := by
  unfold Collected.ofLine at h
  split at h
  · split at h
    · exact absurd h List.not_mem_nil
    · exact absurd h List.not_mem_nil
    · rw [List.mem_singleton.mp h]
      rfl
  · exact absurd h List.not_mem_nil

theorem file_of_collected {file : SourceFile} {i : Issue} (h : i ∈ (Collected.ofFile file).issues) :
    i.file = file.path.display := by
  obtain ⟨collected, hcollected, hi⟩ := List.mem_flatMap.mp h
  obtain ⟨⟨text, n⟩, -, rfl⟩ := List.mem_map.mp hcollected
  exact file_of_ofLine hi

theorem file_of_validated {file : SourceFile} {annotations : List Annotation} {i : Issue}
    (h : i ∈ (Placement.validate file annotations).issues) : i.file = file.path.display := by
  unfold Placement.validate at h
  dsimp only at h
  split at h
  · obtain ⟨a, -, ha⟩ := List.mem_filterMap.mp h
    obtain ⟨owner, -, rfl⟩ := Option.map_eq_some_iff.mp ha
    rfl
  · obtain ⟨a, -, ha⟩ := List.mem_filterMap.mp h
    unfold Placement.check at ha
    dsimp only at ha
    split at ha
    · cases ha
    · rw [← Option.some.inj ha]
      rfl

theorem mem_findings {state : FolderState} {f : SourceFindings} (h : f ∈ state.findings) :
    ∃ input ∈ state.inputs, f.file.path = input.path ∧
      ∀ i ∈ f.issues, i.file = input.path.display := by
  obtain ⟨input, hinput, hf⟩ := List.mem_filterMap.mp h
  refine ⟨input, hinput, ?_⟩
  unfold SourceFindings.ofSource? at hf
  split at hf
  · rw [← Option.some.inj hf]
    refine ⟨rfl, ?_⟩
    intro i hi
    rcases List.mem_append.mp hi with hi | hi
    · exact file_of_collected hi
    · exact file_of_validated hi
  · cases hf

theorem mem_issues_of_readIssues {state : FolderState} {i : Issue} (h : i ∈ state.readIssues) :
    i ∈ state.issues := by
  refine List.mem_mergeSort.mpr ?_
  simp only [List.mem_append]
  exact Or.inl (Or.inl (Or.inl h))

theorem isError_of_readIssues {state : FolderState} {i : Issue} (h : i ∈ state.readIssues) :
    i.isError = true := by
  obtain ⟨⟨path, result⟩, -, hi⟩ := List.mem_filterMap.mp h
  cases result with
  | ok content => cases hi
  | error e =>
      rw [← Option.some.inj hi]
      rfl

/-- Every issue of a generation is about a source that was read, unless it is that of a source
    that could not be read. -/
theorem file_of_issue {state : FolderState} {i : Issue} (h : i ∈ state.issues) :
    i ∈ state.readIssues ∨ ∃ input ∈ state.inputs, i.file = input.path.display := by
  have hwithin : state.aggregate.Within fun file =>
      ∃ input ∈ state.inputs, file = input.path.display := by
    unfold FolderState.aggregate
    split
    · have hall := Aggregate.within_ofFiles (state.findings.map (·.contribution))
      have hfile : ∀ file, (∃ c ∈ state.findings.map (·.contribution),
          file = c.file.path.display) → ∃ input ∈ state.inputs, file = input.path.display := by
        rintro file ⟨c, hc, rfl⟩
        obtain ⟨f, hf, rfl⟩ := List.mem_map.mp hc
        obtain ⟨input, hinput, hpath, -⟩ := mem_findings hf
        exact ⟨input, hinput, congrArg Path.display hpath⟩
      exact ⟨fun s hs => hfile _ (hall.services s hs), fun i hi => hfile _ (hall.issues i hi)⟩
    · exact Aggregate.within_empty _
  have hmem := List.mem_mergeSort.mp h
  simp only [List.mem_append] at hmem
  rcases hmem with ((hread | hfinding) | haggregate) | hrejected
  · exact Or.inl hread
  · obtain ⟨f, hf, hi⟩ := List.mem_flatMap.mp hfinding
    obtain ⟨input, hinput, -, hissues⟩ := mem_findings hf
    exact Or.inr ⟨input, hinput, hissues i hi⟩
  · exact Or.inr (hwithin.issues i haggregate)
  · -- a service that cannot be written is reported where it was met
    obtain ⟨⟨s, conflict⟩, hs, rfl⟩ := List.mem_map.mp hrejected
    have hmet := Aggregate.mem_met_of_mem_services (Emission.mem_of_rejected hs)
    exact Or.inr (hwithin.services s hmet)

end Generation

end ServiceWiring
