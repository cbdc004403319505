import ServiceWiring.Proofs.Aggregation
import ServiceWiring.Proofs.DirectiveLine
import ServiceWiring.Proofs.Pass

/-!
# Accounting for directives

A directive goes through many hands: its line is read, its place is checked, it is taken up by a
service, and the code of the service is planned.  A pass that generates accounts for every
directive of its sources: an issue tells why it has no effect, or a service in the generated file
has a part for it.

There is one gap.  Where no source of the folder marks a service, services are not looked for at
all, and a route in good order disappears without the warning that it has no effect.

* `FolderReport.Accounts` — a report tells what became of a directive;
* `FolderState.Loses` — a directive in the gap;
* `FolderPass.runWith_accounts` — a pass accounts for a directive exactly if it is not in the gap;
* `FolderPass.not_accounts_of_loneRoute` — a folder with a directive in the gap.
-/

namespace ServiceWiring

/-- A source, parsed. -/
def SourceInput.file (input : SourceInput) : SourceFile :=
  .parse input.path input.content

/-- What a source with a directive contributes. -/
def SourceInput.findings (input : SourceInput) : SourceFindings :=
  let collected := Collected.ofFile input.file
  let validated := Placement.validate input.file collected.annotations
  { file := input.file
    annotations := validated.annotations
    issues := collected.issues ++ validated.issues }

theorem SourceInput.contribution_findings (input : SourceInput) : input.findings.contribution =
    ⟨input.file, (Placement.validate input.file
      (Collected.ofFile input.file).annotations).annotations⟩ := by
  rw [SourceFindings.contribution, findings]

theorem SourceInput.mem_issues_findings {input : SourceInput} {i : Issue} :
    i ∈ input.findings.issues ↔ i ∈ (Collected.ofFile input.file).issues ∨
      i ∈ (Placement.validate input.file (Collected.ofFile input.file).annotations).issues :=
  List.mem_append

/-- The services in the generated file. -/
def FolderState.emitted (state : FolderState) : List Service :=
  state.planned.1.map (·.service)

/-- What the report of a pass tells of a directive on a line of a source. -/
inductive FolderReport.Accounts (report : FolderReport) (state : FolderState) (file : SourceFile)
    (line : Nat) (kind : DirectiveKind) : Prop where
  /-- The directive is malformed. -/
  | malformed {error : String}
      (h : .malformed (file.locate line) kind.label error ∈ report.issues)
  /-- A directive of the file is misplaced. -/
  | misplaced {loc : Location} {directive expected found : String}
      (hfile : loc.file = file.path.display)
      (h : .misplaced loc directive expected found ∈ report.issues)
  /-- The directive has no effect. -/
  | ignored {reason : String}
      (h : .ignored (file.locate line) kind.label reason ∈ report.issues)
  /-- The service of the struct that the directive belongs to has a conflict. -/
  | conflict {s : Service} {loc : Location} {message : String} {other : Option String}
      (hs : s ∈ state.aggregate.met) (hstruct : file.structBehind? line = some s.structName)
      (h : .conflict loc s.name message other ∈ report.issues)
  /-- The service of the struct is in the generated file and has a part for the directive. -/
  | shown {s : Service} (hs : s ∈ state.emitted) (hname : s.name ∈ report.services)
      (hstruct : file.structBehind? line = some s.structName)
      (hshows : s.Shows (file.locate line) kind)

/-- A directive that nothing is told of: a route in good order, in a file without misplaced
    directives, of a folder where no source marks a service. -/
structure FolderState.Loses (state : FolderState) (file : SourceFile) (line : Nat) : Prop where
  unmarked : state.anyMarker = false
  placed : (Placement.validate file (Collected.ofFile file).annotations).rejected = false
  route : ∃ a ∈ (Collected.ofFile file).annotations, a.line = line ∧ a.directive.kind = .route

/-! ## Planned services -/

theorem ServicePlan.service_of_ofService {hooks : List String} {service : Service}
    {plan : ServicePlan} (h : ofService hooks service = .ok plan) : plan.service = service := by
  obtain ⟨fields, -, rfl⟩ := map_eq_ok h
  rfl

/-- Every service has code or is rejected. -/
theorem Emission.planned_or_rejected {hooks : List String} {services : List Service} {s : Service}
    (h : s ∈ services) : (∃ plan ∈ (planAll hooks services).1, plan.service = s) ∨
      ∃ conflict, (s, conflict) ∈ (planAll hooks services).2 := by
  induction services with
  | nil => exact absurd h List.not_mem_nil
  | cons first rest ih =>
      rw [planAll]
      dsimp only
      cases hfirst : ServicePlan.ofService hooks first with
      | ok plan =>
          rcases List.mem_cons.mp h with rfl | h
          · exact Or.inl ⟨plan, List.mem_cons_self .., ServicePlan.service_of_ofService hfirst⟩
          · rcases ih h with ⟨other, hother, hs⟩ | hrejected
            · exact Or.inl ⟨other, List.mem_cons_of_mem _ hother, hs⟩
            · exact Or.inr hrejected
      | error conflict =>
          rcases List.mem_cons.mp h with rfl | h
          · exact Or.inr ⟨conflict, List.mem_cons_self ..⟩
          · rcases ih h with hplanned | ⟨other, hother⟩
            · exact Or.inl hplanned
            · exact Or.inr ⟨other, List.mem_cons_of_mem _ hother⟩

/-! ## The issues and services of a folder -/

namespace FolderState

variable {state : FolderState} {input : SourceInput} {line : Nat} {kind : DirectiveKind}
  {i : Issue}

theorem mem_issues_iff : i ∈ state.issues ↔ i ∈ state.readIssues ∨
    (∃ f ∈ state.findings, i ∈ f.issues) ∨ i ∈ state.aggregate.issues ∨
      ∃ p ∈ state.planned.2, Generation.rejectedIssue p = i := by
  show i ∈ Issue.sort _ ↔ _
  rw [Issue.sort, List.mem_mergeSort]
  simp only [List.mem_append, List.mem_flatMap, List.mem_map, or_assoc]

theorem sound_aggregate (state : FolderState) : state.aggregate.Sound := by
  rw [aggregate]
  split
  · exact Aggregate.sound_ofFiles _
  · exact Aggregate.sound_empty

/-- A line of a source that was read is a line of its content. -/
theorem mem_lines_of_directiveAt? (h : input.file.directiveAt? line = some kind) :
    ∃ text ∈ Text.lines input.content.toList, Directive.onLine? text = some kind := by
  obtain ⟨text, hline, hkind⟩ := Option.bind_eq_some_iff.mp h
  obtain ⟨n, -, hmem⟩ := Collected.line?_eq_some_iff.mp hline
  have hlines : input.file.lines = (Text.lines input.content.toList).map String.ofList := rfl
  rw [hlines] at hmem
  obtain ⟨raw, hraw, rfl⟩ := List.mem_map.mp (List.fst_mem_of_mem_zipIdx hmem)
  rw [String.toList_ofList] at hkind
  exact ⟨raw, hraw, hkind⟩

theorem anyMarker_of_directiveAt? (hinput : input ∈ state.inputs)
    (h : input.file.directiveAt? line = some kind) (hmarker : kind.isMarker = true) :
    state.anyMarker = true := by
  obtain ⟨text, htext, hkind⟩ := mem_lines_of_directiveAt? h
  refine List.any_eq_true.mpr ⟨input, hinput, ?_⟩
  rw [hasMarker_eq, List.any_eq_true]
  refine ⟨text, htext, ?_⟩
  rw [hkind]
  exact hmarker

theorem mem_findings_of_directiveAt? (hinput : input ∈ state.inputs)
    (h : input.file.directiveAt? line = some kind) : input.findings ∈ state.findings := by
  refine List.mem_filterMap.mpr ⟨input, hinput, ?_⟩
  obtain ⟨text, htext, hkind⟩ := mem_lines_of_directiveAt? h
  have hdirectives : hasDirectives input.content = true := by
    rw [hasDirectives_eq, List.any_eq_true]
    refine ⟨text, htext, ?_⟩
    rw [hkind]
    rfl
  rw [SourceFindings.ofSource?, if_pos hdirectives]
  rfl

theorem exists_of_mem_findings {f : SourceFindings} (h : f ∈ state.findings) :
    ∃ input ∈ state.inputs, f = input.findings := by
  obtain ⟨input, hinput, hf⟩ := List.mem_filterMap.mp h
  rw [SourceFindings.ofSource?] at hf
  split at hf
  · exact ⟨input, hinput, (Option.some.inj hf).symm⟩
  · cases hf

/-- A source with a directive contributes those of its annotations that count. -/
theorem exists_contribution (h : input.findings ∈ state.findings) :
    ∃ c ∈ state.findings.map (·.contribution), c.file = input.file ∧ c.annotations =
      (Placement.validate input.file (Collected.ofFile input.file).annotations).annotations := by
  refine ⟨_, List.mem_map_of_mem h, ?_, ?_⟩
  · rw [SourceInput.contribution_findings]
  · rw [SourceInput.contribution_findings]

/-! ## Directives that are accounted for -/

section Accounts

variable {report : FolderReport} {file : SourceFile} {a : Annotation}

/-- What the service of its struct has taken up is told: the service is in the generated file, or
    a conflict is reported for it. -/
theorem accounts_of_takes (hissues : report.issues = state.issues)
    (hservices : report.services = state.planned.1.map (·.service.name)) {structName : String}
    (hstruct : file.structBehind? line = some structName)
    (h : state.aggregate.Takes structName (file.locate line) kind) :
    report.Accounts state file line kind := by
  obtain ⟨s, hs, htaken⟩ := h
  have hmet : s ∈ state.aggregate.met := List.mem_of_find?_eq_some hs
  rw [← Aggregate.structName_of_get? hs] at hstruct
  have hdisputed : state.aggregate.Disputes s.name → report.Accounts state file line kind := by
    rintro ⟨loc, message, other, hissue⟩
    have hmem := mem_issues_iff.mpr (Or.inr (Or.inr (Or.inl hissue)))
    rw [← hissues] at hmem
    exact .conflict hmet hstruct hmem
  rcases htaken with hdispute | hshows
  · exact hdisputed hdispute
  · by_cases hfailed : s.structName ∈ state.aggregate.failed
    · -- a service that is out is so because of a conflict
      obtain ⟨s', hs', hdispute⟩ := state.sound_aggregate.failed s.structName hfailed
      obtain rfl := Option.some.inj ((Aggregate.get?_structName hs).symm.trans hs')
      exact hdisputed hdispute
    · have hservice : s ∈ state.aggregate.services := by
        refine List.mem_mergeSort.mpr (List.mem_filter.mpr ⟨hmet, ?_⟩)
        rw [Bool.not_eq_true', List.contains_eq_mem, decide_eq_false_iff_not]
        exact hfailed
      -- the others have code, or a field of theirs cannot be filled
      rcases Emission.planned_or_rejected hservice with ⟨plan, hplan, rfl⟩ | ⟨conflict, hrejected⟩
      · refine .shown (List.mem_map.mpr ⟨plan, hplan, rfl⟩) ?_ hstruct hshows
        rw [hservices]
        exact List.mem_map.mpr ⟨plan, hplan, rfl⟩
      · have hmem := mem_issues_iff.mpr (Or.inr (Or.inr (Or.inr ⟨_, hrejected, rfl⟩)))
        rw [← hissues] at hmem
        exact .conflict hmet hstruct hmem

/-- A directive that counts is told of wherever services are looked for. -/
theorem accounts_of_kept {c : Contribution} (hissues : report.issues = state.issues)
    (hservices : report.services = state.planned.1.map (·.service.name))
    (hmarker : state.anyMarker = true) (hc : c ∈ state.findings.map (·.contribution))
    (hmethods : ∀ d ∈ c.file.index.declarations, d.kind = .method → d.receiver.isSome = true)
    (hplaced : (Placement.validate c.file (Collected.ofFile c.file).annotations).rejected = false)
    (hannotations : c.annotations
      = (Placement.validate c.file (Collected.ofFile c.file).annotations).annotations)
    (ha : a ∈ (Collected.ofFile c.file).annotations) (hkept : a ∈ c.annotations) :
    report.Accounts state c.file a.line a.directive.kind := by
  have hread := Collected.readFrom_of_mem ha
  have hcheck := (Placement.validate_of_not_rejected hplaced).1 a ha
  have haggregate : state.aggregate = .ofFiles (state.findings.map (·.contribution)) := by
    rw [aggregate, if_pos hmarker]
  rcases a.directive.kind.marker_or_field_or_route with hkind | hkind | hkind
  · -- a marker makes a service of the struct it stands in front of
    obtain ⟨name, htarget, hstruct⟩ := Placement.struct_of_check hread hcheck hkind
    refine accounts_of_takes hissues hservices hstruct ?_
    rw [haggregate]
    exact Aggregate.takes_of_marker hc hkept hkind htarget
  · -- a field directive that is not ignored has a marker in its file
    obtain ⟨f, name, htarget, hname, hstruct⟩ := Placement.field_of_check hread hcheck hkind
    have hvalid := hkept
    rw [hannotations] at hvalid
    obtain ⟨m, -, hm, hmarks, howner⟩ := Placement.marker_of_kept_field hplaced hvalid hkind htarget
    rw [← hannotations] at hm
    refine accounts_of_takes hissues hservices hstruct ?_
    rw [haggregate]
    exact Aggregate.takes_of_field hc hkept hm hmarks howner hkind htarget hname
  · -- a route is a part of its receiver's service, or it is reported as ignored
    obtain ⟨d, receiver, htarget, hreceiver, hstruct⟩ :=
      Placement.method_of_check hread hcheck hkind hmethods
    obtain ⟨spec, hspec⟩ := Directive.exists_of_kind_route hkind
    rcases Aggregate.settled_of_route hc hkept hspec htarget hreceiver with
      ⟨reason, hignored⟩ | htaken
    · rw [← haggregate] at hignored
      have hmem := mem_issues_iff.mpr (Or.inr (Or.inr (Or.inl hignored)))
      rw [← hissues] at hmem
      exact .ignored hmem
    · rw [hkind]
      refine accounts_of_takes hissues hservices hstruct ?_
      rw [haggregate]
      exact htaken

/-- Outside of routes, directives count only where services are looked for. -/
theorem anyMarker_of_kept (hinput : input ∈ state.inputs)
    (hplaced : (Placement.validate input.file
      (Collected.ofFile input.file).annotations).rejected = false)
    (ha : a ∈ (Collected.ofFile input.file).annotations)
    (hkept : a ∈ (Placement.validate input.file
      (Collected.ofFile input.file).annotations).annotations)
    (hkind : a.directive.kind ≠ .route) :
    state.anyMarker = true := by
  have hread := Collected.readFrom_of_mem ha
  rcases a.directive.kind.marker_or_field_or_route with hmarker | hfield | hroute
  · exact anyMarker_of_directiveAt? hinput hread.kind hmarker
  · have hcheck := (Placement.validate_of_not_rejected hplaced).1 a ha
    obtain ⟨f, -, htarget, -, -⟩ := Placement.field_of_check hread hcheck hfield
    obtain ⟨m, hm, -, hmarker, -⟩ := Placement.marker_of_kept_field hplaced hkept hfield htarget
    exact anyMarker_of_directiveAt? hinput (Collected.readFrom_of_mem hm).kind hmarker
  · exact absurd hroute hkind

theorem accounts_of_not_loses (hissues : report.issues = state.issues)
    (hservices : report.services = state.planned.1.map (·.service.name))
    (hinput : input ∈ state.inputs) (hkind : input.file.directiveAt? line = some kind)
    (h : ¬ state.Loses input.file line) : report.Accounts state input.file line kind := by
  have hfindings := mem_findings_of_directiveAt? hinput hkind
  have hmem : ∀ i ∈ input.findings.issues, i ∈ report.issues := by
    intro i hi
    rw [hissues]
    exact mem_issues_iff.mpr (Or.inr (Or.inl ⟨_, hfindings, hi⟩))
  rcases Collected.malformed_or_read hkind with ⟨error, hmalformed⟩ | ⟨a, ha, rfl, rfl⟩
  · exact .malformed (hmem _ (SourceInput.mem_issues_findings.mpr (Or.inl hmalformed)))
  · cases hplaced : (Placement.validate input.file
        (Collected.ofFile input.file).annotations).rejected with
    | true =>
        obtain ⟨loc, directive, expected, found, hfile, hissue⟩ :=
          Placement.misplaced_of_rejected hplaced
        exact .misplaced hfile (hmem _ (SourceInput.mem_issues_findings.mpr (Or.inr hissue)))
    | false =>
        rcases Placement.ignored_or_kept hplaced ha with ⟨reason, hignored⟩ | hkept
        · exact .ignored (hmem _ (SourceInput.mem_issues_findings.mpr (Or.inr hignored)))
        · cases hmarker : state.anyMarker with
          | true =>
              have hmethods : ∀ d ∈ input.file.index.declarations, d.kind = .method →
                  d.receiver.isSome = true := fun d => SourceFile.receiver_of_method
              -- the contribution as a variable: nothing below depends on how the file is parsed
              obtain ⟨c, hc, hfile, hannotations⟩ := exists_contribution hfindings
              rw [← hannotations] at hkept
              rw [← hfile] at hmethods hplaced hannotations ha ⊢
              exact accounts_of_kept hissues hservices hmarker hc hmethods hplaced hannotations ha
                hkept
          | false =>
              -- without any marker nothing but routes gets this far
              by_cases hroute : a.directive.kind = .route
              · exact absurd ⟨hmarker, hplaced, a, ha, rfl, hroute⟩ h
              · have hmarked := anyMarker_of_kept hinput hplaced ha hkept hroute
                exact nomatch hmarker.symm.trans hmarked

/-! ## Directives that are lost -/

/-- No issue speaks of a lost directive: none is about its line, and none is about a misplaced
    directive of its file. -/
theorem silent_of_loses (h : state.Loses input.file line)
    (hunique : ∀ other ∈ state.inputs, other.path.display = input.path.display → other = input)
    (hi : i ∈ state.issues) (hfile : i.file = input.path.display) :
    i.location? ≠ some (input.file.locate line) ∧ i.rule ≠ .placement := by
  obtain ⟨hmarker, hplaced, a, ha, rfl, hroute⟩ := h
  rcases mem_issues_iff.mp hi with hread | ⟨f, hf, hi⟩ | haggregate | ⟨p, hp, -⟩
  · obtain ⟨⟨path, result⟩, -, hi⟩ := List.mem_filterMap.mp hread
    cases result with
    | ok content => cases hi
    | error e =>
        rw [← Option.some.inj hi]
        exact ⟨nofun, nofun⟩
  · obtain ⟨other, hother, rfl⟩ := exists_of_mem_findings hf
    obtain ⟨-, -, hissues⟩ := Placement.validate_of_not_rejected hplaced
    rcases SourceInput.mem_issues_findings.mp hi with hi | hi
    · rw [hunique other hother ((Generation.file_of_collected hi).symm.trans hfile)] at hi
      obtain ⟨hrule, hloc⟩ := Collected.location_ne_of_mem ha hi
      refine ⟨hloc, ?_⟩
      rw [hrule]
      decide
    · rw [hunique other hother ((Generation.file_of_validated hi).symm.trans hfile)] at hi
      rw [hissues] at hi
      obtain ⟨a', ha', hissue⟩ := List.mem_filterMap.mp hi
      obtain ⟨owner, howner, rfl⟩ := Option.map_eq_some_iff.mp hissue
      refine ⟨?_, nofun⟩
      intro hloc
      -- the warning is that of a field directive on the line of the route
      have hline : a'.line = a.line := congrArg Location.line (Option.some.inj hloc)
      have hkind := (Collected.readFrom_of_mem ha').kind
      rw [hline, (Collected.readFrom_of_mem ha).kind, hroute] at hkind
      rw [Placement.unmarkedOwner?, Directive.isFieldDirective, ← Option.some.inj hkind] at howner
      cases howner
  · rw [aggregate_of_unmarked hmarker] at haggregate
    cases haggregate
  · rw [planned_of_unmarked hmarker] at hp
    cases hp

theorem not_accounts_of_loses (hissues : report.issues = state.issues)
    (hunique : ∀ other ∈ state.inputs, other.path.display = input.path.display → other = input)
    (h : state.Loses input.file line) : ¬ report.Accounts state input.file line kind := by
  intro haccounts
  have hsilent : ∀ i ∈ report.issues, i.file = input.path.display →
      i.location? ≠ some (input.file.locate line) ∧ i.rule ≠ .placement := by
    intro i hi
    rw [hissues] at hi
    exact silent_of_loses h hunique hi
  cases haccounts with
  | malformed hi => exact (hsilent _ hi rfl).1 rfl
  | misplaced hfile hi => exact (hsilent _ hi hfile).2 rfl
  | ignored hi => exact (hsilent _ hi rfl).1 rfl
  | conflict hs _ _ =>
      rw [aggregate_of_unmarked h.unmarked] at hs
      cases hs
  | shown hs _ _ _ =>
      rw [emitted, planned_of_unmarked h.unmarked] at hs
      cases hs

end Accounts

end FolderState

/-! ## Passes -/

namespace FolderPass

/-- A pass that generates and reports no failure accounts for every directive of a source that was
    read, unless the directive is lost; of a lost directive it tells nothing, as long as no other
    source is shown under the same path. -/
theorem runWith_accounts {checksum : Checksum} {options : PassOptions} {folder : PackageFolder}
    {t : FileTree} (hmiss : isHit checksum options folder t = false)
    (hok : ∀ i ∈ (runWith checksum options folder t).1.issues, i.isInternal = false)
    {input : SourceInput} (hinput : input ∈ (FolderState.read t folder options).inputs)
    {line : Nat} {kind : DirectiveKind} (hkind : input.file.directiveAt? line = some kind) :
    let report := (runWith checksum options folder t).1
    let state := FolderState.read t folder options
    (¬ state.Loses input.file line → report.Accounts state input.file line kind) ∧
    ((∀ other ∈ state.inputs, other.path.display = input.path.display → other = input) →
      state.Loses input.file line → ¬ report.Accounts state input.file line kind) := by
  intro report state
  obtain ⟨previous, hreport⟩ := report_of_not_isHit hmiss hok
  have hissues : report.issues = state.issues := congrArg FolderReport.issues hreport
  have hservices : report.services = state.planned.1.map (·.service.name) :=
    congrArg FolderReport.services hreport
  constructor
  · intro hkept
    exact FolderState.accounts_of_not_loses hissues hservices hinput hkind hkept
  · intro hunique hlost
    exact FolderState.not_accounts_of_loses hissues hunique hlost

/-- A router with a route. -/
def routedSource : String :=
  "package svc\n\n// @Router\ntype A struct\x7b\x7d\n\n// @Route(\"GET /x\")\nfunc (a *A) Get() \x7b\x7d\n"

/-- The route of a router is accounted for. -/
theorem runWith_accounts_of_routed :
    let ran := runWith Sha256.ofText sampleOptions sampleFolder (sampleTree routedSource)
    let state := FolderState.read (sampleTree routedSource) sampleFolder sampleOptions
    let input : SourceInput := ⟨⟨"svc/a.go"⟩, routedSource⟩
    isHit Sha256.ofText sampleOptions sampleFolder (sampleTree routedSource) = false ∧
    (∀ i ∈ ran.1.issues, i.isInternal = false) ∧
    input ∈ state.inputs ∧ input.file.directiveAt? 6 = some .route ∧
    ran.1.Accounts state input.file 6 .route := by
  intro ran state input
  have hmiss : isHit Sha256.ofText sampleOptions sampleFolder (sampleTree routedSource) = false := by
    decide +kernel
  have hissues : ran.1.issues = [] := by
    decide +kernel
  have hok : ∀ i ∈ ran.1.issues, i.isInternal = false := by
    rw [hissues]
    exact List.forall_mem_nil _
  have hinput : input ∈ state.inputs := List.mem_singleton_self _
  have hkind : input.file.directiveAt? 6 = some .route := by
    decide +kernel
  have hmarked : state.anyMarker = true := by
    decide +kernel
  refine ⟨hmiss, hok, hinput, hkind, (runWith_accounts hmiss hok hinput hkind).1 ?_⟩
  rintro ⟨hunmarked, -, -⟩
  exact nomatch hunmarked.symm.trans hmarked

/-- A route in a folder without any marker. -/
def loneRoute : String :=
  "package svc\n\n// @Route(\"GET /x\")\nfunc (a *A) Get() \x7b\x7d\n"

/-- A pass over a folder with nothing but a route reports no issue and no service, so nothing tells
    that the route has no effect. -/
theorem not_accounts_of_loneRoute :
    let ran := runWith Sha256.ofText sampleOptions sampleFolder (sampleTree loneRoute)
    let state := FolderState.read (sampleTree loneRoute) sampleFolder sampleOptions
    let input : SourceInput := ⟨⟨"svc/a.go"⟩, loneRoute⟩
    isHit Sha256.ofText sampleOptions sampleFolder (sampleTree loneRoute) = false ∧
    (∀ i ∈ ran.1.issues, i.isInternal = false) ∧
    input ∈ state.inputs ∧ input.file.directiveAt? 3 = some .route ∧
    state.Loses input.file 3 ∧ ¬ ran.1.Accounts state input.file 3 .route := by
  intro ran state input
  have hreport : ran.1 = { folder := ⟨"svc"⟩, outcome := .noServices } := by
    decide +kernel
  refine ⟨by decide +kernel, ?_, List.mem_singleton_self _, by decide +kernel, ?_, ?_⟩
  · rw [hreport]
    exact List.forall_mem_nil _
  · exact ⟨by decide +kernel, by decide +kernel, by decide +kernel⟩
  · rw [hreport]
    intro haccounts
    cases haccounts with
    | malformed h => exact nomatch h
    | misplaced _ h => exact nomatch h
    | ignored h => exact nomatch h
    | conflict _ _ h => exact nomatch h
    | shown _ h _ _ => exact nomatch h

end FolderPass

end ServiceWiring
