import ServiceWiring.Proofs.Accounting
import ServiceWiring.Proofs.DisarmedDirective
import ServiceWiring.Proofs.FileChange
import ServiceWiring.Proofs.Marking
import ServiceWiring.Proofs.OptionChange

/-!
# A misplaced directive stays in its file

One misplaced directive takes its whole file out.  The file is still read for its package and its
methods, and its markers still open the gate in front of the aggregation, but none of that comes
from its directives: with all of them disarmed the folder has the same services and the same
generated file.

* `SourceFile.Rejected` — files that a misplaced directive takes out;
* `FolderState.services_aggregate` — the gate in front of the aggregation changes no service;
* `FolderState.DisarmedTo` — a folder with its rejected sources disarmed;
* `Generation.services_made_of_disarmedTo`, `Generation.text_made_of_disarmedTo` — its services and
  its generated file;
* `FolderPass.SameResult`, `FolderPass.sameResult_of_disarmed` — a forced pass over the folder.
-/

namespace ServiceWiring

open Text

/-! ## Files that are taken out -/

namespace Collected

theorem annotations_ofFile (file : SourceFile) : (ofFile file).annotations
    = file.lines.zipIdx.flatMap fun p => (ofLine file (p.2 + 1) p.1).annotations := by
  unfold ofFile
  dsimp only
  rw [List.flatMap_map]

theorem annotations_ofLine_path (path path' : Path) (content : String) (line : Nat)
    (text : String) : (ofLine (.parse path' content) line text).annotations
      = (ofLine (.parse path content) line text).annotations := by
  unfold ofLine
  split
  · split
    · rfl
    · rfl
    · rfl
  · rfl

end Collected

namespace SourceFile

/-- A misplaced directive takes the file out. -/
def Rejected (file : SourceFile) : Prop :=
  (Placement.validate file (Collected.ofFile file).annotations).rejected = true

instance (file : SourceFile) : Decidable file.Rejected :=
  inferInstanceAs (Decidable (_ = true))

/-- Whether a file is taken out does not depend on its path. -/
theorem Rejected.of_path {path path' : Path} {content : String}
    (h : (parse path content).Rejected) : (parse path' content).Rejected := by
  have hlines : (parse path' content).lines = (parse path content).lines := rfl
  have hindex : (parse path' content).index = (parse path content).index := rfl
  have hannotations : (Collected.ofFile (parse path' content)).annotations
      = (Collected.ofFile (parse path content)).annotations := by
    rw [Collected.annotations_ofFile, Collected.annotations_ofFile, hlines]
    exact congrArg (List.flatMap · _)
      (funext fun _ => Collected.annotations_ofLine_path path path' content _ _)
  have hcheck : ∀ a, (Placement.check (parse path' content) a).isSome
      = (Placement.check (parse path content) a).isSome := by
    intro a
    unfold Placement.check
    dsimp only
    rw [hindex]
    split
    · rfl
    · rfl
  obtain ⟨a, ha, hmisplaced⟩ := Placement.rejected_iff.mp h
  refine Placement.rejected_iff.mpr ⟨a, ?_, ?_⟩
  · rw [hannotations]
    exact ha
  · rw [hcheck]
    exact hmisplaced

end SourceFile

/-! ## The gate in front of the aggregation -/

namespace Aggregate

variable {agg : Aggregate} {contributions : List Contribution}

/-- Without a service nothing makes one but a marker. -/
theorem MemberStep.met_eq_nil {file : SourceFile} {a : Annotation} {agg' : Aggregate}
    (hstep : MemberStep file a agg agg') (h : agg.met = []) : agg'.met = [] := by
  cases hstep with
  | stay => exact h
  | conflict _ conflict other => exact h
  | warning directive reason => exact h
  | field _ _ _ _ =>
      show agg.met.map _ = []
      rw [h, List.map_nil]
  | endpoint spec _ _ _ =>
      show agg.met.map _ = []
      rw [h, List.map_nil]

theorem met_ofFiles_of_unmarked
    (h : ∀ c ∈ contributions, ∀ a ∈ c.annotations, a.directive.isMarker = false) :
    (ofFiles contributions).met = [] := by
  refine ofFiles_induction (P := fun agg => agg.met = []) contributions rfl ?_ ?_
  · intro agg c a hc ha hmet
    rw [addMarker_eq, markerService?_eq_none (h c hc a ha)]
    exact hmet
  · intro agg c a hc ha hmet
    exact (memberStep_addMember agg c.file a).met_eq_nil hmet

/-- What files give depends on their annotations only. -/
theorem ofFiles_congr {contributions' : List Contribution}
    (h : placed contributions' = placed contributions) :
    ofFiles contributions' = ofFiles contributions := by
  have hplaced : ∀ contributions, ofFiles contributions = (placed contributions).foldl
      (fun agg p => agg.addMember p.1 p.2) (marked contributions) := fun _ => rfl
  rw [hplaced, hplaced, marked_eq, marked_eq, h]

end Aggregate

namespace FolderState

variable {state : FolderState}

/-- In a folder where no source marks a service no annotation does. -/
theorem isMarker_eq_false (h : state.anyMarker = false) {c : Contribution}
    (hc : c ∈ state.findings.map (·.contribution)) {a : Annotation} (ha : a ∈ c.annotations) :
    a.directive.isMarker = false := by
  obtain ⟨f, hf, rfl⟩ := List.mem_map.mp hc
  obtain ⟨input, hinput, rfl⟩ := exists_of_mem_findings hf
  rw [SourceInput.contribution_findings] at ha
  have hcollected := Placement.mem_of_mem_validate ha
  refine Bool.eq_false_iff.mpr fun hmarker => ?_
  have hread := Collected.readFrom_of_mem hcollected
  rw [anyMarker_of_directiveAt? hinput hread.kind hmarker] at h
  cases h

/-- The gate in front of the aggregation changes no service. -/
theorem services_aggregate (state : FolderState) : state.aggregate.services
    = (Aggregate.ofFiles (state.findings.map (·.contribution))).services := by
  cases hmarker : state.anyMarker with
  | true => rw [aggregate, hmarker, if_pos rfl]
  | false =>
      have hmet : (Aggregate.ofFiles (state.findings.map (·.contribution))).met = [] :=
        Aggregate.met_ofFiles_of_unmarked fun c hc a ha => isMarker_eq_false hmarker hc ha
      rw [aggregate_of_unmarked hmarker, Aggregate.services_of_met_eq_nil hmet,
        Aggregate.services_of_met_eq_nil rfl]

end FolderState

/-! ## Sources that are disarmed -/

/-- A source stays as it is, or it is taken out and its directives are disarmed. -/
inductive SourceInput.DisarmedTo : SourceInput → SourceInput → Prop where
  | same (input : SourceInput) : DisarmedTo input input
  | disarmed {path : Path} {content content' : String}
      (hrejected : (SourceFile.parse path content).Rejected) (h : Disarmed content content') :
      DisarmedTo ⟨path, content⟩ ⟨path, content'⟩

namespace SourceInput

variable {input input' : SourceInput}

/-- The annotations that a source contributes. -/
def placed (input : SourceInput) : List (SourceFile × Annotation) :=
  if hasDirectives input.content then Aggregate.placed [input.findings.contribution] else []

theorem DisarmedTo.sameDeclarations (h : input.DisarmedTo input') :
    SourceFile.SameDeclarations input.file input'.file := by
  cases h with
  | same => exact .refl _
  | disarmed hrejected h => exact h.sameDeclarations _

/-- A source that is taken out contributes nothing, and neither does one without directives. -/
theorem DisarmedTo.placed_eq (h : input.DisarmedTo input') : input'.placed = input.placed := by
  cases h with
  | same => rfl
  | @disarmed path content content' hrejected h =>
      have hempty : placed ⟨path, content⟩ = [] := by
        unfold placed
        split
        · rw [contribution_findings]
          dsimp only [file]
          rw [Placement.annotations_of_rejected hrejected]
          rfl
        · rfl
      rw [hempty, placed, h.hasDirectives_eq_false, if_neg Bool.false_ne_true]

/-- What is the same for each source is the same for all of them. -/
theorem map_eq_of_disarmedTo {inputs inputs' : List SourceInput}
    (h : List.Forall₂ DisarmedTo inputs inputs') {β : Type} {part : SourceInput → β}
    (hpart : ∀ {input input' : SourceInput}, input.DisarmedTo input' → part input' = part input) :
    inputs'.map part = inputs.map part := by
  induction h with
  | nil => rfl
  | cons hinput _ ih => rw [List.map_cons, List.map_cons, hpart hinput, ih]

end SourceInput

namespace FolderState

variable {state state' : FolderState}

/-- A folder with some of its rejected sources disarmed, and with the same generated file. -/
structure DisarmedTo (state state' : FolderState) : Prop where
  inputs : List.Forall₂ SourceInput.DisarmedTo state.inputs state'.inputs
  output : state'.output = state.output
  name : state'.name = state.name

theorem placed_findings (state : FolderState) :
    Aggregate.placed (state.findings.map (·.contribution))
      = (state.inputs.map (·.placed)).flatten := by
  unfold findings
  induction state.inputs with
  | nil => rfl
  | cons input inputs ih =>
      rw [List.map_cons, List.flatten_cons, ← ih, SourceInput.placed]
      cases hdirectives : hasDirectives input.content with
      | true =>
          have hsome : SourceFindings.ofSource? (.parse input.path input.content) input.content
              = some input.findings := by
            rw [SourceFindings.ofSource?, if_pos hdirectives]
            rfl
          rw [List.filterMap_cons, hsome, if_pos rfl]
          show Aggregate.placed ([input.findings.contribution] ++ _) = _
          exact List.flatMap_append
      | false =>
          have hnone : SourceFindings.ofSource? (.parse input.path input.content) input.content
              = none := by
            rw [SourceFindings.ofSource?, hdirectives, if_neg Bool.false_ne_true]
          rw [List.filterMap_cons, hnone, if_neg Bool.false_ne_true]
          rfl

namespace DisarmedTo

variable (h : state.DisarmedTo state')
include h

theorem placed_eq : Aggregate.placed (state'.findings.map (·.contribution))
    = Aggregate.placed (state.findings.map (·.contribution)) := by
  rw [placed_findings, placed_findings,
    SourceInput.map_eq_of_disarmedTo h.inputs fun hinput => hinput.placed_eq]

theorem packageName_eq : Generation.packageName state'.files state'.name
    = Generation.packageName state.files state.name := by
  have hpackage : ∀ state : FolderState, (state.files.filterMap fun f => f.index.package)
      = (state.inputs.map fun input => input.file.index.package).filterMap id := by
    intro state
    rw [files, List.filterMap_map, List.filterMap_map]
    rfl
  unfold Generation.packageName
  rw [hpackage, hpackage, h.name,
    SourceInput.map_eq_of_disarmedTo h.inputs fun hinput => hinput.sameDeclarations.package]

theorem textHooks_eq : textHooks state'.files = textHooks state.files := by
  have hhooks : ∀ state : FolderState, textHooks state.files
      = (state.inputs.map fun input => input.file.index.declarations).flatMap
          fun declarations => declarations.filterMap fun d =>
            if d.kind = .method && d.name = textHookName then d.receiver else none := by
    intro state
    rw [textHooks, files, List.flatMap_map, List.flatMap_map]
    rfl
  rw [hhooks, hhooks,
    SourceInput.map_eq_of_disarmedTo h.inputs fun hinput => hinput.sameDeclarations.declarations]

/-- The folder has the same services, with the same plans. -/
theorem planned_eq : state'.planned = state.planned := by
  rw [planned, planned, h.textHooks_eq, services_aggregate, services_aggregate,
    Aggregate.ofFiles_congr h.placed_eq]

theorem previous_eq : state'.previous = state.previous := by
  unfold previous
  rw [h.output]

end DisarmedTo

end FolderState

/-! ## The generation -/

namespace Generation

variable {state state' : FolderState} (h : state.DisarmedTo state') (runtime : ImportEntry)
  (previous : Option String)
include h

theorem services_made_of_disarmedTo :
    (made runtime state' previous).services = (made runtime state previous).services := by
  show state'.planned.1.map _ = state.planned.1.map _
  rw [h.planned_eq]

/-- The generated file is the same, line for line. -/
theorem text_made_of_disarmedTo :
    (made runtime state' previous).text = (made runtime state previous).text := by
  show state'.textWith _ _ = state.textWith _ _
  unfold FolderState.textWith
  rw [h.planned_eq, h.packageName_eq]

end Generation

/-! ## Forced passes -/

namespace FolderState

theorem inputs_read (t : FileTree) (folder : PackageFolder) (options : PassOptions) :
    (read t folder options).inputs
      = folder.sources.filterMap fun path => (t.readText path).toOption.map (⟨path, ·⟩) := by
  unfold inputs read
  dsimp only
  rw [List.filterMap_map]
  refine List.filterMap_congr fun path _ => ?_
  dsimp only [Function.comp]
  cases t.readText path with
  | error e => rfl
  | ok content => rfl

/-- With a rejected file disarmed a folder is read as one with its sources disarmed, under every
    path of the file. -/
theorem disarmedTo_read {t : FileTree} {folder : PackageFolder} {options : PassOptions}
    {source : Path} {place : Place} {content content' : String}
    (hfind : t.find? place = some (.file (.text content)))
    (hrejected : (SourceFile.parse source content).Rejected) (h : Disarmed content content')
    (houtput : (t.put place (.file (.text content'))).readText (options.outputPath folder)
      = t.readText (options.outputPath folder)) :
    DisarmedTo (.read t folder options)
      (.read (t.put place (.file (.text content'))) folder options) where
  inputs := by
    rw [inputs_read, inputs_read]
    induction folder.sources with
    | nil => exact .nil
    | cons path paths ih =>
        rw [List.filterMap_cons, List.filterMap_cons]
        rcases FileTree.readText_put_file hfind content' path with hsame | ⟨hold, hnew⟩
        · rw [hsame]
          cases t.readText path with
          | error e => exact ih
          | ok text => exact .cons (.same _) ih
        · rw [hold, hnew]
          exact .cons (.disarmed hrejected.of_path h) ih
  output := houtput
  name := congrArg (Option.bind · _) (FileTree.canonical?_put_file hfind _ _)

end FolderState

namespace PassDecision

open PassPlan

variable {options : PassOptions} {state state' : FolderState}

/-- A forced pass reports the same services and the same outcome, and does the same to the generated
    file. -/
theorem same_of_disarmedTo (checksum : Checksum) (folder : PackageFolder)
    (hforce : options.force = true) (h : state.DisarmedTo state') :
    (ofState checksum options folder state').report.services
        = (ofState checksum options folder state).report.services ∧
      (ofState checksum options folder state').report.outcome
        = (ofState checksum options folder state).report.outcome ∧
      (ofState checksum options folder state').change
        = (ofState checksum options folder state).change := by
  cases hprevious : state.previous with
  | error reason =>
      rw [ofState_of_error hprevious, ofState_of_error (h.previous_eq.trans hprevious),
        change_settled, change_settled]
      exact ⟨rfl, rfl, rfl⟩
  | ok previous =>
      have hservices := Generation.services_made_of_disarmedTo h options.runtime previous
      have htext := Generation.text_made_of_disarmedTo h options.runtime previous
      have houtcome : (Generation.made options.runtime state' previous).outcome previous
          = (Generation.made options.runtime state previous).outcome previous := by
        unfold Generation.outcome
        rw [htext]
      have hchange : changeOf (Generation.made options.runtime state' previous) previous
          = changeOf (Generation.made options.runtime state previous) previous := by
        unfold changeOf
        rw [houtcome, htext]
      -- a forced pass never settles for what the manifest says
      rw [ofState_of_not_upToDate hprevious (FolderPass.not_upToDate_of_force checksum hforce ..),
        ofState_of_not_upToDate (h.previous_eq.trans hprevious)
          (FolderPass.not_upToDate_of_force checksum hforce ..)]
      split
      · refine ⟨hservices, houtcome, ?_⟩
        rw [change_settled, change_settled]
      · exact ⟨hservices, houtcome, hchange⟩

end PassDecision

namespace FolderPass

open FileTree PassPlan

variable {checksum : Checksum} {options : PassOptions} {folder : PackageFolder} {t t' : FileTree}

/-- Two passes report the same services and the same outcome, make the same generated file, and do
    the same to the one that is there. -/
structure SameResult (checksum : Checksum) (options : PassOptions) (folder : PackageFolder)
    (t t' : FileTree) : Prop where
  services : (runWith checksum options folder t').1.services
    = (runWith checksum options folder t).1.services
  outcome : (runWith checksum options folder t').1.outcome
    = (runWith checksum options folder t).1.outcome
  /-- The text that is generated, whatever file was there before. -/
  text : ∀ previous,
    (Generation.ofState options.runtime (.read t' folder options) previous).map (·.text)
      = (Generation.ofState options.runtime (.read t folder options) previous).map (·.text)
  /-- The file is kept, removed or replaced by the same text. -/
  change : (PassDecision.ofState checksum options folder (.read t' folder options)).change
    = (PassDecision.ofState checksum options folder (.read t folder options)).change
  /-- The same text is there behind the passes, unless the manifest stands in the way. -/
  output : options.Separate →
    (runWith checksum options folder t').2.readText (options.outputPath folder)
      = (runWith checksum options folder t).2.readText (options.outputPath folder)

/-- Where the folder cannot be entered nothing is written. -/
theorem readText_of_unentered (hsep : options.Separate) (plan : PassPlan)
    (hdir : ∀ dir, t.folderAt folder.path ≠ .ok dir) (p : Path) :
    (write t options folder plan).2.readText p = t.readText p := by
  have hwrite : WriteStep t options folder plan (write t options folder plan) :=
    writeStep_write t hsep.output hsep.cache plan
  have hnowhere : ∀ place, ¬ PassPlaces t options folder place := by
    rintro place (⟨dir, hfound, -⟩ | ⟨dir, hfound, -⟩)
    · exact hdir dir hfound
    · exact hdir dir hfound
  exact readText_congr (entryAt_of_find? hwrite.confined.workingDir
    (fun place => hwrite.confined.elsewhere place (hnowhere place)) p)

/-- Two generations of the same file leave the same file, in trees with the same folders. -/
theorem readText_write_congr {places : Place → Prop} (hsep : options.Separate)
    (hconfined : Confined places t t') {previous : Option String}
    (hprevious : (FolderState.read t folder options).previous = .ok previous)
    (hprevious' : (FolderState.read t' folder options).previous = .ok previous)
    {plan plan' : PassPlan} {g g' : Generation} (hplan : plan.output = changeOf g previous)
    (hplan' : plan'.output = changeOf g' previous) (htext : g'.text = g.text) :
    (write t' options folder plan').2.readText (options.outputPath folder)
      = (write t options folder plan).2.readText (options.outputPath folder) := by
  by_cases hentered : ∃ dir, t.folderAt folder.path = .ok dir
  · -- what can be replaced depends on the folders only, so both are written or neither is
    obtain ⟨dir, hdir⟩ := hentered
    have hdir' : t'.folderAt folder.path = .ok dir := hconfined.folderAt_eq_ok.mpr hdir
    have hcan : t'.CanReplace folder.path options.outputFile dir ↔
        t.CanReplace folder.path options.outputFile dir :=
      ⟨fun hcan => hcan.of_confined hconfined.symm, fun hcan => hcan.of_confined hconfined⟩
    have hbehind := written_or_blocked hsep hdir hprevious hplan
    have hbehind' := written_or_blocked hsep hdir' hprevious' hplan'
    rw [htext, hcan] at hbehind'
    rcases hbehind with ⟨hmade, hable⟩ | ⟨hkept, hsome, hne, hblocked⟩
    · rcases hbehind' with ⟨hmade', -⟩ | ⟨-, hsome, hne, hblocked⟩
      · rw [hmade, hmade']
      · exact absurd (hable hsome hne) hblocked
    · rcases hbehind' with ⟨-, hable⟩ | ⟨hkept', -⟩
      · exact absurd (hable hsome hne) hblocked
      · rw [hkept, hkept']
  · -- without a folder nothing is there before or behind
    have hdir : ∀ dir, t.folderAt folder.path ≠ .ok dir := fun dir hdir => hentered ⟨dir, hdir⟩
    have hdir' : ∀ dir, t'.folderAt folder.path ≠ .ok dir :=
      fun dir hdir' => hdir dir (hconfined.folderAt_eq_ok.mp hdir')
    rw [readText_of_unentered hsep _ hdir, readText_of_unentered hsep _ hdir']
    exact (output_of_previous hprevious').trans (output_of_previous hprevious).symm

/-- A misplaced directive takes its file out, and then none of the directives of the file comes
    into a forced pass: with all of them disarmed, and with the same generated file in front of it,
    the pass has the same result. -/
theorem sameResult_of_disarmed (checksum : Checksum) (hforce : options.force = true)
    {source : Path} {place : Place} {content content' : String}
    (hsource : t.entryAt source = .ok (place, .file (.text content)))
    (hrejected : (SourceFile.parse source content).Rejected)
    (hdisarmed : Disarmed content content')
    (houtput : (t.put place (.file (.text content'))).readText (options.outputPath folder)
      = t.readText (options.outputPath folder)) :
    SameResult checksum options folder t (t.put place (.file (.text content'))) := by
  obtain ⟨parent, last, endsOpen, -, rfl, hfind⟩ := entryAt_file hsource
  have hstate := FolderState.disarmedTo_read hfind hrejected hdisarmed houtput
  have hreport := report_runWith checksum options folder t
  have hreport' := report_runWith checksum options folder
    (t.put (parent ++ [last]) (.file (.text content')))
  obtain ⟨hservices, houtcome, hchange⟩ :=
    PassDecision.same_of_disarmedTo checksum folder hforce hstate
  refine ⟨?_, ?_, ?_, hchange, ?_⟩
  · rw [hreport.1, hreport'.1, hservices]
  · rw [hreport.2, hreport'.2, houtcome]
  · intro previous
    rw [Generation.ofState_eq_ok, Generation.ofState_eq_ok]
    exact congrArg Except.ok (Generation.text_made_of_disarmedTo hstate _ _)
  · intro hsep
    cases hdry : options.dryRun with
    | true =>
        rw [tree_of_dry checksum hdry, tree_of_dry checksum hdry]
        exact houtput
    | false =>
        rw [tree_of_force checksum hforce hdry, tree_of_force checksum hforce hdry,
          hstate.previous_eq]
        cases hprevious : (FolderState.read t folder options).previous with
        | error reason => exact houtput
        | ok previous =>
            have hfile : t.find? (parent ++ [last]) ≠ some .directory := by
              rw [hfind]
              exact nofun
            exact readText_write_congr hsep (Confined.put (concat_ne_nil parent last) hfile _)
              hprevious (hstate.previous_eq.trans hprevious) rfl rfl
              (Generation.text_made_of_disarmedTo hstate _ _)

/-- A source with a service and a marker in front of a variable. -/
def straySource : String :=
  "package svc\n\n// @Service\ntype A struct\x7b\x7d\n\n//@Router\nvar x int\n"

/-- The source with both markers disarmed. -/
def straySourceDisarmed : String :=
  "package svc\n\n// xService\ntype A struct\x7b\x7d\n\n//xRouter\nvar x int\n"

/-- A folder with that source and a sound one. -/
def strayFolder : PackageFolder :=
  ⟨⟨"svc"⟩, [⟨"svc/a.go"⟩, ⟨"svc/b.go"⟩]⟩

def strayTree : FileTree where
  entries := [(["svc"], .directory), (["svc", "a.go"], .file (.text straySource)),
    (["svc", "b.go"], .file (.text "package svc\n\n// @Service\ntype B struct\x7b\x7d\n"))]

theorem disarmed_straySource : Disarmed straySource straySourceDisarmed := by
  have hlines : lines straySource.toList
      = ["package svc".toList, [], "// @Service".toList, "type A struct\x7b\x7d".toList, [],
          "//@Router".toList, "var x int".toList] := by decide
  have hlines' : lines straySourceDisarmed.toList
      = ["package svc".toList, [], "// xService".toList, "type A struct\x7b\x7d".toList, [],
          "//xRouter".toList, "var x int".toList] := by decide
  unfold Disarmed
  rw [hlines, hlines']
  exact .cons (.kept (by decide)) <| .cons (.kept (by decide)) <|
    .cons (.sigil .nil (.inr rfl) (by decide)) <| .cons (.kept (by decide)) <|
    .cons (.kept (by decide)) <| .cons (.sigil .nil (.inl rfl) (by decide)) <|
    .cons (.kept (by decide)) .nil

/-- The sound source is generated beside the other one. -/
theorem sameResult_of_disarmed_stray :
    let options := { sampleOptions with force := true }
    let t' := strayTree.put ["svc", "a.go"] (.file (.text straySourceDisarmed))
    (SourceFile.parse ⟨"svc/a.go"⟩ straySource).Rejected ∧
      SameResult Sha256.ofText options strayFolder strayTree t' ∧
      (runWith Sha256.ofText options strayFolder strayTree).1.services = ["B"] := by
  intro options t'
  have hrejected : (SourceFile.parse ⟨"svc/a.go"⟩ straySource).Rejected := by decide +kernel
  exact ⟨hrejected,
    sameResult_of_disarmed Sha256.ofText rfl (by decide) hrejected disarmed_straySource
      (by decide), by decide +kernel⟩

end FolderPass

end ServiceWiring
