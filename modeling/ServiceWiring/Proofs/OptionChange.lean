import ServiceWiring.Proofs.Rerun
import ServiceWiring.Proofs.WrittenOutput

/-!
# Passes under other options

What the options of a pass change.  A dry run settles for the report of what it would write, so it
tells what the real run reports unless a file cannot be written or removed.  A forced run does what
any run does that finds something to do.  And of the runtime import the manifest says nothing: a
folder that was generated for one runtime is up to date for every other one, and only a forced run
brings the generated file to it.

* `PassDecision.ofState_dry`, `FolderPass.runWith_dry` — dry runs against real ones;
* `FolderPass.report_runWith` — what a failure to write leaves of a report;
* `FolderPass.runWith_forced_of_miss`, `FolderPass.tree_of_force` — forced runs against others, and
  what they write;
* `FolderPass.upToDate_again` — a pass without errors is followed by one with nothing to do;
* `FolderPass.sameOutput_of_runtime` — when a change of the runtime takes effect.
-/

namespace ServiceWiring

namespace PassDecision

open PassPlan

/-- The report that a decision leads to when nothing fails. -/
def report : PassDecision → FolderReport
  | .settled report => report
  | .write plan => plan.report

/-- What a decision does to the generated file. -/
def change : PassDecision → OutputChange
  | .settled _ => .keep
  | .write plan => plan.output

@[simp]
theorem change_settled (report : FolderReport) : (settled report).change = .keep :=
  rfl

/-- A dry run settles for the report of what it would write. -/
theorem ofState_dry (checksum : Checksum) (options : PassOptions) (folder : PackageFolder)
    (state : FolderState) :
    ofState checksum { options with dryRun := true } folder state
      = .settled (ofState checksum { options with dryRun := false } folder state).report := by
  cases hprevious : state.previous with
  | error reason =>
      rw [ofState_of_error hprevious, ofState_of_error hprevious]
      rfl
  | ok previous =>
      -- what is recorded does not depend on whether anything is written
      have hsame : isUpToDate checksum { options with dryRun := true } state previous
          = isUpToDate checksum { options with dryRun := false } state previous := rfl
      cases hcurrent : isUpToDate checksum { options with dryRun := false } state previous with
      | true =>
          rw [ofState_of_upToDate hprevious (hsame.trans hcurrent),
            ofState_of_upToDate hprevious hcurrent]
          rfl
      | false =>
          rw [ofState_of_not_upToDate hprevious (hsame.trans hcurrent),
            ofState_of_not_upToDate hprevious hcurrent]
          rfl

end PassDecision

theorem FolderReport.withInternal_ne (report : FolderReport) (path : Path) (error : String) :
    report.withInternal path error ≠ report := by
  intro h
  have hissues : report.issues ++ [Issue.internal path.display error] = report.issues :=
    congrArg FolderReport.issues h
  rw [List.append_right_eq_self] at hissues
  cases hissues

namespace FolderPass

open FileTree PassPlan

variable {t : FileTree} {checksum : Checksum} {options : PassOptions} {folder : PackageFolder}

/-! ## Dry runs -/

/-- Writing a plan succeeds: the generated file is changed and the manifest is replaced. -/
def Writes (t : FileTree) (options : PassOptions) (folder : PackageFolder) (plan : PassPlan) :
    Prop :=
  ∃ t₁ t₂, changeOutput t (options.outputPath folder) plan.output = (.ok (), t₁) ∧
    t₁.replaceFile (options.cachePath folder) plan.manifest.text = (.ok (), t₂)

/-- All that a pass writes and removes succeeds. -/
def Succeeds (checksum : Checksum) (options : PassOptions) (folder : PackageFolder)
    (t : FileTree) : Prop :=
  ∀ plan, PassDecision.ofState checksum options folder (.read t folder options) = .write plan →
    Writes t options folder plan

/-- Writing a plan reports what the plan says, or one failure more. -/
theorem report_write_cases (t : FileTree) (options : PassOptions) (folder : PackageFolder)
    (plan : PassPlan) :
    (Writes t options folder plan ∧ (write t options folder plan).1 = plan.report) ∨
    (¬ Writes t options folder plan ∧
      ∃ path ∈ [options.outputPath folder, options.cachePath folder], ∃ error,
        (write t options folder plan).1 = plan.report.withInternal path error) := by
  unfold write
  dsimp only
  cases hchange : changeOutput t (options.outputPath folder) plan.output with
  | mk changed t₁ =>
      cases changed with
      | error failure =>
          refine Or.inr ⟨?_, _, List.mem_cons_self .., _, rfl⟩
          rintro ⟨t₂, t₃, hok, -⟩
          cases (Prod.mk.inj (hchange.symm.trans hok)).1
      | ok changed =>
          dsimp only
          cases hreplace : t₁.replaceFile (options.cachePath folder) plan.manifest.text with
          | mk replaced t₂ =>
              cases replaced with
              | error failure =>
                  refine Or.inr ⟨?_, _, List.mem_cons_of_mem _ (List.mem_singleton_self _), _, rfl⟩
                  rintro ⟨t₃, t₄, hok, hok'⟩
                  rw [← (Prod.mk.inj (hchange.symm.trans hok)).2, hreplace] at hok'
                  cases (Prod.mk.inj hok').1
              | ok replaced => exact Or.inl ⟨⟨t₁, t₂, hchange, hreplace⟩, rfl⟩

/-- A failure to write changes neither the services nor the outcome of a report. -/
theorem report_runWith (checksum : Checksum) (options : PassOptions) (folder : PackageFolder)
    (t : FileTree) :
    let decided := (PassDecision.ofState checksum options folder (.read t folder options)).report
    (runWith checksum options folder t).1.services = decided.services ∧
      (runWith checksum options folder t).1.outcome = decided.outcome := by
  cases hdecision : PassDecision.ofState checksum options folder (.read t folder options) with
  | settled report =>
      rw [runWith_of_settled hdecision]
      exact ⟨rfl, rfl⟩
  | write plan =>
      rw [runWith_of_decision hdecision]
      rcases report_write t options folder plan with hreport | ⟨path, error, hreport⟩
      · rw [hreport]
        exact ⟨rfl, rfl⟩
      · rw [hreport]
        exact ⟨rfl, rfl⟩

/-- A dry run changes nothing. -/
theorem tree_of_dry (checksum : Checksum) (hdry : options.dryRun = true) (folder : PackageFolder)
    (t : FileTree) : (runWith checksum options folder t).2 = t := by
  obtain ⟨report, hreport⟩ : ∃ report, PassDecision.ofState checksum options folder
      (.read t folder options) = .settled report := by
    rw [show options = { options with dryRun := true } from by rw [← hdry]]
    exact ⟨_, PassDecision.ofState_dry ..⟩
  rw [runWith_of_settled hreport]

/-- A dry run changes nothing.  It reports what the real run reports exactly if all that the real
    run writes and removes succeeds; otherwise the real run reports one failure more. -/
theorem runWith_dry (checksum : Checksum) (options : PassOptions) (folder : PackageFolder)
    (t : FileTree) :
    let dry := runWith checksum { options with dryRun := true } folder t
    let real := runWith checksum { options with dryRun := false } folder t
    dry.2 = t ∧
    (Succeeds checksum { options with dryRun := false } folder t ↔ dry.1 = real.1) ∧
    (dry.1 = real.1 ∨
      ∃ path ∈ [options.outputPath folder, options.cachePath folder], ∃ error,
        real.1 = dry.1.withInternal path error) := by
  intro dry real
  have hdry : dry = ((PassDecision.ofState checksum { options with dryRun := false } folder
      (.read t folder options)).report, t) := by
    show runWith checksum { options with dryRun := true } folder t = _
    unfold runWith
    show (match PassDecision.ofState checksum { options with dryRun := true } folder
      (.read t folder options) with
      | .settled report => (report, t)
      | .write plan => write t { options with dryRun := true } folder plan) = _
    rw [PassDecision.ofState_dry]
  rw [hdry]
  refine ⟨rfl, ?_⟩
  dsimp only
  cases hdecision : PassDecision.ofState checksum { options with dryRun := false } folder
      (.read t folder options) with
  | settled report =>
      have hreal : real.1 = report := by
        show (runWith checksum { options with dryRun := false } folder t).1 = _
        unfold runWith
        rw [show FolderState.read t folder { options with dryRun := false }
          = .read t folder options from rfl, hdecision]
      rw [hreal]
      refine ⟨⟨fun _ => rfl, ?_⟩, Or.inl rfl⟩
      intro _ plan hplan
      cases hdecision.symm.trans hplan
  | write plan =>
      have hreal : real = write t { options with dryRun := false } folder plan :=
        runWith_of_decision hdecision
      have hsucceeds : Succeeds checksum { options with dryRun := false } folder t ↔
          Writes t { options with dryRun := false } folder plan := by
        constructor
        · intro h
          exact h plan hdecision
        · intro h plan' hplan'
          rw [← PassDecision.write.inj (hdecision.symm.trans hplan')]
          exact h
      rw [hsucceeds, hreal]
      show (_ ↔ plan.report = _) ∧ (plan.report = _ ∨ _)
      rcases report_write_cases t { options with dryRun := false } folder plan with
        ⟨hwrites, hreport⟩ | ⟨hfails, path, hpath, error, hreport⟩
      · rw [hreport]
        exact ⟨⟨fun _ => rfl, fun _ => hwrites⟩, Or.inl rfl⟩
      · rw [hreport]
        refine ⟨⟨fun h => absurd h hfails, ?_⟩, Or.inr ⟨path, hpath, error, rfl⟩⟩
        intro hsame
        exact absurd hsame.symm (plan.report.withInternal_ne path error)

/-- A pass over a folder with an output that holds a block: what the dry run reports is written. -/
theorem runWith_dry_of_stopped :
    let dry := runWith Sha256.ofText { sampleOptions with dryRun := true } sampleFolder stoppedTree
    let real :=
      runWith Sha256.ofText { sampleOptions with dryRun := false } sampleFolder stoppedTree
    real.1 = { folder := ⟨"svc"⟩, outcome := .generated, services := ["A"] } ∧
      dry.2 = stoppedTree ∧ dry.1 = real.1 := by
  intro dry real
  have hreal : real.1 = { folder := ⟨"svc"⟩, outcome := .generated, services := ["A"] } := by
    decide +kernel
  obtain ⟨htree, -, hreport⟩ := runWith_dry Sha256.ofText sampleOptions sampleFolder stoppedTree
  refine ⟨hreal, htree, hreport.resolve_right ?_⟩
  -- a failure would be one of the issues
  rintro ⟨path, -, error, hfailed⟩
  have hissues := congrArg FolderReport.issues (hreal.symm.trans hfailed)
  exact absurd hissues.symm (List.append_ne_nil_of_right_ne_nil _ (List.cons_ne_nil _ _))

/-! ## Forced runs -/

/-- A forced pass writes what it generates, unless it must not touch what is there. -/
theorem tree_of_force (checksum : Checksum) (hforce : options.force = true)
    (hdry : options.dryRun = false) (folder : PackageFolder) (t : FileTree) :
    (runWith checksum options folder t).2 = match (FolderState.read t folder options).previous with
      | .error _ => t
      | .ok previous => (write t options folder
          (ofGeneration checksum folder (.read t folder options) previous
            (.made options.runtime (.read t folder options) previous))).2 := by
  cases hprevious : (FolderState.read t folder options).previous with
  | error reason => rw [runWith_of_error hprevious]
  | ok previous =>
      rw [runWith_of_not_upToDate hdry hprevious
        (not_upToDate_of_force checksum hforce _ _)]

/-- A run that finds something to do does what a forced run does. -/
theorem runWith_forced_of_miss (hmiss : isHit checksum options folder t = false) :
    runWith checksum { options with force := true } folder t
      = runWith checksum options folder t := by
  have hdecision : PassDecision.ofState checksum { options with force := true } folder
      (.read t folder options)
        = PassDecision.ofState checksum options folder (.read t folder options) := by
    cases hprevious : (FolderState.read t folder options).previous with
    | error reason =>
        rw [PassDecision.ofState_of_error hprevious, PassDecision.ofState_of_error hprevious]
        rfl
    | ok previous =>
        rw [isHit_of_previous hprevious] at hmiss
        rw [PassDecision.ofState_of_not_upToDate hprevious hmiss,
          PassDecision.ofState_of_not_upToDate hprevious (not_upToDate_of_force checksum rfl _ _)]
  unfold runWith
  rw [show FolderState.read t folder { options with force := true }
    = .read t folder options from rfl, hdecision]
  rfl

/-- A run leaves the generated file that a forced run leaves. -/
def SameOutput (checksum : Checksum) (options : PassOptions) (folder : PackageFolder)
    (t : FileTree) : Prop :=
  (runWith checksum options folder t).2.entryAt (options.outputPath folder)
    = (runWith checksum { options with force := true } folder t).2.entryAt
        (options.outputPath folder)

theorem runWith_of_hit (hhit : isHit checksum options folder t = true) :
    (runWith checksum options folder t).2 = t := by
  unfold isHit at hhit
  split at hhit
  · rename_i previous hprevious
    rw [runWith_of_upToDate hprevious hhit]
  · cases hhit

/-- The two runs differ only where one has nothing to do and the other changes the file. -/
theorem sameOutput_iff (checksum : Checksum) (options : PassOptions) (folder : PackageFolder)
    (t : FileTree) :
    SameOutput checksum options folder t ↔ isHit checksum options folder t = false ∨
      (runWith checksum { options with force := true } folder t).2.entryAt
          (options.outputPath folder) = t.entryAt (options.outputPath folder) := by
  cases hhit : isHit checksum options folder t with
  | false =>
      constructor
      · intro _
        exact Or.inl rfl
      · intro _
        show _ = _
        rw [runWith_forced_of_miss hhit]
  | true =>
      show (runWith checksum options folder t).2.entryAt _ = _ ↔ _
      rw [runWith_of_hit hhit]
      constructor
      · intro hsame
        exact Or.inr hsame.symm
      · rintro (hmiss | hkept)
        · cases hmiss
        · exact hkept.symm

/-- A forced run leaves the generated file as it is exactly if it makes the same file, or makes
    another one and cannot put it there. -/
theorem forced_keeps_iff (checksum : Checksum) (hsep : options.Separate)
    (hforce : options.force = true) (hdry : options.dryRun = false) {dir : Place}
    (hdir : t.folderAt folder.path = .ok dir) {previous : Option String}
    (hprevious : (FolderState.read t folder options).previous = .ok previous) :
    let g := Generation.made options.runtime (.read t folder options) previous
    (runWith checksum options folder t).2.entryAt (options.outputPath folder)
        = t.entryAt (options.outputPath folder) ↔
      g.text = previous ∨
        g.text.isSome = true ∧ ¬ t.CanReplace folder.path options.outputFile dir := by
  intro g
  have hrun := runWith_of_not_upToDate hdry hprevious
    (not_upToDate_of_force checksum hforce (.read t folder options) previous)
  have hdir' : (runWith checksum options folder t).2.folderAt folder.path = .ok dir :=
    (confined_runWith checksum t hsep.output hsep.cache).folderAt_eq_ok.mpr hdir
  have hold : t.entryAt (options.outputPath folder) = _ :=
    entryAt_of_readText hsep.output hdir (output_of_previous hprevious)
  -- in the same folder, entries are as alike as their texts
  have hnew : ∀ {text : Option String},
      (runWith checksum options folder t).2.readText (options.outputPath folder)
        = text.elim (.error .notFound) .ok →
      ((runWith checksum options folder t).2.entryAt (options.outputPath folder)
        = t.entryAt (options.outputPath folder) ↔ text = previous) := by
    intro text hread
    have hentry : (runWith checksum options folder t).2.entryAt (options.outputPath folder) = _ :=
      entryAt_of_readText hsep.output hdir' hread
    constructor
    · intro hsame
      have hreads := readText_congr hsame
      rw [hread, show t.readText (options.outputPath folder) = _ from
        output_of_previous hprevious] at hreads
      exact elim_injective hreads
    · intro hsame
      rw [hentry, hold, hsame]
  have hbehind := written_or_blocked hsep hdir hprevious
    (rfl : (ofGeneration checksum folder (.read t folder options) previous g).output
      = changeOf g previous)
  dsimp only at hbehind
  rw [← hrun] at hbehind
  rcases hbehind with ⟨hread, hcan⟩ | ⟨hread, hsome, -, hblocked⟩
  · rw [hnew hread]
    constructor
    · exact Or.inl
    · rintro (hsame | ⟨hsome, hblocked⟩)
      · exact hsame
      · by_contra hne
        exact hblocked (hcan hsome hne)
  · rw [hnew hread]
    constructor
    · intro _
      exact Or.inr ⟨hsome, hblocked⟩
    · intro _
      rfl

/-! ## Another runtime -/

/-- The folder of a manifest that has been read is there. -/
theorem folder_of_manifest (hcache : IsEntryName options.cacheFile) {m : Manifest}
    (h : (FolderState.read t folder options).manifest = some m) :
    ∃ dir, t.folderAt folder.path = .ok dir := by
  change FolderState.readManifest t (options.cachePath folder) = some m at h
  unfold FolderState.readManifest at h
  cases hread : t.readText (options.cachePath folder) with
  | error e =>
      rw [hread] at h
      cases h
  | ok text =>
      obtain ⟨dir, hdir, -⟩ := find?_of_readText hcache hread
      exact ⟨dir, hdir⟩

/-- What is up to date is so for any runtime, by the manifest that is there. -/
theorem upToDate_of_runtime {state : FolderState} {previous : Option String}
    (h : isUpToDate checksum options state previous = true) (runtime : ImportEntry) :
    isUpToDate checksum { options with runtime, force := false } state previous = true ∧
      recorded options state = state.manifest := by
  obtain ⟨hunchanged, hreadable, hmarker, m, hm, houtput⟩ := isUpToDate_iff.mp h
  have hforce : options.force = false := by
    refine Bool.eq_false_iff.mpr fun hforce => ?_
    rw [recorded, if_pos hforce] at hm
    cases hm
  have hrecorded : recorded options state = state.manifest := by
    rw [recorded, hforce, if_neg Bool.false_ne_true]
  rw [hrecorded] at hunchanged hm
  exact ⟨isUpToDate_iff.mpr ⟨hunchanged, hreadable, hmarker, m, hm, houtput⟩, hrecorded⟩

/-- A pass without errors leaves a folder that is up to date, for this runtime and any other. -/
theorem upToDate_again (checksum : Checksum) (hfits : options.Fits folder)
    (hdry : options.dryRun = false) (t : FileTree)
    (hok : (runWith checksum options folder t).1.hasErrors = false) (runtime : ImportEntry) :
    let left := runWith checksum options folder t
    let state := FolderState.read left.2 folder options
    ∃ previous, state.previous = .ok previous ∧
      isUpToDate checksum { options with runtime, force := false } state previous = true ∧
      recordedServices state.manifest = left.1.services := by
  intro left state
  have hnone : ∀ i ∈ left.1.issues, i.isError = false := by
    intro i hi
    exact Bool.eq_false_iff.mpr (List.any_eq_false.mp hok i hi)
  rcases runWith_cases checksum t hfits.output hfits.cache hdry with
    ⟨i, hi, hinternal⟩ | ⟨previous, hprevious, hcurrent, hrun⟩ |
      ⟨previous, t', dir, hprevious, -, hstep, hcan, hrun⟩
  · -- a failure is an error
    cases i with
    | internal file error => exact absurd (hnone _ hi) (by simp [Issue.isError, Issue.severity])
    | _ => exact absurd hinternal Bool.false_ne_true
  · -- there was nothing to do already: the manifest that counted is the one that is there
    obtain ⟨hagain, hrecorded⟩ := upToDate_of_runtime hcurrent runtime
    have hstate : state = .read t folder options := by
      show FolderState.read (runWith checksum options folder t).2 folder options = _
      rw [hrun]
    refine ⟨previous, ?_, ?_, ?_⟩
    · rw [hstate]
      exact hprevious
    · rw [hstate]
      exact hagain
    · show _ = (runWith checksum options folder t).1.services
      rw [hstate, hrun, ← hrecorded]
  · obtain ⟨hsources, -, hafter, hmanifest⟩ := read_of_write hfits hprevious
      (fun s hs => Generation.isGenerated_of_text hs) hstep hcan
      (manifestOf_version checksum _ _)
    have hstate : state = .read (t'.replaced dir options.cacheFile (manifestOf checksum
        (.read t folder options) (.made options.runtime (.read t folder options) previous)).text)
          folder options := by
      show FolderState.read (runWith checksum options folder t).2 folder options = _
      rw [hrun]
    have hissues : ∀ i ∈ (FolderState.read t folder options).issues, i.isError = false := by
      intro i hi
      refine hnone i ?_
      show i ∈ (runWith checksum options folder t).1.issues
      rw [hrun]
      exact hi
    rw [hstate]
    refine ⟨_, hafter, ?_, ?_⟩
    · exact upToDate_after_write options.runtime previous (nodup_names hfits t) hissues hsources
        (hmanifest : recorded { options with runtime, force := false } _ = _)
    · show recordedServices _ = (runWith checksum options folder t).1.services
      rw [hmanifest, hrun]
      rfl

/-- Behind a pass without errors a run under another runtime has nothing to do, so it leaves what a
    forced one leaves exactly if the file for that runtime is the one that is there, or cannot be
    put there. -/
theorem sameOutput_again (checksum : Checksum) (hfits : options.Fits folder)
    (hdry : options.dryRun = false) (t : FileTree)
    (hok : (runWith checksum options folder t).1.hasErrors = false) (runtime : ImportEntry) :
    let left := runWith checksum options folder t
    let other : PassOptions := { options with runtime, force := false }
    runWith checksum other folder left.2
      = ({ folder := folder.path, outcome := .unchanged, issues := []
           services := left.1.services }, left.2) ∧
    ∃ dir previous, left.2.folderAt folder.path = .ok dir ∧
      (FolderState.read left.2 folder options).previous = .ok previous ∧
      let g := Generation.made runtime (.read left.2 folder options) previous
      (SameOutput checksum other folder left.2 ↔ g.text = previous ∨
        g.text.isSome = true ∧ ¬ left.2.CanReplace folder.path options.outputFile dir) := by
  intro left other
  obtain ⟨previous, hprevious, hcurrent, hservices⟩ :=
    upToDate_again checksum hfits hdry t hok runtime
  have hread : FolderState.read left.2 folder other = .read left.2 folder options := rfl
  rw [← hread] at hprevious hcurrent hservices
  obtain ⟨-, -, -, m, hm, -⟩ := isUpToDate_iff.mp hcurrent
  obtain ⟨dir, hdir⟩ := folder_of_manifest hfits.cache hm
  refine ⟨?_, dir, previous, hdir, hprevious, ?_⟩
  · rw [runWith_of_upToDate hprevious hcurrent]
    show (FolderReport.mk _ _ _ (recordedServices _), _) = _
    rw [← hservices]
    rfl
  · have hhit : isHit checksum other folder left.2 = true := by
      rw [isHit_of_previous hprevious]
      exact hcurrent
    have hsep := hfits.separate
    have hforced : PassOptions.Separate { other with force := true } :=
      ⟨hsep.output, hsep.cache, hsep.apart, hsep.temporary⟩
    have hkeeps := forced_keeps_iff checksum hforced rfl hdry hdir hprevious
    rw [sameOutput_iff, hhit]
    constructor
    · rintro (hmiss | hkept)
      · cases hmiss
      · exact hkeeps.mp hkept
    · intro h
      exact Or.inr (hkeeps.mpr h)

/-- When a change of the runtime takes effect without force.  In any state the run leaves what a
    forced one leaves exactly if it finds something to do or the forced one keeps the file.  Behind
    a pass without errors, under names that do not get in each other's way, it never finds anything
    to do: it takes effect exactly if the file for the new runtime is the one that is there, or
    cannot be put there. -/
theorem sameOutput_of_runtime (checksum : Checksum) (hdry : options.dryRun = false)
    (runtime : ImportEntry) (t : FileTree)
    (hok : (runWith checksum options folder t).1.hasErrors = false) :
    let left := runWith checksum options folder t
    let other : PassOptions := { options with runtime, force := false }
    let output := options.outputPath folder
    (SameOutput checksum other folder left.2 ↔ isHit checksum other folder left.2 = false ∨
      (runWith checksum { other with force := true } folder left.2).2.entryAt output
        = left.2.entryAt output) ∧
    (options.Fits folder →
      runWith checksum other folder left.2
        = ({ folder := folder.path, outcome := .unchanged, issues := []
             services := left.1.services }, left.2) ∧
      ∃ dir previous, left.2.folderAt folder.path = .ok dir ∧
        (FolderState.read left.2 folder options).previous = .ok previous ∧
        let g := Generation.made runtime (.read left.2 folder options) previous
        (SameOutput checksum other folder left.2 ↔ g.text = previous ∨
          g.text.isSome = true ∧ ¬ left.2.CanReplace folder.path options.outputFile dir)) := by
  intro left other output
  refine ⟨sameOutput_iff checksum other folder left.2, ?_⟩
  intro hfits
  exact sameOutput_again checksum hfits hdry t hok runtime

/-- The sample under another runtime. -/
def otherOptions : PassOptions :=
  { sampleOptions with runtime := .conventional "example.com/other" }

theorem report_of_fresh : (runWith Sha256.ofText sampleOptions sampleFolder freshTree).1
    = { folder := ⟨"svc"⟩, outcome := .generated, services := ["A"] } := by
  decide +kernel

/-- The sample is up to date for another runtime. -/
theorem sameOutput_of_runtime_sample :
    let left := runWith Sha256.ofText sampleOptions sampleFolder freshTree
    left.1.hasErrors = false ∧ left.1.services = ["A"] ∧
      runWith Sha256.ofText otherOptions sampleFolder left.2
        = ({ folder := sampleFolder.path, outcome := .unchanged, issues := []
             services := left.1.services }, left.2) := by
  have hok : (runWith Sha256.ofText sampleOptions sampleFolder freshTree).1.hasErrors = false := by
    rw [report_of_fresh]
    rfl
  refine ⟨hok, by rw [report_of_fresh], ?_⟩
  exact ((sameOutput_of_runtime Sha256.ofText rfl otherOptions.runtime freshTree hok).2
    fits_sample).1

theorem miss_of_fresh : isHit Sha256.ofText sampleOptions sampleFolder freshTree = false :=
  not_upToDate_of_manifest Sha256.ofText sampleOptions rfl none

/-- The two runtimes make different files. -/
theorem texts_of_fresh :
    let state := FolderState.read freshTree sampleFolder sampleOptions
    (Generation.made sampleOptions.runtime state none).text.isSome = true ∧
      (Generation.made otherOptions.runtime state none).text
        ≠ (Generation.made sampleOptions.runtime state none).text := by
  decide +kernel

/-- Its generated file stays that of the old runtime until a run is forced. -/
theorem not_sameOutput_of_other :
    let left := runWith Sha256.ofText sampleOptions sampleFolder freshTree
    sampleOptions.Fits sampleFolder ∧ sampleOptions.dryRun = false ∧
      otherOptions = { sampleOptions with runtime := otherOptions.runtime } ∧
      left.1.hasErrors = false ∧ ¬ SameOutput Sha256.ofText otherOptions sampleFolder left.2 := by
  intro left
  have hreport : left.1 = { folder := ⟨"svc"⟩, outcome := .generated, services := ["A"] } :=
    report_of_fresh
  have hok : left.1.hasErrors = false := by
    rw [hreport]
    rfl
  have hinternal : ∀ i ∈ left.1.issues, i.isInternal = false := by
    rw [hreport]
    exact List.forall_mem_nil _
  refine ⟨fits_sample, rfl, rfl, hok, ?_⟩
  obtain ⟨-, dir, previous, hdir, hprevious, hsame⟩ :=
    sameOutput_again Sha256.ofText fits_sample rfl freshTree hok otherOptions.runtime
  obtain ⟨before, dir', g, hleft⟩ := regenerates_of_miss fits_sample rfl miss_of_fresh hinternal
  obtain ⟨hsome, hne⟩ := texts_of_fresh
  have hbefore : before = none := (Except.ok.inj hleft.found).symm
  have hg : g = .made sampleOptions.runtime (.read freshTree sampleFolder sampleOptions) none := by
    rw [hleft.made, hbefore]
  have htext : previous = g.text := Except.ok.inj (hprevious.symm.trans hleft.output)
  -- the file that is there was made without blocks, so it does not come into the other one
  have hblocks : FolderState.blocksOf previous = [] := by
    rw [htext, hg]
    exact Generation.blocksOf_text ⟨by decide, by decide, by decide⟩
      (fun name hname => by rw [← Option.some.inj hname]; decide) rfl
  have hmade : Generation.made otherOptions.runtime
      (.read left.2 sampleFolder sampleOptions) previous
      = .made otherOptions.runtime (.read freshTree sampleFolder sampleOptions) none := by
    rw [@Generation.made_of_blocksOf _ none hblocks]
    exact Generation.made_congr hleft.sources hleft.name otherOptions.runtime none
  intro h
  rcases hsame.mp h with hkept | ⟨-, hblocked⟩
  · rw [hmade, htext, hg] at hkept
    exact hne hkept
  · refine hblocked ?_
    rw [Except.ok.inj (hdir.symm.trans hleft.inside)]
    refine hleft.replaceOutput (by rw [hg]; exact hsome) ?_
    rw [hbefore, hg]
    exact Option.ne_none_iff_isSome.mpr hsome

end FolderPass

end ServiceWiring
