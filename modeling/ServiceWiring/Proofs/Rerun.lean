import ServiceWiring.Proofs.Pass

/-!
# Running a pass again

A pass that reported no error has nothing to do when it runs again: whatever it did, the manifest
it left speaks for the folder as it is.  A pass that reported errors in the sources reports them
again: every error stands in a source, and a source with an error is not recorded.

* `FolderPass.upToDate_after_write` — the manifest of a pass without errors fits the folder;
* `FolderPass.not_upToDate_after_errors` — that of a pass with errors does not;
* `FolderPass.runWith_again`, `FolderPass.issues_again` — the two kinds of second pass.
-/

namespace ServiceWiring

namespace FolderPass

open FileTree PassPlan

variable {t : FileTree} {options : PassOptions} {folder : PackageFolder} {checksum : Checksum}

/-! ## Names of sources -/

theorem names_sublist (t : FileTree) (options : PassOptions) {path : Path} {sources : List Path}
    (h : ∀ p ∈ sources, ∃ name, p.fileName? = some name) :
    ((FolderState.read t ⟨path, sources⟩ options).inputs.map (·.name)).Sublist
      (sources.filterMap Path.fileName?) := by
  induction sources with
  | nil => exact List.Sublist.refl _
  | cons p sources ih =>
      have hrest := ih fun q hq => h q (List.mem_cons_of_mem _ hq)
      obtain ⟨name, hname⟩ := h p (List.mem_cons_self ..)
      rw [List.filterMap_cons_some hname]
      cases hread : t.readText p with
      | error e =>
          -- a source that cannot be read is left out
          have hinputs : (FolderState.read t ⟨path, p :: sources⟩ options).inputs
              = (FolderState.read t ⟨path, sources⟩ options).inputs := by
            simp [FolderState.inputs, FolderState.read, hread]
          rw [hinputs]
          exact hrest.cons name
      | ok content =>
          have hinputs : (FolderState.read t ⟨path, p :: sources⟩ options).inputs
              = ⟨p, content⟩ :: (FolderState.read t ⟨path, sources⟩ options).inputs := by
            simp [FolderState.inputs, FolderState.read, hread]
          have hfirst : SourceInput.name ⟨p, content⟩ = name := by
            rw [SourceInput.name, hname]
            rfl
          rw [hinputs, List.map_cons, hfirst]
          exact hrest.cons_cons name

/-- No two sources have one name in the manifest. -/
theorem nodup_names (hfits : options.Fits folder) (t : FileTree) :
    ((FolderState.read t folder options).inputs.map (·.name)).Nodup := by
  refine List.Nodup.sublist (names_sublist t options ?_) (List.nodup_append.mp hfits.apart).2.1
  intro p hp
  obtain ⟨name, hn, hname⟩ := hfits.sources p hp
  exact ⟨name, hname.fileName?_eq hn⟩

theorem eq_of_name_eq {inputs : List SourceInput} (h : (inputs.map (·.name)).Nodup)
    {a b : SourceInput} (ha : a ∈ inputs) (hb : b ∈ inputs) (hname : a.name = b.name) : a = b := by
  induction inputs with
  | nil => cases ha
  | cons input inputs ih =>
      obtain ⟨hfirst, hrest⟩ := List.nodup_cons.mp h
      rcases List.mem_cons.mp ha with rfl | ha'
      · rcases List.mem_cons.mp hb with rfl | hb'
        · rfl
        · refine absurd ?_ hfirst
          show a.name ∈ _
          rw [hname]
          exact List.mem_map_of_mem hb'
      · rcases List.mem_cons.mp hb with rfl | hb'
        · refine absurd ?_ hfirst
          show b.name ∈ _
          rw [← hname]
          exact List.mem_map_of_mem ha'
        · exact ih hrest ha' hb'

theorem map_fst_sums (checksum : Checksum) (inputs : List SourceInput) :
    (sums checksum inputs).map (·.1) = inputs.map (·.name) := by
  rw [sums, List.map_map]
  rfl

/-! ## The manifest of a pass -/

theorem sound_eq_self {issues : List Issue} (h : ∀ i ∈ issues, i.isError = false)
    (inputs : List SourceInput) : sound issues inputs = inputs := by
  refine List.filter_eq_self.mpr fun input _ => ?_
  rw [Bool.not_eq_true', List.any_eq_false]
  intro i hi
  rw [h i hi]
  exact Bool.false_ne_true

theorem manifestOf_version (checksum : Checksum) (state : FolderState) (g : Generation) :
    (manifestOf checksum state g).version = Manifest.currentVersion :=
  rfl

/-- The manifest of a generation without errors says that the folder is up to date, once the
    generated file is the one of the generation. -/
theorem upToDate_after_write (runtime : ImportEntry) {before after : FolderState}
    (previous : Option String) (hnodup : (before.inputs.map (·.name)).Nodup)
    (hok : ∀ i ∈ before.issues, i.isError = false)
    (hsources : after.sources = before.sources)
    (hmanifest : recorded options after
      = some (manifestOf checksum before (.made runtime before previous))) :
    isUpToDate checksum options after (Generation.made runtime before previous).text = true := by
  have hinputs : after.inputs = before.inputs := by rw [FolderState.inputs, hsources]; rfl
  have hread : after.readIssues = before.readIssues := by rw [FolderState.readIssues, hsources]; rfl
  have hmarker : after.anyMarker = before.anyMarker := by rw [FolderState.anyMarker, hinputs]; rfl
  have hfiles : recordedFiles (recorded options after)
      = Checksums.ofPairs (sums checksum before.inputs) := by
    rw [hmanifest]
    show Checksums.ofPairs (sums checksum (sound before.issues before.inputs)) = _
    rw [sound_eq_self hok]
  refine isUpToDate_iff.mpr ⟨?_, ?_, ?_, ?_⟩
  · refine all_unchanged_iff.mpr ⟨?_, ?_⟩
    · intro input hinput
      rw [hinputs] at hinput
      rw [hfiles]
      refine Checksums.get?_ofPairs ?_ hinput
      rw [map_fst_sums]
      exact hnodup
    · intro entry hentry
      rw [hfiles] at hentry
      rw [hinputs]
      exact List.mem_map_of_mem (Checksums.mem_of_mem_ofPairs hentry)
  · rw [hread]
    -- an unreadable source would be an error of the generation
    cases hissues : before.readIssues with
    | nil => rfl
    | cons i rest =>
        have hmem : i ∈ before.readIssues := by
          rw [hissues]
          exact List.mem_cons_self ..
        have herror := Generation.isError_of_readIssues hmem
        rw [hok i (Generation.mem_issues_of_readIssues hmem)] at herror
        cases herror
  · intro hsome
    obtain ⟨text, htext⟩ := Option.isSome_iff_exists.mp hsome
    rw [hmarker]
    exact Generation.anyMarker_of_text htext
  · exact ⟨_, hmanifest, rfl⟩

/-- The manifest of a generation with an error does not: the source with the error is missing
    from it, or it still cannot be read. -/
theorem not_upToDate_after_errors (runtime : ImportEntry) {before after : FolderState}
    (previous current : Option String) {i : Issue} (hnodup : (before.inputs.map (·.name)).Nodup)
    (hi : i ∈ before.issues) (herror : i.isError = true) (hsources : after.sources = before.sources)
    (hmanifest : recorded options after
      = some (manifestOf checksum before (.made runtime before previous))) :
    isUpToDate checksum options after current = false := by
  have hinputs : after.inputs = before.inputs := by rw [FolderState.inputs, hsources]; rfl
  have hread : after.readIssues = before.readIssues := by rw [FolderState.readIssues, hsources]; rfl
  rw [Bool.eq_false_iff]
  intro h
  obtain ⟨hunchanged, hreadable, -, -⟩ := isUpToDate_iff.mp h
  rcases Generation.file_of_issue hi with hunread | ⟨input, hinput, hfile⟩
  · rw [← hread, hreadable] at hunread
    cases hunread
  · have hrecorded := (all_unchanged_iff.mp hunchanged).1 (input.name, checksum input.content)
      (by rw [hinputs]; exact List.mem_map_of_mem hinput)
    rw [hmanifest] at hrecorded
    -- what is recorded under the name comes from a source without an error, and there is only one
    obtain ⟨other, hother, hname⟩ := List.mem_map.mp
      (Checksums.mem_of_mem_ofPairs (Checksums.mem_of_get? hrecorded))
    obtain ⟨hother, hsound⟩ := List.mem_filter.mp hother
    have hsame : other = input := eq_of_name_eq hnodup hother hinput (Prod.mk.inj hname).1
    subst hsame
    rw [Bool.not_eq_true', List.any_eq_false] at hsound
    exact hsound i hi (by rw [herror, hfile, beq_self_eq_true]; rfl)

/-! ## Second passes -/

theorem read_unforced (t : FileTree) (folder : PackageFolder) (options : PassOptions) :
    FolderState.read t folder { options with force := false } = FolderState.read t folder options :=
  rfl

theorem fits_unforced (hfits : options.Fits folder) :
    PassOptions.Fits { options with force := false } folder :=
  ⟨hfits.output, hfits.cache, hfits.sources, hfits.apart⟩

theorem recorded_unforced (options : PassOptions) (state : FolderState) :
    recorded { options with force := false } state = state.manifest :=
  rfl

/-- A pass that reported no error has nothing to do when it runs again: it reports the same
    services, no issues, and changes nothing. -/
theorem runWith_again (checksum : Checksum) (hfits : options.Fits folder)
    (hdry : options.dryRun = false) (t : FileTree)
    (hok : (runWith checksum options folder t).1.hasErrors = false) :
    runWith checksum { options with force := false } folder (runWith checksum options folder t).2
      = ({ folder := folder.path, outcome := .unchanged, issues := []
           services := (runWith checksum options folder t).1.services },
         (runWith checksum options folder t).2) := by
  have hnone : ∀ i ∈ (runWith checksum options folder t).1.issues, i.isError = false := by
    intro i hi
    exact Bool.eq_false_iff.mpr (List.any_eq_false.mp hok i hi)
  rcases runWith_cases checksum t hfits.output hfits.cache hdry with
    ⟨i, hi, hinternal⟩ | ⟨previous, hprevious, hcurrent, hrun⟩ |
      ⟨previous, t', dir, hprevious, -, hstep, hcan, hrun⟩
  · cases i with
    | internal file error => exact absurd (hnone _ hi) (by simp [Issue.isError, Issue.severity])
    | _ => exact nomatch hinternal
  · -- nothing was to be done the first time, so nothing has changed
    have hforce : options.force = false := by
      obtain ⟨m, hm, -⟩ := (isUpToDate_iff.mp hcurrent).2.2.2
      unfold recorded at hm
      split at hm
      · exact nomatch hm
      · rename_i h
        exact Bool.eq_false_iff.mpr h
    have hsame : { options with force := false } = options := by rw [← hforce]
    rw [hrun, hsame]
    exact hrun
  · obtain ⟨hsources, -, hafter, hmanifest⟩ := read_of_write hfits hprevious
      (fun s hs => Generation.isGenerated_of_text hs) hstep hcan
      (manifestOf_version checksum _ _)
    rw [hrun] at hnone ⊢
    dsimp only at hnone ⊢
    rw [← read_unforced] at hafter
    have hcurrent := upToDate_after_write options.runtime previous (nodup_names hfits t) hnone
      hsources ((recorded_unforced options _).trans hmanifest)
    rw [runWith_of_upToDate hafter hcurrent, recorded_unforced, read_unforced, hmanifest]
    rfl

theorem runWith_again_of_sample :
    let ran := runWith Sha256.ofText sampleOptions sampleFolder
      (sampleTree "package svc\n\n// @Service\ntype A struct\x7b\x7d\n")
    ran.1.hasErrors = false ∧ ran.1.services = ["A"] ∧
      runWith Sha256.ofText { sampleOptions with force := false } sampleFolder ran.2
        = ({ folder := sampleFolder.path, outcome := .unchanged, issues := []
             services := ran.1.services }, ran.2) := by
  refine ⟨by decide +kernel, by decide +kernel, ?_⟩
  exact runWith_again Sha256.ofText fits_sample rfl _ (by decide +kernel)

/-- Writing fails on nothing where the manifest can be replaced and the generated file is kept or
    can be replaced too. -/
theorem report_of_canReplace (hfits : options.Fits folder) {dir : Place} {plan : PassPlan}
    (hcan : t.CanReplace folder.path options.cacheFile dir)
    (hchange : plan.output = .keep ∨
      ∃ text, plan.output = .replace text ∧ t.CanReplace folder.path options.outputFile dir) :
    (write t options folder plan).1 = plan.report := by
  unfold write
  dsimp only [PassOptions.outputPath, PassOptions.cachePath]
  rcases hchange with hkeep | ⟨text, hreplace, houtput⟩
  · rw [hkeep]
    dsimp only [changeOutput]
    rw [replaceFile_of_canReplace hfits.cache hcan]
  · rw [hreplace]
    dsimp only [changeOutput]
    rw [replaceFile_of_canReplace hfits.output houtput]
    dsimp only
    rw [replaceFile_of_canReplace hfits.cache (hcan.of_confined (confined_replaced houtput text))]

/-- Behind a written plan the next generation keeps the file, or replaces it where it has just
    been replaced. -/
theorem changeOf_again {t' : FileTree} {dir : Place} {before after : FolderState}
    {runtime : ImportEntry} {previous : Option String} (hsources : after.sources = before.sources)
    (hname : after.name = before.name) {base : Path} {name : String}
    (hstep : OutputStep t base name (changeOf (.made runtime before previous) previous) t')
    (hdir : t.folderAt base = .ok dir) :
    let text := (Generation.made runtime before previous).text
    changeOf (.made runtime after text) text = .keep ∨
      ∃ new, changeOf (.made runtime after text) text = .replace new ∧
        t'.CanReplace base name dir := by
  intro text
  have hagain : Generation.made runtime after text = .made runtime before text :=
    Generation.made_congr hsources hname runtime text
  have hsome := Generation.text_isSome_of_previous runtime before text previous
  rw [hagain]
  rcases changeOf_cases (.made runtime before text) text with
    ⟨hkeep, -⟩ | ⟨new, hreplace, hnew⟩ | ⟨-, hnone, hold⟩
  · exact Or.inl hkeep
  · refine Or.inr ⟨new, hreplace, ?_⟩
    rcases changeOf_cases (.made runtime before previous) previous with
      ⟨hkeep, hsame⟩ | ⟨old, hold, -⟩ | ⟨-, hnone, -⟩
    · -- kept once, the same generation keeps it again
      have htext : text = previous := hsame
      rw [htext, hkeep] at hreplace
      cases hreplace
    · -- replaced once, it can be replaced again
      have hconfined := hstep.confined
      rw [hold] at hstep
      cases hstep with
      | replace _ hcan =>
          rw [Except.ok.inj (hdir.symm.trans hcan.folder)]
          exact hcan.of_confined hconfined
    · rw [hnew, hnone] at hsome
      cases hsome
  · rw [hnone] at hsome
    rw [← hsome] at hold
    cases hold

/-- Errors in the sources are reported again: behind a pass that reported an error and no
    failure, the next pass reports the same issues. -/
theorem issues_again (checksum : Checksum) (hfits : options.Fits folder)
    (hdry : options.dryRun = false) (t : FileTree)
    (herrors : (runWith checksum options folder t).1.hasErrors = true)
    (hinternal : ∀ i ∈ (runWith checksum options folder t).1.issues, i.isInternal = false) :
    (runWith checksum { options with force := false } folder
        (runWith checksum options folder t).2).1.issues
      = (runWith checksum options folder t).1.issues := by
  rcases runWith_cases checksum t hfits.output hfits.cache hdry with
    ⟨i, hi, hfailed⟩ | ⟨previous, -, -, hrun⟩ |
      ⟨previous, t', dir, hprevious, -, hstep, hcan, hrun⟩
  · rw [hinternal i hi] at hfailed
    exact nomatch hfailed
  · rw [hrun] at herrors
    exact nomatch herrors
  · obtain ⟨hsources, hname, hafter, hmanifest⟩ := read_of_write hfits hprevious
      (fun s hs => Generation.isGenerated_of_text hs) hstep hcan
      (manifestOf_version checksum _ _)
    have hdir : t.folderAt folder.path = .ok dir := hstep.confined.folderAt_eq_ok.mp hcan.folder
    have hreplaced := confined_replaced hcan (manifestOf checksum (.read t folder options)
      (.made options.runtime (.read t folder options) previous)).text
    rw [hrun] at herrors ⊢
    obtain ⟨i, hi, herror⟩ := List.any_eq_true.mp herrors
    dsimp only
    rw [← read_unforced] at hafter
    have hcurrent := not_upToDate_after_errors options.runtime previous
      (Generation.made options.runtime (.read t folder options) previous).text
      (nodup_names hfits t) hi herror hsources ((recorded_unforced options _).trans hmanifest)
    have hdry' : PassOptions.dryRun { options with force := false } = false := hdry
    rw [runWith_of_not_upToDate hdry' hafter hcurrent,
      report_of_canReplace (fits_unforced hfits) (hcan.of_confined hreplaced)]
    · show (FolderState.read _ folder options).issues = (FolderState.read t folder options).issues
      exact congrArg Generation.issues (Generation.made_congr hsources hname options.runtime none)
    · rcases changeOf_again hsources hname hstep hdir with hkeep | ⟨new, hnew, houtput⟩
      · exact Or.inl hkeep
      · exact Or.inr ⟨new, hnew, houtput.of_confined hreplaced⟩

theorem issues_again_of_sample :
    let ran := runWith Sha256.ofText sampleOptions sampleFolder
      (sampleTree "package svc\n\n// @Service(\ntype A struct\x7b\x7d\n")
    ran.1.hasErrors = true ∧
      (runWith Sha256.ofText { sampleOptions with force := false } sampleFolder ran.2).1.issues
        = ran.1.issues := by
  refine ⟨by decide +kernel, ?_⟩
  refine issues_again Sha256.ofText fits_sample rfl _ ?_ ?_
  · decide +kernel
  · decide +kernel

end FolderPass

end ServiceWiring
