import ServiceWiring.Folder.Pass
import ServiceWiring.Proofs.FileReplacement
import ServiceWiring.Proofs.Generation
import ServiceWiring.Proofs.Manifest

/-!
# What a pass leaves behind

A pass touches the generated file, the manifest and their temporary files, and nothing else.
When nothing fails, the folder reads afterwards as the pass has left it: the same sources, the
generated file of the generation and its manifest.

* `PassOptions.Fits` — options whose files are files of a folder and get in nobody's way;
* `FolderPass.OutputStep`, `FolderPass.WriteStep` — what writing can do to a tree;
* `FolderPass.confined_runWith` — the files that a pass touches;
* `PassPlan.isUpToDate_iff` — when a pass has nothing to do;
* `PassDecision.ofState_of_error`, `PassDecision.ofState_of_upToDate`,
  `PassDecision.ofState_of_not_upToDate` — the three ways that a pass can go;
* `FolderPass.read_of_write` — what the next pass reads.
-/

namespace ServiceWiring

/-- Options that fit a folder: the generated file, the manifest and the sources are files of the
    folder, and no two of them and of the temporary files are the same. -/
structure PassOptions.Fits (options : PassOptions) (folder : PackageFolder) : Prop where
  output : IsEntryName options.outputFile
  cache : IsEntryName options.cacheFile
  sources : ∀ p ∈ folder.sources, ∃ name, IsEntryName name ∧ p.LeadsAlike (folder.path.child name)
  apart : ([options.outputFile, temporaryName options.outputFile, options.cacheFile,
    temporaryName options.cacheFile] ++ folder.sources.filterMap Path.fileName?).Nodup

/-- The files of the generator do not get in each other's way. -/
theorem PassOptions.Fits.own {options : PassOptions} {folder : PackageFolder}
    (h : options.Fits folder) : [options.outputFile, temporaryName options.outputFile,
      options.cacheFile, temporaryName options.cacheFile].Nodup :=
  (List.nodup_append.mp h.apart).1

theorem Path.LeadsAlike.fileName?_eq {p base : Path} {name : String} (hn : IsEntryName name)
    (h : p.LeadsAlike (base.child name)) : p.fileName? = some name := by
  refine fileName?_of_names ?_ hn.2.2.1
  rw [h.2, names_child base hn, List.getLast?_concat]

theorem FolderReport.internal_withInternal (report : FolderReport) (path : Path) (error : String) :
    ∃ i ∈ (report.withInternal path error).issues, i.isInternal = true :=
  ⟨_, List.mem_append_right _ (List.mem_singleton_self _), rfl⟩

/-- When a pass has nothing to do. -/
theorem PassPlan.isUpToDate_iff {checksum : Checksum} {options : PassOptions} {state : FolderState}
    {previous : Option String} :
    isUpToDate checksum options state previous = true ↔
      (fingerprint (recorded options state) (sums checksum state.inputs)).all
          (·.2 == .unchanged) = true ∧
      state.readIssues = [] ∧ (previous.isSome → state.anyMarker = true) ∧
      ∃ m, recorded options state = some m ∧ m.output = previous.map checksum := by
  unfold isUpToDate outputMatches
  rw [Bool.and_eq_true, Bool.and_eq_true, Bool.and_eq_true, List.isEmpty_iff, and_assoc, and_assoc]
  refine and_congr Iff.rfl (and_congr Iff.rfl (and_congr ?_ ?_))
  · cases previous.isSome <;> cases state.anyMarker <;> simp
  · cases recorded options state with
    | none => simp
    | some m => simp

namespace PassDecision

open PassPlan

variable {checksum : Checksum} {options : PassOptions} {folder : PackageFolder}
  {state : FolderState} {previous : Option String}

/-! ## Decisions

The generated file must not be touched, there is nothing to do, or everything is generated anew. -/

theorem ofState_of_error {reason : String} (h : state.previous = .error reason) :
    ofState checksum options folder state
      = .settled (FolderReport.withInternal { folder := folder.path, issues := state.readIssues }
          (options.outputPath folder) reason) := by
  unfold ofState
  rw [h]

theorem ofState_of_upToDate (hprevious : state.previous = .ok previous)
    (h : isUpToDate checksum options state previous = true) :
    ofState checksum options folder state
      = .settled { folder := folder.path
                   services := recordedServices (recorded options state) } := by
  unfold ofState
  rw [hprevious]
  dsimp only
  rw [if_pos h, (isUpToDate_iff.mp h).2.1]

theorem ofState_of_not_upToDate (hprevious : state.previous = .ok previous)
    (h : isUpToDate checksum options state previous = false) :
    let plan := ofGeneration checksum folder state previous (.made options.runtime state previous)
    ofState checksum options folder state
      = if options.dryRun then .settled plan.report else .write plan := by
  unfold ofState
  rw [hprevious]
  dsimp only
  rw [h, if_neg Bool.false_ne_true, Generation.ofState_eq_ok]

end PassDecision

namespace FolderPass

open FileTree PassPlan

variable {t t' : FileTree} {base : Path} {name : String} {dir : Place} {options : PassOptions}
  {folder : PackageFolder} {checksum : Checksum}

/-! ## Writing -/

/-- What changing the generated file does when it does not fail. -/
inductive OutputStep (t : FileTree) (base : Path) (name : String) :
    OutputChange → FileTree → Prop where
  | keep : OutputStep t base name .keep t
  | replace {dir : Place} (text : String) (h : t.CanReplace base name dir) :
      OutputStep t base name (.replace text) (t.replaced dir name text)
  | remove {dir : Place} {content : Content} (hdir : t.folderAt base = .ok dir)
      (hpath : (base.child name).checkText = .ok ()) (hentry : checkEntryName name = .ok ())
      (hfind : t.find? (dir ++ [name]) = some (.file content)) :
      OutputStep t base name .remove (t.erase (dir ++ [name]))
  | absent (h : t.readText (base.child name) = .error .notFound) :
      OutputStep t base name .remove t

/-- The places of a file and its temporary file in the folder of a path. -/
def FilePlaces (t : FileTree) (base : Path) (name : String) (place : Place) : Prop :=
  ∃ dir, t.folderAt base = .ok dir ∧ ReplacePlaces dir name place

theorem OutputStep.confined {change : OutputChange} (h : OutputStep t base name change t') :
    Confined (FilePlaces t base name) t t' := by
  cases h with
  | keep => exact Confined.refl _ t
  | replace text hcan =>
      exact (confined_replaced hcan text).mono fun place hp => ⟨_, hcan.folder, hp⟩
  | remove hdir _ _ hfind =>
      refine (Confined.erase (concat_ne_nil _ name) ?_).mono fun place hp => ⟨_, hdir, Or.inl hp⟩
      rw [hfind]
      exact fun h => nomatch h
  | absent _ => exact Confined.refl _ t

/-- The place of the temporary file beside a file in the folder of a path. -/
def TemporaryPlaces (t : FileTree) (base : Path) (name : String) (place : Place) : Prop :=
  ∃ dir, t.folderAt base = .ok dir ∧ place = dir ++ [temporaryName name]

theorem filePlaces_of_temporary {place : Place} (h : TemporaryPlaces t base name place) :
    FilePlaces t base name place := by
  obtain ⟨dir, hdir, hplace⟩ := h
  exact ⟨dir, hdir, Or.inr hplace⟩

/-- Changing the generated file either does what is asked or fails, and then at most the
    temporary file changes. -/
theorem changeOutput_cases (t : FileTree) (base : Path) (hn : IsEntryName name)
    (change : OutputChange) :
    (∃ failure t', changeOutput t (base.child name) change = (.error failure, t') ∧
      Confined (TemporaryPlaces t base name) t t') ∨
    ∃ t', changeOutput t (base.child name) change = (.ok (), t') ∧
      OutputStep t base name change t' := by
  cases change with
  | keep => exact Or.inr ⟨t, rfl, .keep⟩
  | replace text =>
      dsimp only [changeOutput]
      rcases replaceFile_child t base hn text with ⟨dir, hcan, h⟩ | ⟨failure, t', h, hc⟩
      · exact Or.inr ⟨_, h, .replace text hcan⟩
      · exact Or.inl ⟨failure, t', h, hc⟩
  | remove =>
      dsimp only [changeOutput]
      rcases removeIfPresent_child t base hn with
        ⟨dir, content, hdir, hpath, hentry, hfind, h⟩ | ⟨hread, h⟩ | ⟨failure, h⟩
      · rw [h]
        exact Or.inr ⟨_, rfl, .remove hdir hpath hentry hfind⟩
      · rw [h]
        exact Or.inr ⟨t, rfl, .absent hread⟩
      · rw [h]
        exact Or.inl ⟨failure, t, rfl, Confined.refl _ t⟩

/-- The places that a pass over a folder may touch. -/
def PassPlaces (t : FileTree) (options : PassOptions) (folder : PackageFolder) (place : Place) :
    Prop :=
  FilePlaces t folder.path options.outputFile place ∨ FilePlaces t folder.path options.cacheFile place

/-- The ways that writing a plan can go.  A failure is added to the report, and it leaves a
    changed temporary file behind at most. -/
inductive WriteStep (t : FileTree) (options : PassOptions) (folder : PackageFolder)
    (plan : PassPlan) : FolderReport × FileTree → Prop where
  | outputFailed {t' : FileTree} (path : Path) (error : String)
      (h : Confined (TemporaryPlaces t folder.path options.outputFile) t t') :
      WriteStep t options folder plan (plan.report.withInternal path error, t')
  | manifestFailed {t' t'' : FileTree} (path : Path) (error : String)
      (hstep : OutputStep t folder.path options.outputFile plan.output t')
      (h : Confined (TemporaryPlaces t' folder.path options.cacheFile) t' t'') :
      WriteStep t options folder plan (plan.report.withInternal path error, t'')
  | written {t' : FileTree} {dir : Place}
      (hstep : OutputStep t folder.path options.outputFile plan.output t')
      (hcan : t'.CanReplace folder.path options.cacheFile dir) :
      WriteStep t options folder plan
        (plan.report, t'.replaced dir options.cacheFile plan.manifest.text)

theorem writeStep_write (t : FileTree) (hout : IsEntryName options.outputFile)
    (hcache : IsEntryName options.cacheFile) (plan : PassPlan) :
    WriteStep t options folder plan (write t options folder plan) := by
  unfold write
  dsimp only [PassOptions.outputPath, PassOptions.cachePath]
  rcases changeOutput_cases t folder.path hout plan.output with
    ⟨failure, t', h, hc⟩ | ⟨t', h, hstep⟩
  · rw [h]
    exact .outputFailed _ _ hc
  · rw [h]
    dsimp only
    rcases replaceFile_child t' folder.path hcache plan.manifest.text with
      ⟨dir, hcan, hr⟩ | ⟨failure, t'', hr, hc⟩
    · rw [hr]
      exact .written hstep hcan
    · rw [hr]
      exact .manifestFailed _ _ hstep hc

theorem WriteStep.confined {plan : PassPlan} {result : FolderReport × FileTree}
    (h : WriteStep t options folder plan result) :
    Confined (PassPlaces t options folder) t result.2 := by
  cases h with
  | outputFailed path error hc =>
      exact hc.mono fun place hp => Or.inl (filePlaces_of_temporary hp)
  | manifestFailed path error hstep hc =>
      refine (hstep.confined.mono fun _ => Or.inl).trans (hc.mono ?_)
      rintro place ⟨dir, hdir, hp⟩
      exact Or.inr ⟨dir, hstep.confined.folderAt_eq_ok.mp hdir, Or.inr hp⟩
  | written hstep hcan =>
      refine (hstep.confined.mono fun _ => Or.inl).trans ((confined_replaced hcan _).mono ?_)
      intro place hp
      exact Or.inr ⟨_, hstep.confined.folderAt_eq_ok.mp hcan.folder, hp⟩

/-- A pass touches the generated file, the manifest and their temporary files at most. -/
theorem confined_runWith (checksum : Checksum) (t : FileTree)
    (hout : IsEntryName options.outputFile) (hcache : IsEntryName options.cacheFile) :
    Confined (PassPlaces t options folder) t (runWith checksum options folder t).2 := by
  unfold runWith
  split
  · exact Confined.refl _ t
  · exact (writeStep_write t hout hcache _).confined

/-! ## Reading afterwards -/

theorem name_of_confined {places : Place → Prop} (h : Confined places t t')
    (hdir : t.folderAt folder.path = .ok dir) :
    (FolderState.read t' folder options).name = (FolderState.read t folder options).name := by
  show ((t'.canonical? folder.path).bind _) = ((t.canonical? folder.path).bind _)
  unfold canonical?
  rw [h.entryAt_folder hdir]

/-- No source stands at a place that a pass touches. -/
theorem not_passPlaces_of_source (hfits : options.Fits folder) {p : Path}
    (hp : p ∈ folder.sources) (hn : IsEntryName name) (hname : p.LeadsAlike (folder.path.child name))
    (hdir : t.folderAt folder.path = .ok dir) : ¬ PassPlaces t options folder (dir ++ [name]) := by
  have hmem : name ∈ folder.sources.filterMap Path.fileName? :=
    List.mem_filterMap.mpr ⟨p, hp, hname.fileName?_eq hn⟩
  have hapart := (List.nodup_append.mp hfits.apart).2.2
  have hother : ∀ other ∈ [options.outputFile, temporaryName options.outputFile,
      options.cacheFile, temporaryName options.cacheFile],
      ∀ dir', t.folderAt folder.path = .ok dir' → dir ++ [name] ≠ dir' ++ [other] := by
    intro other hmem' dir' hdir' heq
    rw [Except.ok.inj (hdir.symm.trans hdir')] at heq
    exact hapart other hmem' name hmem (List.cons.inj (List.append_cancel_left heq)).1.symm
  rintro (⟨dir', hdir', heq | heq⟩ | ⟨dir', hdir', heq | heq⟩)
  · exact hother options.outputFile (by simp) dir' hdir' heq
  · exact hother (temporaryName options.outputFile) (by simp) dir' hdir' heq
  · exact hother options.cacheFile (by simp) dir' hdir' heq
  · exact hother (temporaryName options.cacheFile) (by simp) dir' hdir' heq

theorem sources_of_confined (hfits : options.Fits folder)
    (h : Confined (PassPlaces t options folder) t t') (hdir : t.folderAt folder.path = .ok dir) :
    (FolderState.read t' folder options).sources = (FolderState.read t folder options).sources := by
  refine List.map_congr_left fun p hp => ?_
  obtain ⟨name, hn, hname⟩ := hfits.sources p hp
  rw [h.readText_of_leadsAlike hn hname hdir (not_passPlaces_of_source hfits hp hn hname hdir)]

/-- What passes touch has no part in what a pass generates. -/
theorem made_of_confined (hfits : options.Fits folder)
    (h : Confined (PassPlaces t options folder) t t') (hdir : t.folderAt folder.path = .ok dir)
    (runtime : ImportEntry) (previous : Option String) :
    Generation.made runtime (.read t' folder options) previous
      = .made runtime (.read t folder options) previous :=
  Generation.made_congr (sources_of_confined hfits h hdir) (name_of_confined h hdir) runtime previous

theorem manifest_of_readText
    (h : t'.readText (options.cachePath folder) = t.readText (options.cachePath folder)) :
    (FolderState.read t' folder options).manifest = (FolderState.read t folder options).manifest :=
  congrArg (fun read => read.toOption.bind Manifest.parse?) h

/-- The generated file is none of the places of the manifest. -/
theorem not_replacePlaces_of_output (hfits : options.Fits folder) (dir : Place) :
    ¬ ReplacePlaces dir options.cacheFile (dir ++ [options.outputFile]) := by
  have hnodup := hfits.own
  simp only [List.nodup_cons, List.mem_cons, not_or] at hnodup
  rintro (h | h)
  · exact hnodup.1.2.1 (List.cons.inj (List.append_cancel_left h)).1
  · exact hnodup.1.2.2.1 (List.cons.inj (List.append_cancel_left h)).1

/-- The manifest is none of the places of the generated file. -/
theorem not_replacePlaces_of_cache (hown : [options.outputFile, temporaryName options.outputFile,
    options.cacheFile, temporaryName options.cacheFile].Nodup) (dir : Place) :
    ¬ ReplacePlaces dir options.outputFile (dir ++ [options.cacheFile]) := by
  simp only [List.nodup_cons, List.mem_cons, not_or] at hown
  rintro (h | h)
  · exact hown.1.2.1 (List.cons.inj (List.append_cancel_left h)).1.symm
  · exact hown.2.1.1 (List.cons.inj (List.append_cancel_left h)).1.symm

theorem not_filePlaces_of_cache (hown : [options.outputFile, temporaryName options.outputFile,
    options.cacheFile, temporaryName options.cacheFile].Nodup) (hdir : t.folderAt base = .ok dir) :
    ¬ FilePlaces t base options.outputFile (dir ++ [options.cacheFile]) := by
  rintro ⟨dir', hdir', h⟩
  rw [Except.ok.inj (hdir'.symm.trans hdir)] at h
  exact not_replacePlaces_of_cache hown dir h

/-- A file is not its temporary file. -/
theorem not_temporaryPlaces (hdir : t.folderAt base = .ok dir) :
    ¬ TemporaryPlaces t base name (dir ++ [name]) := by
  rintro ⟨dir', hdir', h⟩
  rw [Except.ok.inj (hdir'.symm.trans hdir)] at h
  exact concat_temporaryName_ne dir name h

/-- What reading the generated file gives behind a change. -/
def readBehind (before : Except FileError String) : OutputChange → Except FileError String
  | .keep => before
  | .replace text => .ok text
  | .remove => .error .notFound

theorem readText_of_outputStep {change : OutputChange}
    (hn : IsEntryName name) (h : OutputStep t base name change t')
    (hdir : t.folderAt base = .ok dir) :
    t'.readText (base.child name) = readBehind (t.readText (base.child name)) change := by
  have hdir' := h.confined.folderAt_eq_ok.mpr hdir
  cases h with
  | keep => rfl
  | replace text hcan =>
      rw [readText_child hn hdir', hcan.path, hcan.entry,
        Except.ok.inj (hdir.symm.trans hcan.folder), find?_replaced_self]
      rfl
  | remove hfolder hpath hentry hfind =>
      rw [readText_child hn hdir', hpath, hentry, Except.ok.inj (hdir.symm.trans hfolder),
        find?_erase_self t (concat_ne_nil _ name)]
      rfl
  | absent h => exact h

theorem changeOf_cases (g : Generation) (previous : Option String) :
    (changeOf g previous = .keep ∧ g.text = previous) ∨
    (∃ text, changeOf g previous = .replace text ∧ g.text = some text) ∨
    (changeOf g previous = .remove ∧ g.text = none ∧ previous.isSome) := by
  cases htext : g.text with
  | none =>
      cases previous with
      | none => simp [changeOf, Generation.outcome, htext]
      | some old => simp [changeOf, Generation.outcome, htext]
  | some text =>
      cases previous with
      | none => simp [changeOf, Generation.outcome, htext]
      | some old =>
          by_cases hold : text = old
          · simp [changeOf, Generation.outcome, htext, hold]
          · simp [changeOf, Generation.outcome, htext, hold]

theorem manifest_of_replaced (hcache : IsEntryName options.cacheFile)
    (hcan : t.CanReplace folder.path options.cacheFile dir) {m : Manifest}
    (hversion : m.version = Manifest.currentVersion) :
    (FolderState.read (t.replaced dir options.cacheFile m.text) folder options).manifest
      = some m := by
  have hdir := (confined_replaced hcan m.text).folderAt_eq_ok.mpr hcan.folder
  show (FileTree.readText _ (folder.path.child options.cacheFile)).toOption.bind _ = some m
  rw [readText_child hcache hdir, hcan.path, hcan.entry, find?_replaced_self]
  exact Manifest.parse?_text hversion

theorem previous_of_output {state : FolderState} {text : Option String}
    (hgenerated : ∀ s, text = some s → isGenerated s = true)
    (h : state.output = text.elim (.error .notFound) .ok) : state.previous = .ok text := by
  unfold FolderState.previous
  rw [h]
  cases text with
  | none => rfl
  | some s =>
      show (if isGenerated s = true then _ else _) = _
      rw [if_pos (hgenerated s rfl)]

theorem output_of_previous {state : FolderState} {text : Option String}
    (h : state.previous = .ok text) : state.output = text.elim (.error .notFound) .ok := by
  unfold FolderState.previous at h
  split at h
  · rename_i s hs
    split at h
    · rw [← Except.ok.inj h]
      exact hs
    · cases h
  · rename_i hs
    rw [← Except.ok.inj h]
    exact hs
  · cases h

/-- Behind the change of the generated file the file of the generation is there, whatever becomes
    of the manifest. -/
theorem previous_of_outputStep (hfits : options.Fits folder) {previous : Option String}
    (hprevious : (FolderState.read t folder options).previous = .ok previous)
    {g : Generation} (hgenerated : ∀ s, g.text = some s → isGenerated s = true)
    (hstep : OutputStep t folder.path options.outputFile (changeOf g previous) t')
    (hdir : t.folderAt folder.path = .ok dir) {t'' : FileTree}
    (hbehind : Confined (ReplacePlaces dir options.cacheFile) t' t'') :
    (FolderState.read t'' folder options).previous = .ok g.text := by
  refine previous_of_output hgenerated ?_
  have houtput : (FolderState.read t'' folder options).output
      = t'.readText (folder.path.child options.outputFile) :=
    hbehind.readText_child hfits.output (hstep.confined.folderAt_eq_ok.mpr hdir)
      (not_replacePlaces_of_output hfits dir)
  rw [houtput, readText_of_outputStep hfits.output hstep hdir]
  rcases changeOf_cases g previous with ⟨h, htext⟩ | ⟨text, h, htext⟩ | ⟨h, htext, -⟩
  · rw [h, htext]
    exact output_of_previous hprevious
  · rw [h, htext]
    rfl
  · rw [h, htext]
    rfl

/-- What the next pass reads when a plan has been written: the same sources and name, the file of
    the generation, and its manifest. -/
theorem read_of_write (hfits : options.Fits folder) {previous : Option String}
    (hprevious : (FolderState.read t folder options).previous = .ok previous)
    {g : Generation} (hgenerated : ∀ s, g.text = some s → isGenerated s = true)
    (hstep : OutputStep t folder.path options.outputFile (changeOf g previous) t')
    (hcan : t'.CanReplace folder.path options.cacheFile dir) {m : Manifest}
    (hversion : m.version = Manifest.currentVersion) :
    let before := FolderState.read t folder options
    let after := FolderState.read (t'.replaced dir options.cacheFile m.text) folder options
    after.sources = before.sources ∧ after.name = before.name ∧ after.previous = .ok g.text ∧
      after.manifest = some m := by
  have hdir : t.folderAt folder.path = .ok dir := hstep.confined.folderAt_eq_ok.mp hcan.folder
  have hreplaced := confined_replaced hcan m.text
  have hconfined : Confined (PassPlaces t options folder) t
      (t'.replaced dir options.cacheFile m.text) :=
    (hstep.confined.mono fun _ => Or.inl).trans
      (hreplaced.mono fun _ hp => Or.inr ⟨dir, hdir, hp⟩)
  exact ⟨sources_of_confined hfits hconfined hdir, name_of_confined hconfined hdir,
    previous_of_outputStep hfits hprevious hgenerated hstep hdir hreplaced,
    manifest_of_replaced hfits.cache hcan hversion⟩

/-! ## A whole pass -/

/-- Without a manifest that counts there is something to do. -/
theorem not_upToDate_of_recorded {state : FolderState} (h : recorded options state = none)
    (previous : Option String) : isUpToDate checksum options state previous = false := by
  refine Bool.eq_false_iff.mpr fun hcurrent => ?_
  obtain ⟨-, -, -, m, hm, -⟩ := isUpToDate_iff.mp hcurrent
  cases h.symm.trans hm

theorem not_upToDate_of_force (checksum : Checksum) (hforce : options.force = true)
    (state : FolderState) (previous : Option String) :
    isUpToDate checksum options state previous = false :=
  not_upToDate_of_recorded (if_pos hforce) previous

theorem not_upToDate_of_manifest (checksum : Checksum) (options : PassOptions)
    {state : FolderState} (hmanifest : state.manifest = none) (previous : Option String) :
    isUpToDate checksum options state previous = false := by
  refine not_upToDate_of_recorded ?_ previous
  rw [recorded, hmanifest, ite_self]

/-- Whether a pass finds everything as its manifest says. -/
def isHit (checksum : Checksum) (options : PassOptions) (folder : PackageFolder) (t : FileTree) :
    Bool :=
  match (FolderState.read t folder options).previous with
  | .ok previous => isUpToDate checksum options (.read t folder options) previous
  | .error _ => false

theorem isHit_of_previous {previous : Option String}
    (h : (FolderState.read t folder options).previous = .ok previous) :
    isHit checksum options folder t
      = isUpToDate checksum options (.read t folder options) previous := by
  unfold isHit
  rw [h]

theorem runWith_of_settled {report : FolderReport}
    (h : PassDecision.ofState checksum options folder (.read t folder options)
      = .settled report) : runWith checksum options folder t = (report, t) := by
  unfold runWith
  rw [h]

theorem runWith_of_decision {plan : PassPlan}
    (h : PassDecision.ofState checksum options folder (.read t folder options) = .write plan) :
    runWith checksum options folder t = write t options folder plan := by
  unfold runWith
  rw [h]

/-- A generated file that must not be touched ends the pass. -/
theorem runWith_of_error {reason : String}
    (h : (FolderState.read t folder options).previous = .error reason) :
    runWith checksum options folder t
      = (FolderReport.withInternal
          { folder := folder.path, issues := (FolderState.read t folder options).readIssues }
          (options.outputPath folder) reason, t) :=
  runWith_of_settled (PassDecision.ofState_of_error h)

theorem runWith_of_upToDate {previous : Option String}
    (hprevious : (FolderState.read t folder options).previous = .ok previous)
    (h : isUpToDate checksum options (.read t folder options) previous = true) :
    runWith checksum options folder t
      = ({ folder := folder.path
           services := recordedServices (recorded options (.read t folder options)) }, t) :=
  runWith_of_settled (PassDecision.ofState_of_upToDate hprevious h)

theorem runWith_of_not_upToDate (hdry : options.dryRun = false) {previous : Option String}
    (hprevious : (FolderState.read t folder options).previous = .ok previous)
    (h : isUpToDate checksum options (.read t folder options) previous = false) :
    runWith checksum options folder t
      = write t options folder (ofGeneration checksum folder (.read t folder options) previous
          (.made options.runtime (.read t folder options) previous)) := by
  refine runWith_of_decision ?_
  rw [PassDecision.ofState_of_not_upToDate hprevious h, hdry, if_neg Bool.false_ne_true]

/-- A dry pass with something to do reports what it generates. -/
theorem runWith_of_dry (hdry : options.dryRun = true) {previous : Option String}
    (hprevious : (FolderState.read t folder options).previous = .ok previous)
    (h : isUpToDate checksum options (.read t folder options) previous = false) :
    runWith checksum options folder t
      = ((ofGeneration checksum folder (.read t folder options) previous
          (.made options.runtime (.read t folder options) previous)).report, t) := by
  refine runWith_of_settled ?_
  rw [PassDecision.ofState_of_not_upToDate hprevious h, hdry, if_pos rfl]

/-- A pass leaves the tree as it is, or it writes what it generates. -/
theorem runWith_writes (checksum : Checksum) (t : FileTree) (hout : IsEntryName options.outputFile)
    (hcache : IsEntryName options.cacheFile) (hdry : options.dryRun = false) :
    let state := FolderState.read t folder options
    (runWith checksum options folder t).2 = t ∨
    ∃ previous, state.previous = .ok previous ∧
      isUpToDate checksum options state previous = false ∧
      WriteStep t options folder
        (ofGeneration checksum folder state previous (.made options.runtime state previous))
        (runWith checksum options folder t) := by
  intro state
  cases hprevious : FolderState.previous (.read t folder options) with
  | error reason =>
      refine Or.inl ?_
      rw [runWith_of_error hprevious]
  | ok previous =>
      cases hcurrent : isUpToDate checksum options (.read t folder options) previous with
      | true =>
          refine Or.inl ?_
          rw [runWith_of_upToDate hprevious hcurrent]
      | false =>
          refine Or.inr ⟨previous, rfl, hcurrent, ?_⟩
          rw [runWith_of_not_upToDate hdry hprevious hcurrent]
          exact writeStep_write t hout hcache _

/-- Writing a plan reports what the plan says, or one failure more. -/
theorem report_write (t : FileTree) (options : PassOptions) (folder : PackageFolder)
    (plan : PassPlan) : (write t options folder plan).1 = plan.report ∨
      ∃ path error, (write t options folder plan).1 = plan.report.withInternal path error := by
  unfold write
  dsimp only
  split
  · exact Or.inr ⟨_, _, rfl⟩
  · split
    · exact Or.inr ⟨_, _, rfl⟩
    · exact Or.inl rfl

/-- A pass with something to do that reports no failure reports what it generates, dry or not. -/
theorem report_of_not_isHit (hmiss : isHit checksum options folder t = false)
    (hok : ∀ i ∈ (runWith checksum options folder t).1.issues, i.isInternal = false) :
    ∃ previous, (runWith checksum options folder t).1
      = (ofGeneration checksum folder (.read t folder options) previous
          (.made options.runtime (.read t folder options) previous)).report := by
  have hnone : ¬ ∃ i ∈ (runWith checksum options folder t).1.issues, i.isInternal = true := by
    rintro ⟨i, hi, hinternal⟩
    exact nomatch (hok i hi).symm.trans hinternal
  cases hprevious : FolderState.previous (.read t folder options) with
  | error reason =>
      rw [runWith_of_error hprevious] at hnone
      exact absurd (FolderReport.internal_withInternal _ _ _) hnone
  | ok previous =>
      rw [isHit_of_previous hprevious] at hmiss
      refine ⟨previous, ?_⟩
      cases hdry : options.dryRun with
      | true => rw [runWith_of_dry hdry hprevious hmiss]
      | false =>
          rw [runWith_of_not_upToDate hdry hprevious hmiss] at hnone ⊢
          rcases report_write t options folder _ with hreport | ⟨path, error, hreport⟩
          · exact hreport
          · rw [hreport] at hnone
            exact absurd (FolderReport.internal_withInternal _ _ _) hnone

/-- The three ways a pass that writes can go: a failure is reported, there is nothing to do, or
    everything is generated and written. -/
theorem runWith_cases (checksum : Checksum) (t : FileTree) (hout : IsEntryName options.outputFile)
    (hcache : IsEntryName options.cacheFile) (hdry : options.dryRun = false) :
    let state := FolderState.read t folder options
    (∃ i ∈ (runWith checksum options folder t).1.issues, i.isInternal = true) ∨
    (∃ previous, state.previous = .ok previous ∧
      isUpToDate checksum options state previous = true ∧
      runWith checksum options folder t =
        ({ folder := folder.path, services := recordedServices (recorded options state) }, t)) ∨
    ∃ previous t' dir, state.previous = .ok previous ∧
      isUpToDate checksum options state previous = false ∧
      OutputStep t folder.path options.outputFile
        (changeOf (.made options.runtime state previous) previous) t' ∧
      t'.CanReplace folder.path options.cacheFile dir ∧
      runWith checksum options folder t =
        ((ofGeneration checksum folder state previous (.made options.runtime state previous)).report,
          t'.replaced dir options.cacheFile
            (manifestOf checksum state (.made options.runtime state previous)).text) := by
  intro state
  cases hprevious : FolderState.previous (.read t folder options) with
  | error reason =>
      -- what stands in the place of the generated file is not to be replaced
      rw [runWith_of_error hprevious]
      exact Or.inl (FolderReport.internal_withInternal _ _ _)
  | ok previous =>
      cases hcurrent : isUpToDate checksum options (.read t folder options) previous with
      | true =>
          exact Or.inr (Or.inl ⟨previous, rfl, hcurrent,
            runWith_of_upToDate hprevious hcurrent⟩)
      | false =>
          rw [runWith_of_not_upToDate hdry hprevious hcurrent]
          have hwrite : WriteStep t options folder _ _ := writeStep_write t hout hcache
            (ofGeneration checksum folder (.read t folder options) previous
              (.made options.runtime (.read t folder options) previous))
          generalize write t options folder _ = result at hwrite
          cases hwrite with
          | outputFailed path error _ => exact Or.inl (FolderReport.internal_withInternal _ _ _)
          | manifestFailed path error _ _ => exact Or.inl (FolderReport.internal_withInternal _ _ _)
          | written hstep hcan =>
              exact Or.inr (Or.inr ⟨previous, _, _, rfl, hcurrent, hstep, hcan, rfl⟩)

end FolderPass

/-! ## A folder with one source -/

/-- Options as they are without any settings. -/
def sampleOptions : PassOptions where
  outputFile := "zz_wiregen.go"
  cacheFile := ".wiregen-cache.json"
  runtime := .conventional "example.com/wire"

/-- A folder with one source. -/
def sampleFolder : PackageFolder :=
  ⟨⟨"svc"⟩, [⟨"svc/a.go"⟩]⟩

/-- The tree of the folder with the given source. -/
def sampleTree (source : String) : FileTree where
  entries := [(["svc"], .directory), (["svc", "a.go"], .file (.text source))]

theorem fits_sample : sampleOptions.Fits sampleFolder := by
  refine ⟨by decide, by decide, ?_, by decide +kernel⟩
  intro p hp
  rw [List.mem_singleton.mp hp]
  exact ⟨"a.go", by decide, by decide⟩

end ServiceWiring
