import ServiceWiring.Proofs.Interruption
import ServiceWiring.Proofs.Rerun

/-!
# What writing leaves in place of the generated file

Writing a plan changes the generated file first and replaces the manifest behind it.  The second
step is beside the generated file, and of the changes only one can fail: a file that has just been
read can always be taken away, but it can be replaced only where its temporary file can be written.
So behind a pass stands the file of the generation, or the old one where it cannot be replaced.

* `PassOptions.Separate` — options whose manifest does not get in the way of the generated file;
* `FileTree.removeIfPresent_of_readText` — a file that can be read can be removed;
* `FileTree.entryAt_of_readText` — what a path leads to, from what reading it gives;
* `FolderPass.readText_output_of_made`, `FolderPass.entryAt_cache_of_changed` — the two files behind
  a change that succeeds;
* `FolderPass.written_or_blocked` — what stands in place of the generated file behind a pass;
* `FolderPass.Regenerates`, `FolderPass.regenerates_of_miss` — all that a pass has done that had
  something to do and reports no failure.
-/

namespace ServiceWiring

/-- Options whose generated file and manifest are files of a folder, and where neither the manifest
    nor its temporary file is the generated file. -/
structure PassOptions.Separate (options : PassOptions) : Prop where
  output : IsEntryName options.outputFile
  cache : IsEntryName options.cacheFile
  apart : options.outputFile ≠ options.cacheFile
  temporary : options.outputFile ≠ temporaryName options.cacheFile

theorem PassOptions.Fits.separate {options : PassOptions} {folder : PackageFolder}
    (h : options.Fits folder) : options.Separate := by
  have hown := h.own
  simp only [List.nodup_cons, List.mem_cons, not_or] at hown
  exact ⟨h.output, h.cache, hown.1.2.1, hown.1.2.2.1⟩

/-- The generated file is none of the places of the manifest. -/
theorem PassOptions.Separate.not_replacePlaces {options : PassOptions} (h : options.Separate)
    (dir : Place) :
    ¬ FileTree.ReplacePlaces dir options.cacheFile (dir ++ [options.outputFile]) := by
  rintro (heq | heq)
  · exact h.apart (List.cons.inj (List.append_cancel_left heq)).1
  · exact h.temporary (List.cons.inj (List.append_cancel_left heq)).1

namespace FileTree

variable {t t' : FileTree} {base : Path} {name : String} {dir : Place}

/-! ## Files that have been read -/

/-- A file that can be read can be removed. -/
theorem removeIfPresent_of_readText (hn : IsEntryName name) {text : String}
    (h : t.readText (base.child name) = .ok text) :
    ∃ dir, t.folderAt base = .ok dir ∧
      t.removeIfPresent (base.child name) = (.ok true, t.erase (dir ++ [name])) := by
  obtain ⟨dir, hdir, hfind, hpath, hentry⟩ := find?_of_readText hn h
  have htarget : t.target (base.child name) = .ok (.named dir name false) :=
    (target_child_eq_ok_iff hn).mpr ⟨dir, hdir, hpath, hentry, rfl⟩
  have hexisting : t.existing (.named dir name false) = .ok (dir ++ [name], .text text) := by
    dsimp only [existing]
    rw [hfind]
    rfl
  have hremove : t.perform (.remove (base.child name)) = .ok (t.erase (dir ++ [name])) := by
    rw [perform_remove, htarget]
    show (t.existing _).bind _ = _
    rw [hexisting]
    rfl
  refine ⟨dir, hdir, ?_⟩
  unfold removeIfPresent
  rw [hremove]

theorem readText_of_entryAt {p : Path} {place : Place} {text : String}
    (h : t.entryAt p = .ok (place, .file (.text text))) : t.readText p = .ok text := by
  unfold readText
  rw [h]
  rfl

theorem readText_congr {p : Path} (h : t'.entryAt p = t.entryAt p) :
    t'.readText p = t.readText p := by
  unfold readText
  rw [h]

/-- Files that read the same are the same, or both missing. -/
theorem elim_injective {a b : Option String}
    (h : (a.elim (.error .notFound) .ok : Except FileError String)
      = b.elim (.error .notFound) .ok) : a = b := by
  cases a with
  | none =>
      cases b with
      | none => rfl
      | some text => cases h
  | some text =>
      cases b with
      | none => cases h
      | some other => rw [Except.ok.inj h]

/-- What the path of a file leads to, from what reading it gives. -/
theorem entryAt_of_readText (hn : IsEntryName name) (hdir : t.folderAt base = .ok dir)
    {text : Option String} (h : t.readText (base.child name) = text.elim (.error .notFound) .ok) :
    t.entryAt (base.child name)
      = text.elim (.error .notFound) fun s => .ok (dir ++ [name], .file (.text s)) := by
  cases text with
  | some s =>
      obtain ⟨dir', hdir', hfind, hpath, hentry⟩ := find?_of_readText hn h
      have htarget : t.target (base.child name) = .ok (.named dir name false) :=
        (target_child_eq_ok_iff hn).mpr ⟨dir, hdir, hpath, hentry, rfl⟩
      rw [Except.ok.inj (hdir'.symm.trans hdir)] at hfind
      unfold entryAt
      rw [htarget]
      simp only [bind, Except.bind, pure, Except.pure, hfind]
      rfl
  | none =>
      change (t.entryAt (base.child name)).bind _ = .error .notFound at h
      cases hentry : t.entryAt (base.child name) with
      | error e =>
          rw [hentry] at h
          rw [Except.error.inj h]
          rfl
      | ok found =>
          -- whatever is there reads as a text or fails in another way
          rw [hentry] at h
          obtain ⟨place, entry⟩ := found
          cases entry with
          | directory => cases h
          | file content =>
              cases content with
              | bytes data => cases h
              | text s => cases h

end FileTree

namespace FolderPass

open FileTree PassPlan

variable {t t' : FileTree} {options : PassOptions} {folder : PackageFolder} {plan : PassPlan}
  {dir : Place}

/-! ## Behind a plan -/

/-- Replacing the manifest leaves the generated file as it is. -/
theorem readText_output_of_changed (hsep : options.Separate)
    (hdir : t.folderAt folder.path = .ok dir)
    (hchange : changeOutput t (options.outputPath folder) plan.output = (.ok (), t')) :
    (write t options folder plan).2.readText (options.outputPath folder)
      = t'.readText (options.outputPath folder) := by
  have hdir' : t'.folderAt folder.path = .ok dir :=
    (outputStep_of_changeOutput hsep.output hchange).confined.folderAt_eq_ok.mpr hdir
  rw [write_of_changed hchange]
  refine (confined_replaceFile t' folder.path hsep.cache _).readText_child hsep.output hdir' ?_
  rintro ⟨found, hfound, hplace⟩
  rw [Except.ok.inj (hfound.symm.trans hdir')] at hplace
  exact hsep.not_replacePlaces dir hplace

/-- Behind a change that succeeds the manifest is in its place if it can be put there, whatever else
    was there. -/
theorem entryAt_cache_of_changed (hout : IsEntryName options.outputFile)
    (hcache : IsEntryName options.cacheFile)
    (hchange : changeOutput t (options.outputPath folder) plan.output = (.ok (), t'))
    (hcan : t.CanReplace folder.path options.cacheFile dir) :
    (write t options folder plan).2.entryAt (options.cachePath folder)
      = .ok (dir ++ [options.cacheFile], .file (.text plan.manifest.text)) := by
  have hcan' := hcan.of_confined (outputStep_of_changeOutput hout hchange).confined
  have hfolder := (confined_replaced hcan' plan.manifest.text).folderAt_eq_ok.mpr hcan'.folder
  rw [write_of_changed hchange]
  show (t'.replaceFile (folder.path.child options.cacheFile) _).2.entryAt
    (folder.path.child options.cacheFile) = _
  rw [replaceFile_of_canReplace hcache hcan', entryAt_replaced hcache hcan' hfolder]

/-- Where the change of the generated file fails, it is as it was. -/
theorem readText_output_of_failed (hout : IsEntryName options.outputFile)
    (hdir : t.folderAt folder.path = .ok dir)
    (hfailed : ∀ t', changeOutput t (options.outputPath folder) plan.output ≠ (.ok (), t')) :
    (write t options folder plan).2.readText (options.outputPath folder)
      = t.readText (options.outputPath folder) := by
  rcases changeOutput_cases t folder.path hout plan.output with
    ⟨failure, t', hchange, hc⟩ | ⟨t', hchange, -⟩
  · have hwrite : (write t options folder plan).2 = t' := by
      unfold write
      dsimp only [PassOptions.outputPath]
      rw [hchange]
    rw [hwrite]
    exact hc.readText_child hout hdir (not_temporaryPlaces hdir)
  · exact absurd hchange (hfailed t')

/-- The generated file can be changed as a generation asks, if it can be replaced where it is to
    be: a file that is to go has just been read. -/
theorem exists_changeOutput (hout : IsEntryName options.outputFile) {previous : Option String}
    (hprevious : (FolderState.read t folder options).previous = .ok previous) {g : Generation}
    (hcan : g.text.isSome = true → g.text ≠ previous →
      t.CanReplace folder.path options.outputFile dir) :
    ∃ t', changeOutput t (options.outputPath folder) (changeOf g previous) = (.ok (), t') := by
  rcases changeOf_cases g previous with ⟨hkeep, -⟩ | ⟨text, hreplace, htext⟩ |
    ⟨hremove, -, hsome⟩
  · rw [hkeep]
    exact ⟨t, rfl⟩
  · have hne : g.text ≠ previous := by
      intro hsame
      rw [changeOf_eq_keep hsame] at hreplace
      cases hreplace
    have hcan' := hcan (by rw [htext]; rfl) hne
    rw [hreplace]
    exact ⟨_, replaceFile_of_canReplace hout hcan' text⟩
  · obtain ⟨old, rfl⟩ := Option.isSome_iff_exists.mp hsome
    obtain ⟨dir', -, hremoved⟩ := removeIfPresent_of_readText hout (output_of_previous hprevious)
    refine ⟨t.erase (dir' ++ [options.outputFile]), ?_⟩
    rw [hremove]
    show (Except.map _ (t.removeIfPresent _).1, (t.removeIfPresent _).2) = _
    rw [show t.removeIfPresent (options.outputPath folder) = _ from hremoved]
    rfl

theorem readBehind_changeOf (g : Generation) (previous : Option String) :
    readBehind (previous.elim (.error .notFound) .ok) (changeOf g previous)
      = g.text.elim (.error .notFound) .ok := by
  rcases changeOf_cases g previous with ⟨hkeep, htext⟩ | ⟨text, hreplace, htext⟩ |
    ⟨hremove, htext, -⟩
  · rw [hkeep, htext]
    rfl
  · rw [hreplace, htext]
    rfl
  · rw [hremove, htext]
    rfl

/-- Behind a change that succeeds stands the file of the generation. -/
theorem readText_output_of_made (hsep : options.Separate)
    (hdir : t.folderAt folder.path = .ok dir) {previous : Option String}
    (hprevious : (FolderState.read t folder options).previous = .ok previous) {g : Generation}
    (hplan : plan.output = changeOf g previous)
    (hchange : changeOutput t (options.outputPath folder) plan.output = (.ok (), t')) :
    (write t options folder plan).2.readText (options.outputPath folder)
      = g.text.elim (.error .notFound) .ok := by
  have hstep := outputStep_of_changeOutput hsep.output hchange
  have hread : t.readText (folder.path.child options.outputFile)
      = previous.elim (.error .notFound) .ok := output_of_previous hprevious
  rw [readText_output_of_changed hsep hdir hchange]
  show t'.readText (folder.path.child options.outputFile) = _
  rw [readText_of_outputStep hsep.output hstep hdir, hread, hplan, readBehind_changeOf]

/-- Behind a pass stands the file of the generation, or the one before where a file is to be
    replaced and cannot be. -/
theorem written_or_blocked (hsep : options.Separate) (hdir : t.folderAt folder.path = .ok dir)
    {previous : Option String}
    (hprevious : (FolderState.read t folder options).previous = .ok previous) {g : Generation}
    (hplan : plan.output = changeOf g previous) :
    let behind := (write t options folder plan).2.readText (options.outputPath folder)
    (behind = g.text.elim (.error .notFound) .ok ∧
      (g.text.isSome = true → g.text ≠ previous →
        t.CanReplace folder.path options.outputFile dir)) ∨
    (behind = previous.elim (.error .notFound) .ok ∧ g.text.isSome = true ∧ g.text ≠ previous ∧
      ¬ t.CanReplace folder.path options.outputFile dir) := by
  intro behind
  by_cases hcan : g.text.isSome = true → g.text ≠ previous →
      t.CanReplace folder.path options.outputFile dir
  · obtain ⟨t', hchange⟩ := exists_changeOutput hsep.output hprevious hcan
    rw [← hplan] at hchange
    exact Or.inl ⟨readText_output_of_made hsep hdir hprevious hplan hchange, hcan⟩
  · simp only [Classical.not_imp] at hcan
    obtain ⟨hsome, hne, hblocked⟩ := hcan
    refine Or.inr ⟨?_, hsome, hne, hblocked⟩
    have hread : t.readText (options.outputPath folder) = previous.elim (.error .notFound) .ok :=
      output_of_previous hprevious
    rw [← hread]
    refine readText_output_of_failed hsep.output hdir ?_
    -- a change that succeeds would have replaced the file
    intro t' hchange
    have hstep := outputStep_of_changeOutput hsep.output hchange
    rcases changeOf_cases g previous with ⟨-, hsame⟩ | ⟨text, hreplace, -⟩ | ⟨-, hnone, -⟩
    · exact hne hsame
    · rw [hplan, hreplace] at hstep
      cases hstep with
      | replace _ hcan' =>
          rw [Except.ok.inj (hdir.symm.trans hcan'.folder)] at hblocked
          exact hblocked hcan'
    · rw [hnone] at hsome
      cases hsome

/-! ## Behind a pass that generates anew -/

/-- What a pass has done that generated anew and wrote everything: from the file `previous` it made
    the generated file and the manifest that are there now, and it could write what it wrote. -/
structure Regenerates (checksum : Checksum) (options : PassOptions) (folder : PackageFolder)
    (t : FileTree) (previous : Option String) (dir : Place) (g : Generation) : Prop where
  found : (FolderState.read t folder options).previous = .ok previous
  made : g = .made options.runtime (.read t folder options) previous
  report : (runWith checksum options folder t).1
    = (ofGeneration checksum folder (.read t folder options) previous g).report
  inside : (runWith checksum options folder t).2.folderAt folder.path = .ok dir
  sources : (FolderState.read (runWith checksum options folder t).2 folder options).sources
    = (FolderState.read t folder options).sources
  name : (FolderState.read (runWith checksum options folder t).2 folder options).name
    = (FolderState.read t folder options).name
  output : (FolderState.read (runWith checksum options folder t).2 folder options).previous
    = .ok g.text
  manifest : (runWith checksum options folder t).2.entryAt (options.cachePath folder)
    = .ok (dir ++ [options.cacheFile],
        .file (.text (manifestOf checksum (.read t folder options) g).text))
  recorded : (FolderState.read (runWith checksum options folder t).2 folder options).manifest
    = some (manifestOf checksum (.read t folder options) g)
  replaceManifest :
    (runWith checksum options folder t).2.CanReplace folder.path options.cacheFile dir
  replaceOutput : g.text.isSome = true → g.text ≠ previous →
    (runWith checksum options folder t).2.CanReplace folder.path options.outputFile dir

/-- A pass with something to do that reports no failure has done all of it. -/
theorem regenerates_of_miss {checksum : Checksum} (hfits : options.Fits folder)
    (hdry : options.dryRun = false) (hmiss : isHit checksum options folder t = false)
    (hok : ∀ i ∈ (runWith checksum options folder t).1.issues, i.isInternal = false) :
    ∃ previous dir g, Regenerates checksum options folder t previous dir g := by
  rcases runWith_cases checksum t hfits.output hfits.cache hdry with
    ⟨i, hi, hinternal⟩ | ⟨previous, hprevious, hcurrent, -⟩ |
      ⟨previous, t', dir, hprevious, -, hstep, hcan, hrun⟩
  · exact nomatch (hok i hi).symm.trans hinternal
  · rw [isHit_of_previous hprevious] at hmiss
    exact nomatch hcurrent.symm.trans hmiss
  · generalize hg : Generation.made options.runtime (.read t folder options) previous = g at *
    have hgenerated : ∀ s, g.text = some s → isGenerated s = true := by
      intro s hs
      rw [← hg] at hs
      exact Generation.isGenerated_of_text hs
    obtain ⟨hsources, hname, hafter, hmanifest⟩ := read_of_write hfits hprevious hgenerated hstep
      hcan (manifestOf_version checksum _ g)
    have hreplaced := confined_replaced hcan (manifestOf checksum (.read t folder options) g).text
    have hreport := congrArg Prod.fst hrun
    have hleft := congrArg Prod.snd hrun
    dsimp only at hreport hleft
    rw [← hleft] at hsources hname hafter hmanifest hreplaced
    have hinside := hreplaced.folderAt_eq_ok.mpr hcan.folder
    refine ⟨previous, dir, g, hprevious, hg.symm, hreport, hinside, hsources, hname, hafter, ?_,
      hmanifest, hcan.of_confined hreplaced, ?_⟩
    · rw [hleft] at hinside ⊢
      exact entryAt_replaced hfits.cache hcan hinside
    · intro hsome hne
      rcases changeOf_cases g previous with ⟨-, hsame⟩ | ⟨text, hreplace, -⟩ | ⟨-, hnone, -⟩
      · exact absurd hsame hne
      · -- the file that was replaced could be, and can be again
        have hconfined := hstep.confined
        rw [hreplace] at hstep
        cases hstep with
        | replace _ hcan' =>
            have hagain := (hcan'.of_confined hconfined).of_confined hreplaced
            rwa [Except.ok.inj (hagain.folder.symm.trans hinside)] at hagain
      · rw [hnone] at hsome
        cases hsome

end FolderPass

end ServiceWiring
