import ServiceWiring.Proofs.OptionChange

/-!
# Repairing the generated state

Behind a pass that has written everything the generated file is changed by hand, or the manifest is
lost, or both.  The manifest speaks for the file that the pass made, so the next pass notices a
change; and it makes the same file again, because of the file that is there only the preserved
blocks count.  Two things stand in the way: code that opens a block itself, which is then read back
with a block that it was not made with; and a file that the pass did not have to write, and that
cannot be written.

* `Generation.made_again` — the same file is made again from its blocks;
* `FolderPass.Clean`, `FolderPass.Tampered`, `FolderPass.Restores` — passes that have written
  everything, changes of the two files, and passes that undo them;
* `FolderPass.restores_of_hit`, `FolderPass.restores_of_miss` — the next pass, without anything to
  do and with something;
* `FolderPass.restores_of_tampered` — the next pass restores both files;
* `FolderPass.overwritten`, `FolderPass.behind_overwritten` — another file and no manifest, and what
  the next pass makes of them;
* `FolderPass.notRestored_of_tampered` — changes that stay.
-/

namespace ServiceWiring

open Text

/-! ## Making a file again -/

namespace Generation

variable {runtime : ImportEntry} {state : FolderState} {previous previous' : Option String}

/-- The lines of the blocks that a file was made with are lines of the file. -/
theorem smooth_of_text {text : String} (h : (made runtime state previous).text = some text)
    (htext : '\r' ∉ text.toList) : ∀ b ∈ FolderState.blocksOf previous, b.Smooth := by
  intro b hb l hl hlast
  change state.textWith runtime (FolderState.blocksOf previous) = some text at h
  unfold FolderState.textWith at h
  split at h
  · cases h
  · rw [← Option.some.inj h] at htext
    refine htext ((mem_unlines_iff (by decide)).mpr ⟨l, ?_, List.mem_of_getLast? hlast⟩)
    rw [Emission.fileLines_eq_append]
    refine List.mem_append_right _ (List.mem_flatMap.mpr ⟨b, hb, List.mem_cons_of_mem _ ?_⟩)
    exact List.mem_append_left _ (List.mem_cons_of_mem _ hl)

/-- From a file with the same blocks the same is made again. -/
theorem made_again (hruntime : runtime.Unmarked)
    (hpackage : OneLine (packageName state.files state.name))
    (hreturn : ∀ text, (made runtime state previous).text = some text → '\r' ∉ text.toList)
    (hblocks : ∀ text, (made runtime state previous).text = some text →
      FolderState.blocksOf previous' = PreservedBlock.extract text) :
    made runtime state previous' = made runtime state previous := by
  cases htext : (made runtime state previous).text with
  | some text =>
      refine made_of_blocksOf ?_ runtime state
      rw [hblocks text htext]
      exact extract_text hruntime hpackage (smooth_of_text htext (hreturn text htext)) htext
  | none =>
      -- without services there is no file, whatever was there
      have hsome := text_isSome_of_previous runtime state previous' previous
      rw [htext] at hsome
      have hnone : (made runtime state previous').text = none := by
        cases h : (made runtime state previous').text with
        | none => rfl
        | some text =>
            rw [h] at hsome
            cases hsome
      have hmk : ∀ g g' : Generation, g.issues = g'.issues → g.services = g'.services →
          g.text = g'.text → g = g' := by
        rintro ⟨_, _, _⟩ ⟨_, _, _⟩ rfl rfl rfl
        rfl
      exact hmk _ _ rfl rfl (hnone.trans htext.symm)

end Generation

namespace FolderPass

open FileTree PassPlan

variable {t t' : FileTree} {checksum : Checksum} {options : PassOptions} {folder : PackageFolder}
  {dir : Place}

/-! ## Passes and changes -/

/-- A pass that generated, reported no error and wrote what it generated, under names that do not
    get in each other's way and are on one line each, with a file without carriage returns. -/
structure Clean (checksum : Checksum) (options : PassOptions) (folder : PackageFolder)
    (t : FileTree) : Prop where
  fits : options.Fits folder
  real : options.dryRun = false
  miss : isHit checksum options folder t = false
  sound : (runWith checksum options folder t).1.hasErrors = false
  path : Unbroken options.runtime.path.toList
  name : Unbroken options.runtime.name.toList
  package : OneLine (Generation.packageName (FolderState.read t folder options).files
    (FolderState.read t folder options).name)
  returns : ∀ text, (runWith checksum options folder t).2.readText (options.outputPath folder)
    = .ok text → '\r' ∉ text.toList

theorem regenerates_of_sound (hfits : options.Fits folder) (hdry : options.dryRun = false)
    (hmiss : isHit checksum options folder t = false)
    (hsound : (runWith checksum options folder t).1.hasErrors = false) :
    ∃ previous dir g, Regenerates checksum options folder t previous dir g := by
  refine regenerates_of_miss hfits hdry hmiss ?_
  intro i hi
  have herror := List.any_eq_false.mp hsound i hi
  cases i with
  | internal file error => exact absurd rfl herror
  | _ => rfl

/-- The generated file and the manifest of a folder. -/
def StateFiles (t : FileTree) (options : PassOptions) (folder : PackageFolder) (place : Place) :
    Prop :=
  ∃ dir, t.folderAt folder.path = .ok dir ∧
    (place = dir ++ [options.outputFile] ∨ place = dir ++ [options.cacheFile])

/-- A change of the generated file and the manifest.  The file is a generated one or none, with the
    blocks of the file before if there was one; and the manifest stays or is no sound one. -/
structure Tampered (options : PassOptions) (folder : PackageFolder) (t t' : FileTree) : Prop where
  confined : Confined (StateFiles t options folder) t t'
  output : ∃ previous, (FolderState.read t' folder options).previous = .ok previous ∧
    ∀ old, t.readText (options.outputPath folder) = .ok old →
      FolderState.blocksOf previous = PreservedBlock.extract old
  manifest : t'.readText (options.cachePath folder) = t.readText (options.cachePath folder) ∨
    (FolderState.read t' folder options).manifest = none

/-- A pass over the second tree leaves both files as they are in the first. -/
def Restores (checksum : Checksum) (options : PassOptions) (folder : PackageFolder)
    (t t' : FileTree) : Prop :=
  let next := (runWith checksum { options with force := false } folder t').2
  next.entryAt (options.outputPath folder) = t.entryAt (options.outputPath folder) ∧
    next.entryAt (options.cachePath folder) = t.entryAt (options.cachePath folder)

theorem StateFiles.passPlaces {place : Place} (h : StateFiles t options folder place) :
    PassPlaces t options folder place := by
  obtain ⟨dir, hdir, hplace | hplace⟩ := h
  · exact Or.inl ⟨dir, hdir, Or.inl hplace⟩
  · exact Or.inr ⟨dir, hdir, Or.inl hplace⟩

/-! ## The next pass -/

section Next

variable {previous previous' : Option String} {g : Generation}

/-- Behind a change of the two files the sources and the name are those that the pass has read. -/
theorem Regenerates.read_of_confined (h : Regenerates checksum options folder t previous dir g)
    (hfits : options.Fits folder)
    (hconfined : Confined (StateFiles (runWith checksum options folder t).2 options folder)
      (runWith checksum options folder t).2 t') :
    (FolderState.read t' folder options).sources = (FolderState.read t folder options).sources ∧
      (FolderState.read t' folder options).name = (FolderState.read t folder options).name := by
  have hplaces := hconfined.mono fun _ => StateFiles.passPlaces
  exact ⟨(sources_of_confined hfits hplaces h.inside).trans h.sources,
    (name_of_confined hplaces h.inside).trans h.name⟩

theorem Regenerates.readText_output (h : Regenerates checksum options folder t previous dir g) :
    (runWith checksum options folder t).2.readText (options.outputPath folder)
      = g.text.elim (.error .notFound) .ok :=
  output_of_previous h.output

/-- Both files are restored where they read as the pass has made them. -/
theorem Regenerates.restores (h : Regenerates checksum options folder t previous dir g)
    (hfits : options.Fits folder) {next : FileTree}
    (hnext : (runWith checksum { options with force := false } folder t').2 = next)
    (hdir : next.folderAt folder.path = .ok dir)
    (houtput : next.readText (options.outputPath folder) = g.text.elim (.error .notFound) .ok)
    (hmanifest : next.readText (options.cachePath folder)
      = .ok (manifestOf checksum (.read t folder options) g).text) :
    Restores checksum options folder (runWith checksum options folder t).2 t' := by
  unfold Restores
  dsimp only
  rw [hnext]
  constructor
  · have hbefore : (runWith checksum options folder t).2.entryAt (options.outputPath folder) = _ :=
      entryAt_of_readText hfits.output h.inside h.readText_output
    rw [hbefore]
    exact entryAt_of_readText hfits.output hdir houtput
  · rw [h.manifest]
    exact @entryAt_of_readText _ _ _ _ hfits.cache hdir (some _) hmanifest

/-- A pass with nothing to do has found both files as they were made. -/
theorem restores_of_hit (hfits : options.Fits folder)
    (hleft : Regenerates checksum options folder t previous dir g)
    (hconfined : Confined (StateFiles (runWith checksum options folder t).2 options folder)
      (runWith checksum options folder t).2 t')
    (hprevious : (FolderState.read t' folder options).previous = .ok previous')
    (hcurrent : isUpToDate checksum { options with force := false } (.read t' folder options)
      previous' = true)
    (hmanifest : t'.readText (options.cachePath folder)
      = (runWith checksum options folder t).2.readText (options.cachePath folder))
    (hsame : previous'.map checksum = g.text.map checksum → previous' = g.text) :
    Restores checksum options folder (runWith checksum options folder t).2 t' := by
  have hrecorded : (FolderState.read t' folder options).manifest
      = some (manifestOf checksum (.read t folder options) g) := by
    rw [← hleft.recorded]
    exact manifest_of_readText hmanifest
  obtain ⟨-, -, -, m, hm, hsum⟩ := isUpToDate_iff.mp hcurrent
  -- the manifest counts, so the file has the checksum of the one that was made
  have hgenerated : previous' = g.text := by
    refine hsame ?_
    rw [← Option.some.inj (hrecorded.symm.trans hm)] at hsum
    exact hsum.symm
  have hrun : (runWith checksum { options with force := false } folder t').2 = t' := by
    rw [← read_unforced] at hprevious hcurrent
    rw [runWith_of_upToDate hprevious hcurrent]
  refine hleft.restores hfits hrun (hconfined.folderAt_eq_ok.mpr hleft.inside) ?_ ?_
  · rw [← hgenerated]
    exact output_of_previous hprevious
  · rw [hmanifest]
    exact readText_of_entryAt hleft.manifest

/-- A pass with something to do that can write both files leaves what it makes. -/
theorem reads_of_miss (hsep : options.Separate) (hdry : options.dryRun = false)
    (hdir : t.folderAt folder.path = .ok dir)
    (hprevious : (FolderState.read t folder options).previous = .ok previous)
    (hmiss : isUpToDate checksum options (.read t folder options) previous = false)
    (hmade : Generation.made options.runtime (.read t folder options) previous = g)
    (hcache : t.CanReplace folder.path options.cacheFile dir)
    (hcan : g.text.isSome = true → g.text ≠ previous →
      t.CanReplace folder.path options.outputFile dir) :
    let next := (runWith checksum options folder t).2
    next.folderAt folder.path = .ok dir ∧
      next.readText (options.outputPath folder) = g.text.elim (.error .notFound) .ok ∧
      next.readText (options.cachePath folder)
        = .ok (manifestOf checksum (.read t folder options) g).text := by
  intro next
  have hnext : next = (write t options folder
      (ofGeneration checksum folder (.read t folder options) previous g)).2 := by
    rw [← hmade]
    exact congrArg Prod.snd (runWith_of_not_upToDate hdry hprevious hmiss)
  obtain ⟨t₁, hchange⟩ := exists_changeOutput hsep.output hprevious hcan
  refine ⟨(confined_runWith checksum t hsep.output hsep.cache).folderAt_eq_ok.mpr hdir, ?_, ?_⟩
  · rw [hnext]
    exact readText_output_of_made hsep hdir hprevious rfl hchange
  · rw [hnext]
    exact readText_of_entryAt (entryAt_cache_of_changed hsep.output hsep.cache hchange hcache)

/-- A pass with something to do that makes the same again writes both files, if it can. -/
theorem restores_of_miss (hfits : options.Fits folder) (hdry : options.dryRun = false)
    (hleft : Regenerates checksum options folder t previous dir g)
    (hconfined : Confined (StateFiles (runWith checksum options folder t).2 options folder)
      (runWith checksum options folder t).2 t')
    (hprevious : (FolderState.read t' folder options).previous = .ok previous')
    (hmiss : isUpToDate checksum { options with force := false } (.read t' folder options)
      previous' = false)
    (hmade : Generation.made options.runtime (.read t' folder options) previous' = g)
    (hcan : g.text.isSome = true → g.text ≠ previous' →
      (runWith checksum options folder t).2.CanReplace folder.path options.outputFile dir) :
    Restores checksum options folder (runWith checksum options folder t).2 t' := by
  obtain ⟨hsources, -⟩ := hleft.read_of_confined hfits hconfined
  have hmanifest : manifestOf checksum (.read t' folder options) g
      = manifestOf checksum (.read t folder options) g := by
    unfold manifestOf FolderState.inputs
    rw [hsources]
  rw [← read_unforced] at hprevious hmiss hmade
  obtain ⟨hdir, houtput, hcache⟩ := reads_of_miss (fits_unforced hfits).separate hdry
    (hconfined.folderAt_eq_ok.mpr hleft.inside) hprevious hmiss hmade
    (hleft.replaceManifest.of_confined hconfined)
    fun hsome hne => (hcan hsome hne).of_confined hconfined
  rw [read_unforced, hmanifest] at hcache
  exact hleft.restores hfits rfl hdir houtput hcache

/-- The next pass makes what the pass has made. -/
theorem Clean.made_tampered (h : Clean checksum options folder t)
    (hname : PreservedBlock.markedName? PreservedBlock.beginMarker options.runtime.name = none)
    (hleft : Regenerates checksum options folder t previous dir g)
    (hconfined : Confined (StateFiles (runWith checksum options folder t).2 options folder)
      (runWith checksum options folder t).2 t')
    (hblocks : ∀ old, (runWith checksum options folder t).2.readText (options.outputPath folder)
      = .ok old → FolderState.blocksOf previous' = PreservedBlock.extract old) :
    Generation.made options.runtime (.read t' folder options) previous' = g := by
  obtain ⟨hsources, hfolder⟩ := hleft.read_of_confined h.fits hconfined
  have hread : ∀ text, g.text = some text →
      (runWith checksum options folder t).2.readText (options.outputPath folder) = .ok text := by
    intro text htext
    rw [hleft.readText_output, htext]
    rfl
  rw [Generation.made_congr hsources hfolder, hleft.made]
  rw [hleft.made] at hread
  exact Generation.made_again ⟨h.path, h.name, hname⟩ h.package
    (fun text htext => h.returns text (hread text htext))
    (fun text htext => hblocks text (hread text htext))

/-- Behind a pass that has written everything, and whose code opens no block, the next pass restores
    the generated file and the manifest after any change of them that leaves the blocks and no other
    manifest.  A file that the pass did not have to write has to be one that can be written. -/
theorem restores_of_tampered (h : Clean checksum options folder t)
    (hname : PreservedBlock.markedName? PreservedBlock.beginMarker options.runtime.name = none)
    (htampered : Tampered options folder (runWith checksum options folder t).2 t')
    (hfree : ∀ a b,
      (runWith checksum options folder t).2.readText (options.outputPath folder) = .ok a →
      t'.readText (options.outputPath folder) = .ok b → checksum a = checksum b → a = b)
    (hcan : (runWith checksum options folder t).1.outcome = .unchanged →
      t'.readText (options.outputPath folder)
        ≠ (runWith checksum options folder t).2.readText (options.outputPath folder) →
      ∃ dir, (runWith checksum options folder t).2.CanReplace folder.path options.outputFile dir) :
    Restores checksum options folder (runWith checksum options folder t).2 t' := by
  obtain ⟨previous, dir, g, hleft⟩ := regenerates_of_sound h.fits h.real h.miss h.sound
  obtain ⟨previous', hprevious, hblocks⟩ := htampered.output
  have hread : t'.readText (options.outputPath folder) = previous'.elim (.error .notFound) .ok :=
    output_of_previous hprevious
  have hmade := h.made_tampered hname hleft htampered.confined hblocks
  cases hcurrent : isUpToDate checksum { options with force := false } (.read t' folder options)
      previous' with
  | true =>
      -- the manifest that counts is the one that was left, so it speaks for the file that was
      obtain ⟨-, -, -, m, hm, -⟩ := isUpToDate_iff.mp hcurrent
      have hmanifest := htampered.manifest.resolve_right fun hnone => nomatch hnone.symm.trans hm
      refine restores_of_hit h.fits hleft htampered.confined hprevious hcurrent hmanifest ?_
      intro hsum
      rw [hleft.readText_output, hread] at hfree
      generalize g.text = made at hsum hfree
      cases previous' with
      | none =>
          cases made with
          | none => rfl
          | some a => cases hsum
      | some b =>
          cases made with
          | none => cases hsum
          | some a => rw [hfree a b rfl rfl (Option.some.inj hsum).symm]
  | false =>
      refine restores_of_miss h.fits h.real hleft htampered.confined hprevious hcurrent hmade ?_
      intro hsome hne
      by_cases hkept : g.text = previous
      · -- the pass did not write the file
        have houtcome : (runWith checksum options folder t).1.outcome = .unchanged := by
          rw [hleft.report]
          show g.outcome previous = _
          obtain ⟨text, htext⟩ := Option.isSome_iff_exists.mp hsome
          rw [← hkept]
          simp [Generation.outcome, htext]
        obtain ⟨dir', hcan'⟩ := hcan houtcome fun hsame => by
          rw [hleft.readText_output, hread] at hsame
          exact hne (elim_injective hsame).symm
        rwa [Except.ok.inj (hcan'.folder.symm.trans hleft.inside)] at hcan'
      · exact hleft.replaceOutput hsome hkept

end Next

/-! ## Files by hand, and no manifest -/

/-- The tree with another text in place of the generated file, or without it, and without the
    manifest. -/
def overwritten (t : FileTree) (options : PassOptions) (dir : Place) (text : Option String) :
    FileTree :=
  let output := dir ++ [options.outputFile]
  let changed := match text with
    | some s => t.put output (.file (.text s))
    | none => t.erase output
  changed.erase (dir ++ [options.cacheFile])

section Overwritten

variable {previous text : Option String} {g : Generation} {old : String}

theorem confined_overwritten (hdir : t.folderAt folder.path = .ok dir)
    (houtput : t.find? (dir ++ [options.outputFile]) ≠ some .directory)
    (hcache : t.find? (dir ++ [options.cacheFile]) ≠ some .directory) (text : Option String) :
    Confined (StateFiles t options folder) t (overwritten t options dir text) := by
  have hplace : ∀ place, place = dir ++ [options.outputFile] → StateFiles t options folder place :=
    fun place h => ⟨dir, hdir, Or.inl h⟩
  have hplace' : ∀ place, place = dir ++ [options.cacheFile] → StateFiles t options folder place :=
    fun place h => ⟨dir, hdir, Or.inr h⟩
  cases text with
  | some s =>
      have hput := Confined.put (concat_ne_nil dir options.outputFile) houtput (.text s)
      refine (hput.mono hplace).trans ((Confined.erase (concat_ne_nil dir _) ?_).mono hplace')
      exact fun h => hcache ((hput.directory _).mp h)
  | none =>
      have herase := Confined.erase (concat_ne_nil dir options.outputFile) houtput
      refine (herase.mono hplace).trans ((Confined.erase (concat_ne_nil dir _) ?_).mono hplace')
      exact fun h => hcache ((herase.directory _).mp h)

theorem find?_overwritten (hapart : options.outputFile ≠ options.cacheFile) (t : FileTree)
    (dir : Place) (text : Option String) :
    (overwritten t options dir text).find? (dir ++ [options.outputFile])
        = text.map (fun s => .file (.text s)) ∧
      (overwritten t options dir text).find? (dir ++ [options.cacheFile]) = none := by
  have hne : dir ++ [options.outputFile] ≠ dir ++ [options.cacheFile] :=
    fun h => hapart (List.cons.inj (List.append_cancel_left h)).1
  refine ⟨?_, find?_erase_self _ (concat_ne_nil dir options.cacheFile)⟩
  unfold overwritten
  dsimp only
  rw [find?_erase_of_ne _ hne]
  cases text with
  | some s => exact find?_put_self t (concat_ne_nil dir options.outputFile) _
  | none => exact find?_erase_self t (concat_ne_nil dir options.outputFile)

/-- What the next pass finds when the two files of a pass are overwritten so. -/
theorem reads_overwritten (hfits : options.Fits folder)
    (hleft : Regenerates checksum options folder t previous dir g) (hold : g.text = some old)
    (hgenerated : ∀ s, text = some s → isGenerated s = true) :
    let left := (runWith checksum options folder t).2
    let t' := overwritten left options dir text
    Confined (StateFiles left options folder) left t' ∧
      (FolderState.read t' folder options).previous = .ok text ∧
      (FolderState.read t' folder options).manifest = none := by
  intro left t'
  have hread : left.readText (options.outputPath folder) = .ok old := by
    rw [hleft.readText_output, hold]
    rfl
  obtain ⟨dir₁, hdir₁, hfind, hpath, hentry⟩ := find?_of_readText hfits.output hread
  obtain ⟨dir₂, hdir₂, hfind', hpath', hentry'⟩ :=
    find?_of_readText hfits.cache (readText_of_entryAt hleft.manifest)
  rw [Except.ok.inj (hdir₁.symm.trans hleft.inside)] at hfind
  rw [Except.ok.inj (hdir₂.symm.trans hleft.inside)] at hfind'
  have hconfined : Confined (StateFiles left options folder) left t' := by
    refine confined_overwritten hleft.inside ?_ ?_ text
    · rw [hfind]
      exact fun h => nomatch h
    · rw [hfind']
      exact fun h => nomatch h
  have hdir : t'.folderAt folder.path = .ok dir := hconfined.folderAt_eq_ok.mpr hleft.inside
  obtain ⟨hnew, hnone⟩ := find?_overwritten hfits.separate.apart left dir text
  refine ⟨hconfined, previous_of_output hgenerated ?_, ?_⟩
  · show t'.readText (folder.path.child options.outputFile) = _
    rw [readText_child hfits.output hdir, hpath, hentry, hnew]
    cases text with
    | some s => rfl
    | none => rfl
  · show (t'.readText (folder.path.child options.cacheFile)).toOption.bind Manifest.parse? = none
    rw [readText_child hfits.cache hdir, hpath', hentry', hnone]
    rfl

theorem tampered_overwritten (hfits : options.Fits folder)
    (hleft : Regenerates checksum options folder t previous dir g) (hold : g.text = some old)
    (hgenerated : ∀ s, text = some s → isGenerated s = true)
    (hblocks : FolderState.blocksOf text = PreservedBlock.extract old) :
    Tampered options folder (runWith checksum options folder t).2
      (overwritten (runWith checksum options folder t).2 options dir text) := by
  obtain ⟨hconfined, hprevious, hmanifest⟩ := reads_overwritten hfits hleft hold hgenerated
  refine ⟨hconfined, ⟨text, hprevious, ?_⟩, Or.inr hmanifest⟩
  intro found hfound
  rw [hleft.readText_output, hold] at hfound
  rw [hblocks, Except.ok.inj hfound]

/-- Without a manifest a pass leaves the file that it makes, or the one that is there where a file
    cannot be replaced. -/
theorem behind_of_no_manifest (hsep : options.Separate) (hdry : options.dryRun = false)
    (hdir : t.folderAt folder.path = .ok dir)
    (hprevious : (FolderState.read t folder options).previous = .ok previous)
    (hmanifest : (FolderState.read t folder options).manifest = none)
    (hmade : Generation.made options.runtime (.read t folder options) previous = g) :
    let behind := (runWith checksum options folder t).2.readText (options.outputPath folder)
    (behind = g.text.elim (.error .notFound) .ok ∧ (g.text.isSome = true → g.text ≠ previous →
      t.CanReplace folder.path options.outputFile dir)) ∨
    (behind = previous.elim (.error .notFound) .ok ∧ g.text.isSome = true ∧ g.text ≠ previous ∧
      ¬ t.CanReplace folder.path options.outputFile dir) := by
  intro behind
  have hrun := runWith_of_not_upToDate hdry hprevious
    (not_upToDate_of_manifest checksum options hmanifest previous)
  rw [hmade] at hrun
  have hbehind := written_or_blocked hsep hdir hprevious
    (rfl : (ofGeneration checksum folder (.read t folder options) previous g).output = _)
  dsimp only at hbehind
  rw [← hrun] at hbehind
  exact hbehind

/-- The next pass leaves the file that is made from the text, or the text where a file cannot be
    replaced. -/
theorem behind_overwritten (hfits : options.Fits folder) (hdry : options.dryRun = false)
    (hleft : Regenerates checksum options folder t previous dir g) (hold : g.text = some old)
    (hgenerated : ∀ s, text = some s → isGenerated s = true) :
    let t' := overwritten (runWith checksum options folder t).2 options dir text
    let next := (runWith checksum { options with force := false } folder t').2
    let behind := next.readText (options.outputPath folder)
    let again := (Generation.made options.runtime (.read t folder options) text).text
    (behind = again.elim (.error .notFound) .ok ∧ (again.isSome = true → again ≠ text →
      t'.CanReplace folder.path options.outputFile dir)) ∨
    (behind = text.elim (.error .notFound) .ok ∧ again.isSome = true ∧ again ≠ text ∧
      ¬ t'.CanReplace folder.path options.outputFile dir) := by
  intro t' next behind again
  obtain ⟨hconfined, hprevious, hmanifest⟩ := reads_overwritten hfits hleft hold hgenerated
  obtain ⟨hsources, hname⟩ := hleft.read_of_confined hfits hconfined
  rw [← read_unforced] at hprevious hmanifest
  exact behind_of_no_manifest (fits_unforced hfits).separate hdry
    (hconfined.folderAt_eq_ok.mpr hleft.inside) hprevious hmanifest
    (Generation.made_congr hsources hname options.runtime text)

theorem Restores.readText_output (h : Restores checksum options folder t t') :
    (runWith checksum { options with force := false } folder t').2.readText
        (options.outputPath folder) = t.readText (options.outputPath folder) :=
  readText_congr h.1

end Overwritten

/-! ## The sample -/

section Sample

variable {previous : Option String} {g : Generation} {text : String}

/-- A pass without errors that makes a text without carriage returns is clean. -/
theorem clean_of_text (hfits : options.Fits folder) (hdry : options.dryRun = false)
    (hmiss : isHit checksum options folder t = false)
    (hsound : (runWith checksum options folder t).1.hasErrors = false)
    (hpath : Unbroken options.runtime.path.toList) (hname : Unbroken options.runtime.name.toList)
    (hpackage : OneLine (Generation.packageName (FolderState.read t folder options).files
      (FolderState.read t folder options).name))
    (hdir : t.folderAt folder.path = .ok dir)
    (hprevious : (FolderState.read t folder options).previous = .ok previous)
    (hmade : (Generation.made options.runtime (.read t folder options) previous).text = some text)
    (hreturn : '\r' ∉ text.toList) :
    Clean checksum options folder t ∧ ∃ g,
      Regenerates checksum options folder t previous dir g ∧ g.text = some text := by
  obtain ⟨before, found, g, hleft⟩ := regenerates_of_sound hfits hdry hmiss hsound
  have hinside : (runWith checksum options folder t).2.folderAt folder.path = .ok dir :=
    (confined_runWith checksum t hfits.output hfits.cache).folderAt_eq_ok.mpr hdir
  rw [Except.ok.inj (hleft.inside.symm.trans hinside)] at hleft
  have hbefore : before = previous := Except.ok.inj (hleft.found.symm.trans hprevious)
  subst hbefore
  have htext : g.text = some text := by rw [hleft.made, hmade]
  refine ⟨⟨hfits, hdry, hmiss, hsound, hpath, hname, hpackage, ?_⟩, g, hleft, htext⟩
  intro found hfound
  rw [hleft.readText_output, htext] at hfound
  rw [← Except.ok.inj hfound]
  exact hreturn

/-- The file of the sample. -/
def freshText (runtime : ImportEntry) : String :=
  unlines (Emission.fileLines (Emission.namesOf runtime Emission.markedPlans) "svc"
    Emission.markedPlans [])

theorem return_not_mem_freshText {runtime : ImportEntry}
    (h : ∀ l ∈ Emission.fileLines (Emission.namesOf runtime Emission.markedPlans) "svc"
      Emission.markedPlans [], '\r' ∉ l.toList) : '\r' ∉ (freshText runtime).toList := by
  intro hmem
  obtain ⟨l, hl, hreturn⟩ := (mem_unlines_iff (by decide)).mp hmem
  exact h l hl hreturn

/-- What is read does not depend on the runtime. -/
theorem read_marked (t : FileTree) : FolderState.read t sampleFolder markedOptions
    = .read t sampleFolder sampleOptions :=
  rfl

theorem package_fresh : OneLine (Generation.packageName
    (FolderState.read freshTree sampleFolder sampleOptions).files
    (FolderState.read freshTree sampleFolder sampleOptions).name) := by
  rw [← read_marked, packageName_of_fresh]
  decide

theorem text_fresh (runtime : ImportEntry) : (Generation.made runtime
    (.read freshTree sampleFolder sampleOptions) none).text = some (freshText runtime) := by
  rw [← read_marked]
  exact textWith_of_fresh runtime []

theorem unmarked_sample : sampleOptions.runtime.Unmarked :=
  ⟨by decide, by decide, by decide⟩

theorem return_fresh : '\r' ∉ (freshText sampleOptions.runtime).toList := by
  refine return_not_mem_freshText ?_
  decide +kernel

theorem clean_fresh : Clean Sha256.ofText sampleOptions sampleFolder freshTree ∧ ∃ g,
    Regenerates Sha256.ofText sampleOptions sampleFolder freshTree none ["svc"] g ∧
      g.text = some (freshText sampleOptions.runtime) := by
  refine clean_of_text fits_sample rfl miss_of_fresh ?_ unmarked_sample.path unmarked_sample.name
    package_fresh canReplace_fresh.folder rfl (text_fresh sampleOptions.runtime) return_fresh
  rw [report_of_fresh]
  rfl

theorem blocksOf_fresh {runtime : ImportEntry} (hruntime : runtime.Unmarked) :
    FolderState.blocksOf (some (freshText runtime)) = [] := by
  rw [← text_fresh runtime]
  exact Generation.blocksOf_code hruntime package_fresh

/-- Without both files the sample gets them again. -/
theorem restores_of_tampered_sample :
    let left := (runWith Sha256.ofText sampleOptions sampleFolder freshTree).2
    let lost := overwritten left sampleOptions ["svc"] none
    Clean Sha256.ofText sampleOptions sampleFolder freshTree ∧
      left.readText (sampleOptions.outputPath sampleFolder)
        = .ok (freshText sampleOptions.runtime) ∧
      lost.readText (sampleOptions.outputPath sampleFolder) = .error .notFound ∧
      Restores Sha256.ofText sampleOptions sampleFolder left lost := by
  dsimp only
  obtain ⟨hclean, g, hleft, htext⟩ := clean_fresh
  have hread := hleft.readText_output
  rw [htext] at hread
  have hnone : ∀ s : String, none = some s → isGenerated s = true := fun _ h => nomatch h
  obtain ⟨-, hlost, -⟩ := reads_overwritten fits_sample hleft htext hnone
  have hblocks := blocksOf_fresh unmarked_sample
  rw [FolderState.blocksOf_some] at hblocks
  have htampered := tampered_overwritten fits_sample hleft htext hnone hblocks.symm
  have hgone : (overwritten _ sampleOptions ["svc"] none).readText
      (sampleOptions.outputPath sampleFolder) = .error .notFound := output_of_previous hlost
  refine ⟨hclean, hread, hgone, ?_⟩
  refine restores_of_tampered hclean unmarked_sample.unmarked htampered ?_ ?_
  · intro a b _ hb
    cases hgone.symm.trans hb
  · intro houtcome
    rw [report_of_fresh] at houtcome
    cases houtcome

/-- A change behind a clean pass that the next pass does not undo. -/
structure NotRestored (options : PassOptions) (folder : PackageFolder) (t t' : FileTree) :
    Prop where
  clean : Clean Sha256.ofText options folder t
  tampered : Tampered options folder (runWith Sha256.ofText options folder t).2 t'
  left : ¬ Restores Sha256.ofText options folder (runWith Sha256.ofText options folder t).2 t'

theorem fits_marked : markedOptions.Fits sampleFolder :=
  ⟨fits_sample.output, fits_sample.cache, fits_sample.sources, fits_sample.apart⟩

theorem miss_marked : isHit Sha256.ofText markedOptions sampleFolder freshTree = false :=
  not_upToDate_of_manifest Sha256.ofText markedOptions rfl none

theorem sound_marked :
    (runWith Sha256.ofText markedOptions sampleFolder freshTree).1.hasErrors = false := by
  decide +kernel

theorem clean_marked : Clean Sha256.ofText markedOptions sampleFolder freshTree ∧ ∃ g,
    Regenerates Sha256.ofText markedOptions sampleFolder freshTree none ["svc"] g ∧
      g.text = some (freshText markedOptions.runtime) := by
  refine clean_of_text fits_marked rfl miss_marked sound_marked (by decide) (by decide)
    package_fresh canReplace_fresh.folder rfl (text_fresh markedOptions.runtime)
    (return_not_mem_freshText ?_)
  decide +kernel

/-- The file of the sample under a runtime that opens a block is read back with the block. -/
theorem notRestored_of_marked :
    NotRestored markedOptions sampleFolder freshTree
      (overwritten (runWith Sha256.ofText markedOptions sampleFolder freshTree).2 markedOptions
        ["svc"] (some (freshText markedOptions.runtime))) := by
  have hgenerated : ∀ s, some (freshText markedOptions.runtime) = some s → isGenerated s = true :=
    fun s hs => Generation.isGenerated_of_text ((text_fresh markedOptions.runtime).trans hs)
  obtain ⟨hclean, g, hleft, htext⟩ := clean_marked
  refine ⟨hclean, tampered_overwritten fits_marked hleft htext hgenerated
    (FolderState.blocksOf_some _), ?_⟩
  intro hrestores
  have hbehind := hrestores.readText_output
  rw [hleft.readText_output, htext] at hbehind
  obtain ⟨longer, hagain, hne⟩ :=
    Generation.longer_of_extract (text_fresh markedOptions.runtime) Emission.extract_marked
  rcases behind_overwritten fits_marked rfl hleft htext hgenerated with
    ⟨hlonger, -⟩ | ⟨-, -, -, hblocked⟩
  · rw [read_marked, hagain] at hlonger
    exact hne (Except.ok.inj (hlonger.symm.trans hbehind))
  · have hcan := hleft.replaceOutput (by rw [htext]; rfl) (by rw [htext]; exact fun h => nomatch h)
    exact hblocked (hcan.of_confined (reads_overwritten fits_marked hleft htext hgenerated).1)

/-- The sample with its file in place, and with a directory in place of the temporary file. -/
def blockedTree : FileTree where
  entries := [(["svc"], .directory),
    (["svc", "a.go"], .file (.text "package svc\n\n// @Service\ntype A struct\x7b\x7d\n")),
    (["svc", "zz_wiregen.go"], .file (.text (freshText sampleOptions.runtime))),
    (["svc", ".zz_wiregen.go.tmp"], .directory)]

theorem sources_blocked : (FolderState.read blockedTree sampleFolder sampleOptions).sources
    = (FolderState.read freshTree sampleFolder sampleOptions).sources := by
  have hblocked : blockedTree.readText ⟨"svc/a.go"⟩
      = .ok "package svc\n\n// @Service\ntype A struct\x7b\x7d\n" := rfl
  have hfresh : freshTree.readText ⟨"svc/a.go"⟩
      = .ok "package svc\n\n// @Service\ntype A struct\x7b\x7d\n" := rfl
  show [(_, blockedTree.readText _)] = [(_, freshTree.readText _)]
  rw [hblocked, hfresh]

theorem name_blocked : (FolderState.read blockedTree sampleFolder sampleOptions).name
    = (FolderState.read freshTree sampleFolder sampleOptions).name :=
  rfl

theorem made_blocked (runtime : ImportEntry) {previous : Option String}
    (hblocks : FolderState.blocksOf previous = []) :
    Generation.made runtime (.read blockedTree sampleFolder sampleOptions) previous
      = .made runtime (.read freshTree sampleFolder sampleOptions) none := by
  rw [@Generation.made_of_blocksOf _ none hblocks]
  exact Generation.made_congr sources_blocked name_blocked runtime none

theorem isGenerated_freshText (runtime : ImportEntry) : isGenerated (freshText runtime) = true :=
  Generation.isGenerated_of_text (text_fresh runtime)

theorem previous_blocked : (FolderState.read blockedTree sampleFolder sampleOptions).previous
    = .ok (some (freshText sampleOptions.runtime)) := by
  refine previous_of_output ?_ rfl
  rintro s ⟨rfl⟩
  exact isGenerated_freshText _

/-- A pass over it has nothing to write but the manifest. -/
theorem clean_blocked : Clean Sha256.ofText sampleOptions sampleFolder blockedTree ∧ ∃ g,
    Regenerates Sha256.ofText sampleOptions sampleFolder blockedTree
        (some (freshText sampleOptions.runtime)) ["svc"] g ∧
      g.text = some (freshText sampleOptions.runtime) := by
  have hmade := @made_blocked sampleOptions.runtime (some (freshText sampleOptions.runtime))
    (blocksOf_fresh unmarked_sample)
  have hmiss := @not_upToDate_of_manifest Sha256.ofText sampleOptions
    (.read blockedTree sampleFolder sampleOptions) rfl (some (freshText sampleOptions.runtime))
  have hcan : blockedTree.CanReplace sampleFolder.path sampleOptions.cacheFile ["svc"] :=
    ⟨rfl, rfl, rfl, ⟨⟨"svc"⟩, ⟨rfl, rfl⟩, rfl, rfl⟩, rfl, by decide, by decide⟩
  have htext := text_fresh sampleOptions.runtime
  have hpackage : OneLine (Generation.packageName
      (FolderState.read blockedTree sampleFolder sampleOptions).files
      (FolderState.read blockedTree sampleFolder sampleOptions).name) := by
    unfold FolderState.files FolderState.inputs
    rw [sources_blocked, name_blocked]
    exact package_fresh
  refine clean_of_text fits_sample rfl ?_ ?_ unmarked_sample.path unmarked_sample.name hpackage
    hcan.folder previous_blocked (by rw [hmade, htext]) return_fresh
  · rw [isHit_of_previous previous_blocked]
    exact hmiss
  · -- the generation of the sample reports nothing
    obtain ⟨-, g, hleft, -⟩ := clean_fresh
    have hissues : g.issues = [] := by
      have hreport := hleft.report.symm.trans report_of_fresh
      exact congrArg FolderReport.issues hreport
    have hkeep : changeOf g (some (freshText sampleOptions.runtime)) = .keep := by
      refine changeOf_eq_keep ?_
      rw [hleft.made, htext]
    rw [runWith_of_not_upToDate rfl previous_blocked hmiss, hmade, ← hleft.made,
      report_of_canReplace fits_sample hcan (Or.inl hkeep)]
    show g.issues.any _ = false
    rw [hissues]
    rfl

/-- The file of another runtime stays in its place, because it cannot be replaced. -/
theorem notRestored_of_blocked :
    NotRestored sampleOptions sampleFolder blockedTree
      (overwritten (runWith Sha256.ofText sampleOptions sampleFolder blockedTree).2 sampleOptions
        ["svc"] (some (freshText otherOptions.runtime))) := by
  have hother : otherOptions.runtime.Unmarked := ⟨by decide, by decide, by decide⟩
  have hgenerated : ∀ s, some (freshText otherOptions.runtime) = some s → isGenerated s = true := by
    rintro s ⟨rfl⟩
    exact isGenerated_freshText _
  obtain ⟨hclean, g, hleft, htext⟩ := clean_blocked
  have hblocks := blocksOf_fresh unmarked_sample
  rw [FolderState.blocksOf_some] at hblocks
  refine ⟨hclean, tampered_overwritten fits_sample hleft htext hgenerated ?_, ?_⟩
  · rw [hblocks, blocksOf_fresh hother]
  · intro hrestores
    have hbehind := hrestores.readText_output
    rw [hleft.readText_output, htext] at hbehind
    have hne : freshText otherOptions.runtime ≠ freshText sampleOptions.runtime := by
      intro hsame
      refine texts_of_fresh.2 ?_
      rw [text_fresh, text_fresh, hsame]
    have hconfined := (reads_overwritten fits_sample hleft htext hgenerated).1
    -- a directory stands where the temporary file is to be written
    have htemporary : blockedTree.find? (["svc"] ++ [temporaryName sampleOptions.outputFile])
        = some .directory := by
      decide
    have hpass : Confined (PassPlaces blockedTree sampleOptions sampleFolder) blockedTree
        (runWith Sha256.ofText sampleOptions sampleFolder blockedTree).2 :=
      confined_runWith Sha256.ofText blockedTree fits_sample.output fits_sample.cache
    rcases behind_overwritten fits_sample rfl hleft htext hgenerated with
      ⟨-, hcan⟩ | ⟨hkept, -⟩
    · rw [made_blocked _ (blocksOf_fresh hother), text_fresh] at hcan
      have hcan' := hcan rfl fun h => hne (Option.some.inj h).symm
      exact hcan'.temporaryNotDirectory
        ((hconfined.directory _).mpr ((hpass.directory _).mpr htemporary))
    · exact hne (Except.ok.inj (hkept.symm.trans hbehind))

/-- Changes stay where the code opens a block, and where the file could not have been written. -/
theorem notRestored_of_tampered :
    NotRestored markedOptions sampleFolder freshTree
      (overwritten (runWith Sha256.ofText markedOptions sampleFolder freshTree).2 markedOptions
        ["svc"] (some (freshText markedOptions.runtime))) ∧
    NotRestored sampleOptions sampleFolder blockedTree
      (overwritten (runWith Sha256.ofText sampleOptions sampleFolder blockedTree).2 sampleOptions
        ["svc"] (some (freshText otherOptions.runtime))) :=
  ⟨notRestored_of_marked, notRestored_of_blocked⟩

end Sample
end FolderPass

end ServiceWiring
