import ServiceWiring.Command.Project
import ServiceWiring.Proofs.Pass
import ServiceWiring.Proofs.Scan

/-!
# Hand-written files

Generating and cleaning must not destroy what was written by hand: the sources of a folder, and a
file in the place of the generated one that was not generated.  Both are safe from everything but
the manifest: its file is written and removed without a look at what is there, and nothing keeps
the settings from giving it the name of a source or of the generated file.

* `Spared` — names and contents that a pass and a cleaning leave alone;
* `Project.find?_processAll`, `Project.find?_cleanAll` — a spared file stays, over all folders;
* `Project.HandWritten` — the files to be kept;
* `Project.handWritten_kept` — they are kept if none of them is named like the manifest, and a
  cleaning that keeps them shows that none is.
-/

namespace ServiceWiring

/-- Whether a content starts like a generated file. -/
def Content.IsGenerated : Content → Prop
  | .text s => isGenerated s = true
  | .bytes _ => False

/-! ## Names -/

/-- What accepted settings tell about the two file names. -/
theorem Config.names_of_validate {config : Config} (h : config.validate = .ok ()) :
    IsEntryName config.outputFile ∧ ".go".toList <:+ config.outputFile.toList ∧
      config.cacheFile ≠ "" ∧ '/' ∉ config.cacheFile.toList := by
  have hfault : config.fault? = none := by
    unfold validate at h
    split at h
    · cases h
    · assumption
  have hname : ∀ name, isFileName name = true → name ≠ "" ∧ '/' ∉ name.toList := by
    intro name hname
    simp only [isFileName, Bool.and_eq_true, Bool.not_eq_true', List.isEmpty_eq_false_iff,
      List.any_eq_false] at hname
    refine ⟨?_, ?_⟩
    · rintro rfl
      exact hname.1 rfl
    · intro hslash
      exact hname.2 '/' hslash rfl
  simp only [fault?, Option.or_eq_none_iff, ite_eq_left_iff, reduceCtorEq, imp_false,
    Decidable.not_not] at hfault
  obtain ⟨⟨⟨⟨-, houtput⟩, hcache⟩, hgo⟩, -⟩ := hfault
  have hsuffix := List.isSuffixOf_iff_suffix.mp hgo
  obtain ⟨hne, hslash⟩ := hname _ houtput
  -- the dots do not end like the name of a source
  refine ⟨⟨hne, ?_, ?_, hslash⟩, hsuffix, hname _ hcache⟩
  · intro hdot
    rw [hdot] at hgo
    exact absurd hgo (by decide)
  · intro hdots
    rw [hdots] at hgo
    exact absurd hgo (by decide)

theorem toList_temporaryName (name : String) :
    (temporaryName name).toList = '.' :: (name.toList ++ ".tmp".toList) := by
  simp [temporaryName, String.toList_append, toString]

theorem ne_temporaryName_of_go {name : String} (h : ".go".toList <:+ name.toList)
    (other : String) : name ≠ temporaryName other := by
  rintro rfl
  obtain ⟨front, hfront⟩ := h
  have hlast := congrArg List.getLast? hfront
  rw [toList_temporaryName] at hlast
  simp [List.getLast?_append, List.getLast?_cons] at hlast

/-- A temporary file is no Go file. -/
theorem Path.extension?_temporary {p : Path} {other : String}
    (h : p.fileName? = some (temporaryName other)) : p.extension? = some "tmp" := by
  have hback : (temporaryName other).toList.reverse
      = 'p' :: 'm' :: 't' :: '.' :: (other.toList.reverse ++ ['.']) := by
    rw [toList_temporaryName]
    simp
  unfold extension?
  rw [h]
  dsimp only
  rw [hback]
  cases other.toList.reverse with
  | nil => rfl
  | cons c cs => rfl

/-- A Go file ends in `.go`. -/
theorem Path.suffix_of_extension? {p : Path} {name : String} (hname : p.fileName? = some name)
    (h : p.extension? = some "go") : ".go".toList <:+ name.toList := by
  unfold extension? at h
  rw [hname] at h
  dsimp only at h
  split at h
  · rename_i c d rest hdrop
    obtain rfl : c = '.' := Text.eq_of_dropWhile_ne hdrop
    have htake : name.toList.reverse.takeWhile (· != '.') = ['o', 'g'] := by
      have hlist := congrArg String.toList (Option.some.inj h)
      rw [String.toList_ofList] at hlist
      rw [← List.reverse_reverse (name.toList.reverse.takeWhile _), hlist]
      rfl
    have hback : name.toList.reverse = ['o', 'g'] ++ '.' :: d :: rest := by
      rw [← htake, ← hdrop, List.takeWhile_append_dropWhile]
    refine List.reverse_prefix.mp ?_
    rw [hback]
    exact ⟨d :: rest, rfl⟩
  · cases h

theorem Scan.ne_temporaryName_of_isSource {options : ScanOptions} {p : Path} {name : String}
    (h : isSource options p = true) (hname : p.fileName? = some name) (other : String) :
    name ≠ temporaryName other := by
  rintro rfl
  rw [isSource, Path.extension?_temporary hname] at h
  cases h

/-! ## Files that stay -/

/-- Whether a file of the given name and content is left alone: it is not named like the manifest
    or a temporary file, and if it is named like the generated file, it was not generated. -/
structure Spared (outputFile cacheFile name : String) (content : Content) : Prop where
  cache : name ≠ cacheFile
  temporary : ∀ other, name ≠ temporaryName other
  output : name = outputFile → ¬ content.IsGenerated

namespace FolderPass

open FileTree

variable {t : FileTree} {base : Path} {name : String} {dir : Place} {content : Content}
  {options : PassOptions} {folder : PackageFolder}

/-- Replacing a file touches files of its name and temporary files at most, whether or not the
    name can be one. -/
theorem confined_replaceFile_segment (t : FileTree) (base : Path) (hne : name ≠ "")
    (hslash : '/' ∉ name.toList) (text : String) :
    Confined (fun place => place.getLast? = some name ∨
        ∃ other, place.getLast? = some (temporaryName other)) t
      (t.replaceFile (base.child name) text).2 := by
  by_cases hdots : name = "." ∨ name = ".."
  · exact (confined_replaceFile_dots hdots t base text).mono fun _ => Or.inr
  · rw [not_or] at hdots
    refine (confined_replaceFile t base ⟨hne, hdots.1, hdots.2, hslash⟩ text).mono ?_
    rintro place ⟨dir, -, rfl | rfl⟩
    · exact Or.inl List.getLast?_concat
    · exact Or.inr ⟨name, List.getLast?_concat⟩

/-- The places that a pass may touch, for any names that settings can have. -/
def StatePlaces (t : FileTree) (options : PassOptions) (folder : PackageFolder) (place : Place) :
    Prop :=
  (∃ dir, t.folderAt folder.path = .ok dir ∧ place = dir ++ [options.outputFile]) ∨
    place.getLast? = some options.cacheFile ∨
    ∃ other, place.getLast? = some (temporaryName other)

theorem confined_write_state (t : FileTree) (hout : IsEntryName options.outputFile)
    (hne : options.cacheFile ≠ "") (hslash : '/' ∉ options.cacheFile.toList) (plan : PassPlan) :
    Confined (StatePlaces t options folder) t (write t options folder plan).2 := by
  have hfile : ∀ place, FilePlaces t folder.path options.outputFile place →
      StatePlaces t options folder place := by
    rintro place ⟨dir, hdir, rfl | rfl⟩
    · exact Or.inl ⟨dir, hdir, rfl⟩
    · exact Or.inr (Or.inr ⟨_, List.getLast?_concat⟩)
  unfold write
  dsimp only [PassOptions.outputPath, PassOptions.cachePath]
  rcases changeOutput_cases t folder.path hout plan.output with
    ⟨failure, t', h, hc⟩ | ⟨t', h, hstep⟩
  · rw [h]
    exact hc.mono fun place hp => hfile place (filePlaces_of_temporary hp)
  · rw [h]
    dsimp only
    have hcache := confined_replaceFile_segment t' folder.path hne hslash plan.manifest.text
    have hboth := (hstep.confined.mono hfile).trans (hcache.mono fun _ => Or.inr)
    cases hr : t'.replaceFile (folder.path.child options.cacheFile) plan.manifest.text with
    | mk result t'' =>
        rw [hr] at hboth
        cases result with
        | error failure => exact hboth
        | ok u => exact hboth

/-- A file in the place of the generated one that was not generated stops a pass. -/
theorem previous_of_handWritten (hout : IsEntryName options.outputFile)
    (hdir : t.folderAt folder.path = .ok dir)
    (hfind : t.find? (dir ++ [options.outputFile]) = some (.file content))
    (hcontent : ¬ content.IsGenerated) :
    ∃ reason, (FolderState.read t folder options).previous = .error reason := by
  unfold FolderState.previous
  split
  · rename_i text hread
    obtain ⟨dir', hdir', hfind', -, -⟩ := find?_of_readText hout hread
    obtain rfl := Except.ok.inj (hdir'.symm.trans hdir)
    obtain rfl := Entry.file.inj (Option.some.inj (hfind'.symm.trans hfind))
    have hgenerated : ¬ isGenerated text = true := hcontent
    rw [if_neg hgenerated]
    exact ⟨_, rfl⟩
  · rename_i hread
    cases hfind.symm.trans (find?_of_missing hout hdir hread)
  · exact ⟨_, rfl⟩

/-- A pass keeps every spared file. -/
theorem find?_runWith (checksum : Checksum) (hout : IsEntryName options.outputFile)
    (hne : options.cacheFile ≠ "") (hslash : '/' ∉ options.cacheFile.toList)
    (hspared : Spared options.outputFile options.cacheFile name content)
    (h : t.find? (dir ++ [name]) = some (.file content)) :
    (runWith checksum options folder t).2.find? (dir ++ [name]) = some (.file content) := by
  unfold runWith
  split
  · exact h
  · rename_i plan hplan
    have hconfined : Confined (StatePlaces t options folder) t (write t options folder plan).2 :=
      confined_write_state t hout hne hslash plan
    by_cases hplace : StatePlaces t options folder (dir ++ [name])
    · exfalso
      rcases hplace with ⟨dir', hdir', heq⟩ | hcache | ⟨other, htemporary⟩
      · -- the generated file itself: the pass has refused to go on
        obtain ⟨hsame, hname⟩ := List.append_inj' heq rfl
        have hlast : name = options.outputFile := (List.cons.inj hname).1
        subst hsame hlast
        obtain ⟨reason, hreason⟩ := previous_of_handWritten hout hdir' h (hspared.output rfl)
        rw [PassDecision.ofState_of_error hreason] at hplan
        cases hplan
      · rw [List.getLast?_concat] at hcache
        exact hspared.cache (Option.some.inj hcache)
      · rw [List.getLast?_concat] at htemporary
        exact hspared.temporary other (Option.some.inj htemporary)
    · rw [hconfined.elsewhere _ hplace]
      exact h

end FolderPass

namespace PackageFolder

open FileTree

variable {t : FileTree} {base : Path} {outputFile cacheFile name : String} {dir : Place}
  {content : Content}

theorem find?_erase_concat {other : Place} {last : String} (hname : name ≠ last)
    (h : t.find? (dir ++ [name]) = some (.file content)) :
    (t.erase (other ++ [last])).find? (dir ++ [name]) = some (.file content) := by
  rw [find?_erase_of_ne]
  · exact h
  · intro heq
    obtain ⟨-, hlast⟩ := List.append_inj' heq rfl
    exact hname (List.cons.inj hlast).1

/-- Removing a generated file keeps every spared one. -/
theorem find?_removeOutput (hout : IsEntryName outputFile)
    (hspared : Spared outputFile cacheFile name content)
    (h : t.find? (dir ++ [name]) = some (.file content)) :
    (removeOutput t (base.child outputFile)).2.find? (dir ++ [name]) = some (.file content) := by
  unfold removeOutput
  split
  · rename_i text hread
    split
    · rename_i hgenerated
      rcases removeIfPresent_child t base hout with
        ⟨dir', _, hdir', -, -, -, hr⟩ | ⟨-, hr⟩ | ⟨failure, hr⟩
      · rw [hr]
        dsimp only
        by_cases hplace : dir ++ [name] = dir' ++ [outputFile]
        · -- it was read, so it is the generated file that it was found to be
          exfalso
          obtain ⟨hsame, hname⟩ := List.append_inj' hplace rfl
          obtain ⟨found, hfound, htext, -, -⟩ := find?_of_readText hout hread
          rw [Except.ok.inj (hfound.symm.trans hdir'), ← hplace, h] at htext
          injection htext with htext
          injection htext with htext
          rw [htext] at hspared
          exact hspared.output (List.cons.inj hname).1 hgenerated
        · rw [find?_erase_of_ne t hplace]
          exact h
      · rw [hr]
        exact h
      · rw [hr]
        exact h
    · exact h
  · exact h

/-- Removing a manifest keeps every file of another name. -/
theorem find?_removeIfPresent (hne : cacheFile ≠ "") (hslash : '/' ∉ cacheFile.toList)
    (hname : name ≠ cacheFile) (h : t.find? (dir ++ [name]) = some (.file content)) :
    (t.removeIfPresent (base.child cacheFile)).2.find? (dir ++ [name]) = some (.file content) := by
  by_cases hdots : cacheFile = "." ∨ cacheFile = ".."
  · rw [removeIfPresent_dots hdots]
    exact h
  · rw [not_or] at hdots
    rcases removeIfPresent_child t base ⟨hne, hdots.1, hdots.2, hslash⟩ with
      ⟨dir', _, -, -, -, -, hr⟩ | ⟨-, hr⟩ | ⟨failure, hr⟩
    · rw [hr]
      exact find?_erase_concat hname h
    · rw [hr]
      exact h
    · rw [hr]
      exact h

/-- A cleaning keeps every spared file. -/
theorem find?_clean (hout : IsEntryName outputFile) (hne : cacheFile ≠ "")
    (hslash : '/' ∉ cacheFile.toList) (hspared : Spared outputFile cacheFile name content)
    (h : t.find? (dir ++ [name]) = some (.file content)) :
    (clean t base outputFile cacheFile).2.find? (dir ++ [name]) = some (.file content) := by
  have houtput : (removeOutput t (base.child outputFile)).2.find? (dir ++ [name])
      = some (.file content) := find?_removeOutput hout hspared h
  unfold clean
  cases hr : removeOutput t (base.child outputFile) with
  | mk result t' =>
      rw [hr] at houtput
      cases result with
      | error failure => exact houtput
      | ok removed => exact find?_removeIfPresent hne hslash hspared.cache houtput

/-! ### What a cleaning takes away -/

/-- A tree loses files, and nothing else changes. -/
structure Sheds (t t' : FileTree) : Prop where
  confined : Confined (fun _ => True) t t'
  none : ∀ place, t.find? place = none → t'.find? place = none

theorem Sheds.refl (t : FileTree) : Sheds t t :=
  ⟨Confined.refl _ t, fun _ h => h⟩

theorem Sheds.trans {t t' t'' : FileTree} (h : Sheds t t') (h' : Sheds t' t'') : Sheds t t'' :=
  ⟨h.confined.trans h'.confined, fun place hp => h'.none place (h.none place hp)⟩

theorem sheds_removeIfPresent (t : FileTree) (p : Path) : Sheds t (t.removeIfPresent p).2 := by
  unfold removeIfPresent
  cases hremove : t.perform (.remove p) with
  | error e =>
      cases e with
      | notFound => exact Sheds.refl t
      | _ => exact Sheds.refl t
  | ok t' =>
      obtain ⟨parent, last, _, content, -, hfind, rfl⟩ := perform_remove_eq_ok hremove
      refine ⟨(Confined.erase (concat_ne_nil parent last) ?_).mono fun _ _ => trivial, ?_⟩
      · rw [hfind]
        exact fun h => nomatch h
      · intro place hplace
        by_cases hsame : place = parent ++ [last]
        · rw [hsame]
          exact find?_erase_self t (concat_ne_nil parent last)
        · rw [find?_erase_of_ne t hsame]
          exact hplace

theorem sheds_removeOutput (t : FileTree) (p : Path) : Sheds t (removeOutput t p).2 := by
  unfold removeOutput
  split
  · split
    · exact sheds_removeIfPresent t p
    · exact Sheds.refl t
  · exact Sheds.refl t

theorem sheds_clean (t : FileTree) (base : Path) (outputFile cacheFile : String) :
    Sheds t (clean t base outputFile cacheFile).2 := by
  have houtput := sheds_removeOutput t (base.child outputFile)
  unfold clean
  cases hr : removeOutput t (base.child outputFile) with
  | mk result t' =>
      rw [hr] at houtput
      cases result with
      | error failure => exact houtput
      | ok removed => exact houtput.trans (sheds_removeIfPresent t' _)

/-- A cleaning that succeeds leaves no manifest, whatever it was. -/
theorem find?_clean_eq_none (hcache : IsEntryName cacheFile) (hdir : t.folderAt base = .ok dir)
    {removed : List Path} {t' : FileTree}
    (h : clean t base outputFile cacheFile = (.ok removed, t')) :
    t'.find? (dir ++ [cacheFile]) = none := by
  have houtput := sheds_removeOutput t (base.child outputFile)
  unfold clean at h
  cases hr : removeOutput t (base.child outputFile) with
  | mk result t₁ =>
      rw [hr] at h houtput
      cases result with
      | error failure => cases h
      | ok first =>
          have hdir₁ := houtput.confined.folderAt_eq_ok.mpr hdir
          dsimp only at h
          rcases removeIfPresent_child t₁ base hcache with
            ⟨dir', _, hdir', -, -, -, hremove⟩ | ⟨hread, hremove⟩ | ⟨failure, hremove⟩
          · rw [hremove] at h
            rw [← (Prod.mk.inj h).2, Except.ok.inj (hdir₁.symm.trans hdir')]
            exact find?_erase_self t₁ (concat_ne_nil _ _)
          · -- nothing was there to be read
            rw [hremove] at h
            rw [← (Prod.mk.inj h).2]
            exact find?_of_missing hcache hdir₁ hread
          · rw [hremove] at h
            cases h

end PackageFolder

namespace Project

open FileTree

variable {t : FileTree} {name : String} {dir : Place} {content : Content} {config : Config}

theorem find?_processAll {options : PassOptions} (hout : IsEntryName options.outputFile)
    (hne : options.cacheFile ≠ "") (hslash : '/' ∉ options.cacheFile.toList)
    (hspared : Spared options.outputFile options.cacheFile name content)
    (folders : List PackageFolder) (h : t.find? (dir ++ [name]) = some (.file content)) :
    (processAll options folders t).2.find? (dir ++ [name]) = some (.file content) := by
  induction folders generalizing t with
  | nil => exact h
  | cons folder folders ih =>
      exact ih (FolderPass.find?_runWith Sha256.ofText hout hne hslash hspared h)

section

-- unfolding a cleaning in the middle of `cleanAll` would lead down to single characters
attribute [local irreducible] PackageFolder.clean

theorem cleanAll_cons (config : Config) (folder : PackageFolder) (folders : List PackageFolder)
    (t : FileTree) :
    cleanAll config (folder :: folders) t
      = match PackageFolder.clean t folder.path config.outputFile config.cacheFile with
        | (.error failure, t) => (.error failure, t)
        | (.ok removed, t) =>
            ((cleanAll config folders t).1.map (removed ++ ·), (cleanAll config folders t).2) :=
  rfl

end

theorem find?_cleanAll (hout : IsEntryName config.outputFile)
    (hne : config.cacheFile ≠ "") (hslash : '/' ∉ config.cacheFile.toList)
    (hspared : Spared config.outputFile config.cacheFile name content)
    (folders : List PackageFolder) (h : t.find? (dir ++ [name]) = some (.file content)) :
    (cleanAll config folders t).2.find? (dir ++ [name]) = some (.file content) := by
  induction folders generalizing t with
  | nil => exact h
  | cons folder folders ih =>
      have hclean : (PackageFolder.clean t folder.path config.outputFile config.cacheFile).2.find?
          (dir ++ [name]) = some (.file content) :=
        PackageFolder.find?_clean hout hne hslash hspared h
      rw [cleanAll_cons]
      split
      · rename_i failure t' hr
        rw [hr] at hclean
        exact hclean
      · rename_i removed t' hr
        rw [hr] at hclean
        exact ih hclean

theorem sheds_cleanAll (config : Config) (folders : List PackageFolder) (t : FileTree) :
    PackageFolder.Sheds t (cleanAll config folders t).2 := by
  induction folders generalizing t with
  | nil => exact .refl t
  | cons folder folders ih =>
      have hclean := PackageFolder.sheds_clean t folder.path config.outputFile config.cacheFile
      rw [cleanAll_cons]
      split
      · rename_i failure t' hr
        rw [hr] at hclean
        exact hclean
      · rename_i removed t' hr
        rw [hr] at hclean
        exact hclean.trans (ih t')

theorem find?_cleanAll_eq_none (hcache : IsEntryName config.cacheFile)
    {folders : List PackageFolder} {folder : PackageFolder} (hfolder : folder ∈ folders)
    (hdir : t.folderAt folder.path = .ok dir) (hok : (cleanAll config folders t).1.isOk = true) :
    (cleanAll config folders t).2.find? (dir ++ [config.cacheFile]) = none := by
  induction folders generalizing t with
  | nil => cases hfolder
  | cons first rest ih =>
      have hclean := PackageFolder.sheds_clean t first.path config.outputFile config.cacheFile
      rw [cleanAll_cons] at hok ⊢
      split at hok
      · cases hok
      · rename_i removed t' hr
        rw [hr] at hclean
        rcases List.mem_cons.mp hfolder with rfl | hrest
        · -- gone with its own folder, and nothing brings it back
          exact (sheds_cleanAll config rest t').none _
            (PackageFolder.find?_clean_eq_none hcache hdir hr)
        · refine ih hrest (hclean.confined.folderAt_eq_ok.mpr hdir) ?_
          cases hresult : (cleanAll config rest t').1 with
          | error failure =>
              rw [hresult] at hok
              cases hok
          | ok more => rfl

/-! ## Hand-written files -/

/-- The files that must be kept: the sources of the folders, and what stands in the place of a
    generated file without being one. -/
inductive HandWritten (project : Project) (t : FileTree) (place : Place) (content : Content) :
    Prop where
  | source (folder : PackageFolder) (hfolder : folder ∈ project.folders t) (p : Path)
      (hp : p ∈ folder.sources) (h : t.entryAt p = .ok (place, .file content))
  | output (folder : PackageFolder) (hfolder : folder ∈ project.folders t)
      (h : t.entryAt (folder.path.child project.config.outputFile) = .ok (place, .file content))
      (hcontent : ¬ content.IsGenerated)

/-- A hand-written file is spared, unless it is named like the manifest. -/
theorem HandWritten.spared {project : Project} (hvalid : project.config.validate = .ok ())
    {place : Place} (h : project.HandWritten t place content)
    (hcache : place.getLast? ≠ some project.config.cacheFile) :
    ∃ dir name, place = dir ++ [name] ∧ t.find? (dir ++ [name]) = some (.file content) ∧
      Spared project.config.outputFile project.config.cacheFile name content := by
  obtain ⟨hout, hgo, -, -⟩ := Config.names_of_validate hvalid
  cases h with
  | source folder hfolder p hp hentry =>
      obtain ⟨dir, name, endsOpen, htarget, rfl, hfind⟩ := entryAt_file hentry
      rw [List.getLast?_concat] at hcache
      obtain ⟨hsource, -⟩ := Scan.lists_folders t _ _ folder hfolder p hp
      -- the path of a source ends in its name, and the name in `.go`
      have hname : p.fileName? = some name :=
        Path.fileName?_of_names (names_of_target htarget).1 (names_of_target htarget).2.1
      refine ⟨dir, name, rfl, hfind, ?_, ?_, ?_⟩
      · exact fun h => hcache (congrArg some h)
      · exact Scan.ne_temporaryName_of_isSource hsource hname
      · intro houtput
        rw [Scan.isSource, hname, houtput] at hsource
        simp [scanOptions] at hsource
  | output folder hfolder hentry hcontent =>
      obtain ⟨dir, name, endsOpen, htarget, rfl, hfind⟩ := entryAt_file hentry
      rw [List.getLast?_concat] at hcache
      obtain ⟨_, -, -, -, hnamed⟩ := (target_child_eq_ok_iff hout).mp htarget
      injection hnamed with _ hname _
      refine ⟨dir, name, rfl, hfind, ?_, ?_, fun _ => hcontent⟩
      · exact fun h => hcache (congrArg some h)
      · rw [← hname]
        exact ne_temporaryName_of_go hgo

/-- The folder of a hand-written file that is named like the manifest is one of the project. -/
theorem HandWritten.folder {project : Project} (hvalid : project.config.validate = .ok ())
    {place : Place} (h : project.HandWritten t place content)
    (hcache : place.getLast? = some project.config.cacheFile) :
    IsEntryName project.config.cacheFile ∧ ∃ folder ∈ project.folders t, ∃ dir,
      t.folderAt folder.path = .ok dir ∧ place = dir ++ [project.config.cacheFile] := by
  obtain ⟨hout, -, hne, hslash⟩ := Config.names_of_validate hvalid
  cases h with
  | source folder hfolder p hp hentry =>
      obtain ⟨dir, name, endsOpen, htarget, rfl, -⟩ := entryAt_file hentry
      rw [List.getLast?_concat] at hcache
      obtain ⟨-, parent, hparent, halike⟩ := Scan.lists_folders t _ _ folder hfolder p hp
      obtain ⟨hlast, hup, hdir⟩ := names_of_target htarget
      have hnames : p.names ≠ [] := by
        intro hnil
        rw [hnil] at hlast
        cases hlast
      obtain ⟨parent', hparent', hdropped, habsolute⟩ := Path.parent?_of_names hnames
      -- the folder of a source is the one its path leads to without the name
      have hsame : parent' = parent := Option.some.inj (hparent'.symm.trans hparent)
      subst hsame
      have hfolderAt : t.folderAt folder.path = .ok dir := by
        rw [← folderAt_congr halike, folderAt, hdropped, habsolute]
        exact hdir
      have hname : name = project.config.cacheFile := Option.some.inj hcache
      subst hname
      have hdot := Path.ne_dot_of_mem_names (List.mem_of_getLast? hlast)
      exact ⟨⟨hne, hdot, hup, hslash⟩, folder, hfolder, dir, hfolderAt, rfl⟩
  | output folder hfolder hentry hcontent =>
      obtain ⟨dir, name, endsOpen, htarget, rfl, -⟩ := entryAt_file hentry
      rw [List.getLast?_concat] at hcache
      obtain ⟨dir', hdir', -, -, hnamed⟩ := (target_child_eq_ok_iff hout).mp htarget
      injection hnamed with hdir hname
      subst hdir
      have hsame : project.config.outputFile = project.config.cacheFile :=
        hname.trans (Option.some.inj hcache)
      refine ⟨hsame ▸ hout, folder, hfolder, dir', hdir', ?_⟩
      rw [Option.some.inj hcache]

/-- Whether a hand-written file is named like the manifest. -/
def Clashes (project : Project) (t : FileTree) : Prop :=
  ∃ place content, project.HandWritten t place content ∧
    place.getLast? = some project.config.cacheFile

/-- A manifest that is not named like a Go file gets in the way of none. -/
theorem not_clashes_of_name {project : Project} (hvalid : project.config.validate = .ok ())
    (hname : ¬ ".go".toList <:+ project.config.cacheFile.toList) (t : FileTree) :
    ¬ project.Clashes t := by
  obtain ⟨hout, hgo, -, -⟩ := Config.names_of_validate hvalid
  rintro ⟨place, content, h, hcache⟩
  cases h with
  | source folder hfolder p hp hentry =>
      obtain ⟨dir, name, endsOpen, htarget, rfl, -⟩ := entryAt_file hentry
      rw [List.getLast?_concat] at hcache
      obtain ⟨hsource, -⟩ := Scan.lists_folders t _ _ folder hfolder p hp
      obtain ⟨hlast, hup, -⟩ := names_of_target htarget
      rw [Scan.isSource, Bool.and_eq_true, beq_iff_eq] at hsource
      rw [← Option.some.inj hcache] at hname
      exact hname (Path.suffix_of_extension? (Path.fileName?_of_names hlast hup) hsource.1)
  | output folder hfolder hentry hcontent =>
      obtain ⟨dir, name, endsOpen, htarget, rfl, -⟩ := entryAt_file hentry
      rw [List.getLast?_concat] at hcache
      obtain ⟨_, -, -, -, hnamed⟩ := (target_child_eq_ok_iff hout).mp htarget
      injection hnamed with _ hlast _
      rw [← Option.some.inj hcache, ← hlast] at hname
      exact hname hgo

/-- A project without tests in which the manifest has the given name. -/
def sample (cacheFile : String) : Project where
  root := ⟨"."⟩
  config := { cacheFile, ignoreTestFiles := false }

/-- A tree with one hand-written file. -/
def oneFileTree (name : String) : FileTree where
  entries := [([name], .file (.text "package svc\n"))]

/-- Generating and cleaning keep all hand-written files if none of them is named like the
    manifest, which is so for every manifest that is not named like a Go file.  If one is, a
    cleaning that succeeds destroys it. -/
theorem handWritten_kept (project : Project) (hvalid : project.config.validate = .ok ())
    (t : FileTree) :
    (¬ project.Clashes t → ∀ place content, project.HandWritten t place content →
      (∀ force dryRun, (processAll (project.passOptions force dryRun) (project.folders t) t).2.find?
        place = some (.file content)) ∧
      (cleanAll project.config (project.folders t) t).2.find? place = some (.file content)) ∧
    (¬ ".go".toList <:+ project.config.cacheFile.toList → ¬ project.Clashes t) ∧
    ((cleanAll project.config (project.folders t) t).1.isOk = true → project.Clashes t →
      ∃ place content, project.HandWritten t place content ∧
        (cleanAll project.config (project.folders t) t).2.find? place = none) := by
  obtain ⟨hout, -, hne, hslash⟩ := Config.names_of_validate hvalid
  refine ⟨?_, ?_, ?_⟩
  · intro hclash place content h
    have hcache : place.getLast? ≠ some project.config.cacheFile := fun hcache =>
      hclash ⟨place, content, h, hcache⟩
    obtain ⟨dir, name, rfl, hfind, hspared⟩ := h.spared hvalid hcache
    refine ⟨?_, find?_cleanAll hout hne hslash hspared _ hfind⟩
    intro force dryRun
    exact find?_processAll hout hne hslash hspared _ hfind
  · exact fun hname => not_clashes_of_name hvalid hname t
  · rintro hok ⟨place, content, h, hcache⟩
    obtain ⟨hentry, folder, hfolder, dir, hdir, rfl⟩ := h.folder hvalid hcache
    exact ⟨_, content, h, find?_cleanAll_eq_none hentry hfolder hdir hok⟩

theorem handWritten_kept_of_sample :
    (sample ".wiregen-cache.json").HandWritten (oneFileTree "a.go") ["a.go"]
        (.text "package svc\n") ∧
      (processAll ((sample ".wiregen-cache.json").passOptions true false)
        ((sample ".wiregen-cache.json").folders (oneFileTree "a.go")) (oneFileTree "a.go")).2.find?
          ["a.go"] = some (.file (.text "package svc\n")) := by
  have hsource : (sample ".wiregen-cache.json").HandWritten (oneFileTree "a.go") ["a.go"]
      (.text "package svc\n") := by
    refine .source ⟨⟨"."⟩, [⟨"./a.go"⟩]⟩ ?_ ⟨"./a.go"⟩ (List.mem_singleton_self _) (by rfl)
    decide +kernel
  have hkept := handWritten_kept (sample ".wiregen-cache.json") (by rfl) (oneFileTree "a.go")
  have hclash := hkept.2.1 (by decide +kernel)
  exact ⟨hsource, (hkept.1 hclash _ _ hsource).1 true false⟩

/-- A manifest named like a source is written over it, and one named like the generated file is
    removed with what was written there by hand. -/
theorem handWritten_destroyed :
    ((sample "a.go").config.validate = .ok () ∧
      (sample "a.go").HandWritten (oneFileTree "a.go") ["a.go"] (.text "package svc\n") ∧
      (processAll ((sample "a.go").passOptions false false)
        ((sample "a.go").folders (oneFileTree "a.go")) (oneFileTree "a.go")).2.find? ["a.go"]
          ≠ some (.file (.text "package svc\n"))) ∧
    ((sample "zz_wiregen.go").config.validate = .ok () ∧
      (sample "zz_wiregen.go").HandWritten (oneFileTree "zz_wiregen.go") ["zz_wiregen.go"]
        (.text "package svc\n") ∧
      (cleanAll (sample "zz_wiregen.go").config
        ((sample "zz_wiregen.go").folders (oneFileTree "zz_wiregen.go"))
        (oneFileTree "zz_wiregen.go")).2.find? ["zz_wiregen.go"] = none) := by
  refine ⟨⟨by rfl, ?_, by decide +kernel⟩, by rfl, ?_, by decide +kernel⟩
  · refine .source ⟨⟨"."⟩, [⟨"./a.go"⟩]⟩ ?_ ⟨"./a.go"⟩ (List.mem_singleton_self _) (by rfl)
    decide +kernel
  · refine .output ⟨⟨"."⟩, []⟩ ?_ (by rfl) ?_
    · decide +kernel
    · show ¬ isGenerated "package svc\n" = true
      decide +kernel

end Project

end ServiceWiring
