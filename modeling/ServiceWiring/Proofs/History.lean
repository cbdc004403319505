import ServiceWiring.Proofs.GeneratedText
import ServiceWiring.Proofs.Rerun

/-!
# Passes over a folder that changes

A folder starts without a generated file and a manifest; then its sources are edited and passes
run over it, in any order.  Whatever stands in the two files was written by a pass.

* `PackageSite`, `PassOptions.Lists` — a folder whose sources come and go, and its sources at one
  time;
* `History` — the trees that edits and passes lead through;
* `FolderPass.Wrote`, `History.traced` — every manifest was written by a pass;
* `History.blockless` — the generated file never has preserved blocks.
-/

namespace ServiceWiring

open FileTree FolderPass PassPlan

/-! ## A folder and its sources -/

/-- A folder whose sources come and go.  The path of a source depends on its name alone. -/
structure PackageSite where
  path : Path
  spelling : String → Path
  alike : ∀ name, IsEntryName name → (spelling name).LeadsAlike (path.child name)

/-- The folder with the sources of the given names. -/
def PackageSite.folder (site : PackageSite) (names : List String) : PackageFolder :=
  ⟨site.path, names.map site.spelling⟩

namespace PassOptions

/-- The names of the files that belong to the generator. -/
def ownNames (options : PassOptions) : List String :=
  [options.outputFile, temporaryName options.outputFile, options.cacheFile,
    temporaryName options.cacheFile]

/-- Names that can be those of the sources of a folder, in their order. -/
structure Lists (options : PassOptions) (names : List String) : Prop where
  output : IsEntryName options.outputFile
  cache : IsEntryName options.cacheFile
  own : options.ownNames.Nodup
  entries : ∀ name ∈ names, IsEntryName name
  apart : ∀ name ∈ names, name ∉ options.ownNames
  ascending : names.Pairwise fun a b => compare a b = .lt

end PassOptions

variable {checksum : Checksum} {options : PassOptions} {site : PackageSite} {names : List String}
  {t t' : FileTree} {trees : List FileTree}

namespace PassOptions.Lists

theorem fileName?_spelling (h : options.Lists names) {name : String} (hname : name ∈ names) :
    (site.spelling name).fileName? = some name :=
  (site.alike name (h.entries name hname)).fileName?_eq (h.entries name hname)

theorem filterMap_fileName? (h : options.Lists names) :
    (site.folder names).sources.filterMap Path.fileName? = names := by
  have hall : ∀ part : List String, part ⊆ names →
      (part.map site.spelling).filterMap Path.fileName? = part := by
    intro part hpart
    induction part with
    | nil => rfl
    | cons name part ih =>
        have hname : (site.spelling name).fileName? = some name :=
          h.fileName?_spelling (hpart (List.mem_cons_self ..))
        rw [List.map_cons, List.filterMap_cons_some hname,
          ih fun other hother => hpart (List.mem_cons_of_mem _ hother)]
  exact hall names fun _ h => h

theorem fits (h : options.Lists names) : options.Fits (site.folder names) := by
  refine ⟨h.output, h.cache, ?_, ?_⟩
  · intro p hp
    obtain ⟨name, hname, rfl⟩ := List.mem_map.mp hp
    exact ⟨name, h.entries name hname, site.alike name (h.entries name hname)⟩
  · rw [h.filterMap_fileName?]
    refine List.nodup_append.mpr ⟨h.own, ?_, ?_⟩
    · refine h.ascending.imp ?_
      rintro a b hlt rfl
      rw [Std.compare_self] at hlt
      cases hlt
    · rintro a ha b hb rfl
      exact h.apart a hb ha

/-- A source that was read is spelled as its name says. -/
theorem path_of_mem_inputs (h : options.Lists names) {input : SourceInput}
    (hinput : input ∈ (FolderState.read t (site.folder names) options).inputs) :
    input.path = site.spelling input.name ∧ t.readText input.path = .ok input.content := by
  obtain ⟨source, hsource, hread⟩ := List.mem_filterMap.mp hinput
  obtain ⟨p, hp, rfl⟩ := List.mem_map.mp hsource
  obtain ⟨name, hname, rfl⟩ := List.mem_map.mp hp
  split at hread
  · rename_i path content heq
    obtain ⟨hpath, hcontent⟩ := Prod.mk.inj heq
    subst hpath
    rw [← Option.some.inj hread]
    refine ⟨?_, hcontent⟩
    rw [SourceInput.name, h.fileName?_spelling hname]
    rfl
  · cases hread

end PassOptions.Lists

/-! ## Histories -/

/-- The places of a folder that are open to everyone. -/
def PackageSite.SourcePlaces (site : PackageSite) (options : PassOptions) (t : FileTree)
    (place : Place) : Prop :=
  ∃ dir name, t.folderAt site.path = .ok dir ∧ name ∉ options.ownNames ∧ place = dir ++ [name]

/-- The trees that a folder goes through, the latest first: it starts without a generated file and
    a manifest; files other than the generator's are created, changed and deleted; passes run. -/
inductive History (checksum : Checksum) (options : PassOptions) (site : PackageSite) :
    List FileTree → Prop where
  | start {t : FileTree}
      (houtput : t.readText (site.path.child options.outputFile) = .error .notFound)
      (hmanifest : t.readText (site.path.child options.cacheFile) = .error .notFound) :
      History checksum options site [t]
  | edit {t t' : FileTree} {trees : List FileTree}
      (h : History checksum options site (t :: trees))
      (hedit : Confined (site.SourcePlaces options t) t t') :
      History checksum options site (t' :: t :: trees)
  | pass {t : FileTree} {trees : List FileTree} (h : History checksum options site (t :: trees))
      (names : List String) (hnames : options.Lists names) :
      History checksum options site
        ((runWith checksum options (site.folder names) t).2 :: t :: trees)

/-! ## Manifests come from passes -/

namespace FolderPass

/-- What a pass generates where the given file is. -/
abbrev generated (options : PassOptions) (folder : PackageFolder) (t : FileTree)
    (previous : Option String) : Generation :=
  .made options.runtime (.read t folder options) previous

/-- A pass that generated anew and wrote everything. -/
structure Wrote (checksum : Checksum) (options : PassOptions) (folder : PackageFolder)
    (t : FileTree) (previous : Option String) : Prop where
  found : (FolderState.read t folder options).previous = .ok previous
  stale : isUpToDate checksum options (.read t folder options) previous = false
  report : (runWith checksum options folder t).1
    = (ofGeneration checksum folder (.read t folder options) previous
        (generated options folder t previous)).report

end FolderPass

namespace History

/-- The pass that a manifest found in a tree comes from. -/
structure Origin (checksum : Checksum) (options : PassOptions) (site : PackageSite)
    (trees : List FileTree) (t : FileTree) (m : Manifest) (names : List String)
    (t₀ : FileTree) (previous : Option String) : Prop where
  before : t₀ ∈ trees
  behind : (runWith checksum options (site.folder names) t₀).2 ∈ trees
  lists : options.Lists names
  wrote : Wrote checksum options (site.folder names) t₀ previous
  manifest : m = manifestOf checksum (.read t₀ (site.folder names) options)
    (generated options (site.folder names) t₀ previous)
  /-- The generated file was there at some time. -/
  text : ∀ s, (generated options (site.folder names) t₀ previous).text = some s →
    s ∈ trees.flatMap FileTree.texts
  /-- The folder still has its name. -/
  name : ∀ names', (FolderState.read t (site.folder names') options).name
    = (FolderState.read t₀ (site.folder names) options).name

/-- Whether a manifest that is found comes from a pass. -/
def Traced (checksum : Checksum) (options : PassOptions) (site : PackageSite)
    (trees : List FileTree) (t : FileTree) : Prop :=
  ∀ m, FolderState.readManifest t (site.path.child options.cacheFile) = some m →
    ∃ names t₀ previous, Origin checksum options site trees t m names t₀ previous

theorem Origin.mono {m : Manifest} {t₀ : FileTree} {previous : Option String}
    (h : Origin checksum options site trees t m names t₀ previous) (latest : FileTree) :
    Origin checksum options site (latest :: trees) t m names t₀ previous where
  before := List.mem_cons_of_mem _ h.before
  behind := List.mem_cons_of_mem _ h.behind
  lists := h.lists
  wrote := h.wrote
  manifest := h.manifest
  text := by
    intro s hs
    rw [List.flatMap_cons]
    exact List.mem_append_right _ (h.text s hs)
  name := h.name

theorem Traced.mono (h : Traced checksum options site trees t) (latest : FileTree) :
    Traced checksum options site (latest :: trees) t := by
  intro m hm
  obtain ⟨names, t₀, previous, horigin⟩ := h m hm
  exact ⟨names, t₀, previous, horigin.mono latest⟩

/-- A change that leaves the manifest alone keeps it traced. -/
theorem Traced.of_confined {places : Place → Prop} (h : Traced checksum options site trees t)
    (hcache : IsEntryName options.cacheFile) (hconfined : Confined places t t')
    (hplaces : ∀ dir, t.folderAt site.path = .ok dir → ¬ places (dir ++ [options.cacheFile])) :
    Traced checksum options site trees t' := by
  intro m hm
  obtain ⟨text, htext, hparse⟩ := Option.bind_eq_some_iff.mp hm
  have hread : t'.readText (site.path.child options.cacheFile) = .ok text := by
    cases hr : t'.readText (site.path.child options.cacheFile) with
    | error e => rw [hr] at htext; cases htext
    | ok s => rw [hr] at htext; rw [Option.some.inj htext]
  obtain ⟨dir, hdir', -⟩ := find?_of_readText hcache hread
  have hdir : t.folderAt site.path = .ok dir := hconfined.folderAt_eq_ok.mp hdir'
  have hbefore : FolderState.readManifest t (site.path.child options.cacheFile) = some m := by
    unfold FolderState.readManifest
    rw [← hconfined.readText_child hcache hdir (hplaces dir hdir), hread]
    exact hparse
  obtain ⟨names, t₀, previous, horigin⟩ := h m hbefore
  refine ⟨names, t₀, previous, { horigin with name := ?_ }⟩
  intro names'
  have hsite : t.folderAt (site.folder names').path = .ok dir := hdir
  exact (name_of_confined hconfined hsite).trans (horigin.name names')

/-- The manifest of a pass that wrote everything comes from it. -/
theorem Traced.of_written {previous : Option String} {dir : Place}
    (ht : t ∈ trees) (hnames : options.Lists names)
    (hwrote : Wrote checksum options (site.folder names) t previous)
    (hstep : OutputStep t site.path options.outputFile
      (changeOf (generated options (site.folder names) t previous) previous) t')
    (hcan : t'.CanReplace site.path options.cacheFile dir)
    (hrun : (runWith checksum options (site.folder names) t).2
      = t'.replaced dir options.cacheFile (manifestOf checksum
          (.read t (site.folder names) options)
          (generated options (site.folder names) t previous)).text) :
    Traced checksum options site ((runWith checksum options (site.folder names) t).2 :: trees)
      (runWith checksum options (site.folder names) t).2 := by
  obtain ⟨-, hname, hafter, hmanifest⟩ := read_of_write hnames.fits hwrote.found
    (fun s hs => Generation.isGenerated_of_text hs) hstep hcan
    (manifestOf_version checksum _ _)
  rw [← hrun] at hname hafter hmanifest
  intro m hm
  refine ⟨names, t, previous, ?_⟩
  exact {
    before := List.mem_cons_of_mem _ ht
    behind := List.mem_cons_self ..
    lists := hnames
    wrote := hwrote
    manifest := Option.some.inj (hm.symm.trans hmanifest)
    text := by
      intro s hs
      have hread := output_of_previous hafter
      rw [hs] at hread
      rw [List.flatMap_cons]
      exact List.mem_append_left _ (mem_texts_of_readText hread)
    name := fun _ => hname }

/-- A pass leaves the manifest as it is, or it writes its own. -/
theorem Traced.pass (h : Traced checksum options site trees t) (ht : t ∈ trees)
    (hnames : options.Lists names) (hdry : options.dryRun = false) :
    Traced checksum options site ((runWith checksum options (site.folder names) t).2 :: trees)
      (runWith checksum options (site.folder names) t).2 := by
  rcases runWith_writes checksum t hnames.output hnames.cache hdry with
    hsame | ⟨previous, hfound, hstale, hwrite⟩
  · rw [hsame]
    exact h.mono t
  · generalize hresult : runWith checksum options (site.folder names) t = result at hwrite
    cases hwrite with
    | outputFailed path error hc =>
        -- at most a temporary file is left, and the manifest is not that file
        refine (h.of_confined hnames.cache hc ?_).mono _
        intro dir hdir hplace
        exact not_filePlaces_of_cache hnames.own hdir (filePlaces_of_temporary hplace)
    | manifestFailed path error hstep hc =>
        have hout := h.of_confined hnames.cache hstep.confined fun dir hdir =>
          not_filePlaces_of_cache hnames.own hdir
        refine (hout.of_confined hnames.cache hc ?_).mono _
        intro dir hdir
        exact not_temporaryPlaces hdir
    | written hstep hcan =>
        have htraced := Traced.of_written ht hnames ⟨hfound, hstale, ?_⟩ hstep hcan ?_
        · rw [hresult] at htraced
          exact htraced
        · rw [hresult]
        · rw [hresult]
          rfl

/-- In a history every manifest that is found comes from a pass. -/
theorem traced (hdry : options.dryRun = false) (hcache : IsEntryName options.cacheFile)
    (h : History checksum options site trees) :
    ∀ t ∈ trees.head?, Traced checksum options site trees t := by
  induction h with
  | @start t houtput hmanifest =>
      intro t' ht m hm
      rw [← Option.some.inj ht, FolderState.readManifest, hmanifest] at hm
      cases hm
  | @edit t t' trees h hedit ih =>
      intro t'' ht
      rw [← Option.some.inj ht]
      refine ((ih t rfl).of_confined hcache hedit ?_).mono t'
      rintro dir hdir ⟨dir', name, hdir', hown, hplace⟩
      have hname := (List.cons.inj (List.append_inj_right' hplace rfl)).1
      refine hown (hname ▸ ?_)
      simp [PassOptions.ownNames]
  | @pass t trees h names hnames ih =>
      intro t' ht
      rw [← Option.some.inj ht]
      exact (ih t rfl).pass (List.mem_cons_self ..) hnames hdry

end History

/-! ## The generated file has no preserved blocks -/

/-- The name of the folder. -/
def PackageSite.nameIn (site : PackageSite) (t : FileTree) : Option String :=
  (t.canonical? site.path).bind (·.fileName?)

namespace History

/-- The generated file holds no preserved blocks. -/
def Blockless (options : PassOptions) (site : PackageSite) (t : FileTree) : Prop :=
  ∀ s, t.readText (site.path.child options.outputFile) = .ok s → PreservedBlock.extract s = []

theorem Blockless.of_confined {places : Place → Prop} (h : Blockless options site t)
    (hout : IsEntryName options.outputFile) (hconfined : Confined places t t')
    (hplaces : ∀ dir, t.folderAt site.path = .ok dir → ¬ places (dir ++ [options.outputFile])) :
    Blockless options site t' := by
  intro s hs
  obtain ⟨dir, hdir', -⟩ := find?_of_readText hout hs
  have hdir : t.folderAt site.path = .ok dir := hconfined.folderAt_eq_ok.mp hdir'
  rw [hconfined.readText_child hout hdir (hplaces dir hdir)] at hs
  exact h s hs

theorem Blockless.blocksOf (h : Blockless options site t) {previous : Option String}
    (hfound : (FolderState.read t (site.folder names) options).previous = .ok previous) :
    FolderState.blocksOf previous = [] := by
  cases previous with
  | none => rfl
  | some s => exact h s (output_of_previous hfound)

/-- Changing the generated file as a generation asks brings no preserved blocks in. -/
theorem Blockless.outputStep (h : Blockless options site t) (hruntime : options.runtime.Plain)
    (hname : ∀ name, site.nameIn t = some name → OneLine name)
    (hout : IsEntryName options.outputFile) {previous : Option String}
    (hfound : (FolderState.read t (site.folder names) options).previous = .ok previous)
    (hstep : OutputStep t site.path options.outputFile
      (changeOf (generated options (site.folder names) t previous) previous) t') :
    Blockless options site t' := by
  intro s hs
  obtain ⟨dir, hdir', -⟩ := find?_of_readText hout hs
  have hdir : t.folderAt site.path = .ok dir := hstep.confined.folderAt_eq_ok.mp hdir'
  rw [readText_of_outputStep hout hstep hdir] at hs
  rcases changeOf_cases (generated options (site.folder names) t previous) previous with
    ⟨hkeep, -⟩ | ⟨text, hreplace, htext⟩ | ⟨hremove, -⟩
  · rw [hkeep] at hs
    exact h s hs
  · rw [hreplace] at hs
    have hblocks : FolderState.blocksOf (generated options (site.folder names) t previous).text
        = [] := Generation.blocksOf_text hruntime hname (h.blocksOf hfound)
    rw [htext] at hblocks
    rw [← Except.ok.inj hs]
    exact hblocks
  · rw [hremove] at hs
    cases hs

theorem not_places_of_output (hown : options.ownNames.Nodup) (dir : Place) :
    (dir ++ [options.outputFile] ≠ dir ++ [temporaryName options.outputFile]) ∧
      ¬ ReplacePlaces dir options.cacheFile (dir ++ [options.outputFile]) := by
  simp only [PassOptions.ownNames, List.nodup_cons, List.mem_cons, not_or] at hown
  refine ⟨?_, ?_⟩
  · intro h
    exact hown.1.1 (List.cons.inj (List.append_cancel_left h)).1
  · rintro (h | h)
    · exact hown.1.2.1 (List.cons.inj (List.append_cancel_left h)).1
    · exact hown.1.2.2.1 (List.cons.inj (List.append_cancel_left h)).1

theorem Blockless.pass (h : Blockless options site t) (hruntime : options.runtime.Plain)
    (hname : ∀ name, site.nameIn t = some name → OneLine name) (hnames : options.Lists names)
    (hdry : options.dryRun = false) :
    Blockless options site (runWith checksum options (site.folder names) t).2 := by
  rcases runWith_writes checksum t hnames.output hnames.cache hdry with
    hsame | ⟨previous, hfound, -, hwrite⟩
  · rw [hsame]
    exact h
  · generalize runWith checksum options (site.folder names) t = result at hwrite
    cases hwrite with
    | outputFailed path error hc =>
        refine h.of_confined hnames.output hc ?_
        rintro dir hdir ⟨dir', hdir', hplace⟩
        rw [Except.ok.inj (hdir'.symm.trans hdir)] at hplace
        exact (not_places_of_output hnames.own dir).1 hplace
    | manifestFailed path error hstep hc =>
        refine (h.outputStep hruntime hname hnames.output hfound hstep).of_confined
          hnames.output hc ?_
        rintro dir hdir ⟨dir', hdir', hplace⟩
        rw [Except.ok.inj (hdir'.symm.trans hdir)] at hplace
        exact (not_places_of_output hnames.own dir).2 (Or.inr hplace)
    | written hstep hcan =>
        refine (h.outputStep hruntime hname hnames.output hfound hstep).of_confined
          hnames.output (confined_replaced hcan _) ?_
        intro dir hdir
        have hsame : _ = dir := Except.ok.inj (hcan.folder.symm.trans hdir)
        subst hsame
        exact (not_places_of_output hnames.own _).2

/-- In a history of a folder with a plain name the generated file never has preserved blocks. -/
theorem blockless (h : History checksum options site trees) (hdry : options.dryRun = false)
    (hout : IsEntryName options.outputFile) (hruntime : options.runtime.Plain)
    (hname : ∀ t ∈ trees, ∀ name, site.nameIn t = some name → OneLine name) :
    ∀ t ∈ trees, Blockless options site t := by
  induction h with
  | @start t houtput hmanifest =>
      intro t' ht s hs
      rw [List.mem_singleton.mp ht, houtput] at hs
      cases hs
  | @edit t t' trees h hedit ih =>
      have hbefore := ih fun t ht => hname t (List.mem_cons_of_mem _ ht)
      intro t'' ht
      rcases List.mem_cons.mp ht with rfl | ht
      · refine (hbefore t (List.mem_cons_self ..)).of_confined hout hedit ?_
        rintro dir hdir ⟨dir', name, hdir', hown, hplace⟩
        have hsame := (List.cons.inj (List.append_inj_right' hplace rfl)).1
        exact hown (hsame ▸ List.mem_cons_self ..)
      · exact hbefore t'' ht
  | @pass t trees h names hnames ih =>
      have hbefore := ih fun t ht => hname t (List.mem_cons_of_mem _ ht)
      intro t' ht
      rcases List.mem_cons.mp ht with rfl | ht
      · exact (hbefore t (List.mem_cons_self ..)).pass hruntime
          (hname t (List.mem_cons_of_mem _ (List.mem_cons_self ..))) hnames hdry
      · exact hbefore t' ht

end History

end ServiceWiring
