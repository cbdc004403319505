import ServiceWiring.Proofs.History

/-!
# Passes that have nothing to do

A pass that finds everything as its manifest says reports what the manifest holds.  The manifest
was written by an earlier pass, and the sources are those of that pass that had no errors.  So a
forced dry run agrees exactly when the sources with errors had no part in what was generated.

* `FolderPass.ForcedAgrees` — what a forced dry run reports when a pass has nothing to do;
* `FolderPass.state_of_hit` — what a pass with nothing to do finds;
* `History.forcedAgrees_iff` — when a forced dry run agrees;
* `History.not_forcedAgrees_of_conflict` — a history in which it does not.
-/

namespace ServiceWiring

open FileTree FolderPass PassPlan

variable {checksum : Checksum} {options : PassOptions} {site : PackageSite} {names : List String}
  {t : FileTree} {trees : List FileTree}

/-! ## Nothing to do -/

/-- A folder with the given sources in place of its own. -/
def FolderState.only (state : FolderState) (inputs : List SourceInput) : FolderState :=
  { state with sources := inputs.map fun input => (input.path, .ok input.content) }

theorem FolderState.sources_of_readIssues {state : FolderState} (h : state.readIssues = []) :
    state.sources = state.inputs.map fun input => (input.path, .ok input.content) := by
  unfold readIssues at h
  unfold inputs
  generalize state.sources = sources at h ⊢
  induction sources with
  | nil => rfl
  | cons source sources ih =>
      obtain ⟨path, content | content⟩ := source
      · cases h
      · exact congrArg _ (ih h)

namespace PassOptions.Lists

theorem sorted_sums (h : options.Lists names) (checksum : Checksum) {inputs : List SourceInput}
    (hinputs : inputs.Sublist (FolderState.read t (site.folder names) options).inputs) :
    Checksums.Sorted (sums checksum inputs) := by
  have hall : ((FolderState.read t (site.folder names) options).inputs.map (·.name)).Sublist
      names := by
    have hsub := @names_sublist t options site.path (names.map site.spelling) fun p hp => by
      obtain ⟨name, hname, rfl⟩ := List.mem_map.mp hp
      exact ⟨name, h.fileName?_spelling hname⟩
    have hfiles : (names.map site.spelling).filterMap Path.fileName? = names :=
      h.filterMap_fileName?
    rw [hfiles] at hsub
    exact hsub
  have hnames := h.ascending.sublist ((hinputs.map (·.name)).trans hall)
  rw [← map_fst_sums checksum] at hnames
  exact List.pairwise_map.mp hnames

end PassOptions.Lists

namespace FolderPass

/-- Whether a forced dry run reports the services of a pass and nothing to change. -/
def ForcedAgrees (checksum : Checksum) (options : PassOptions) (folder : PackageFolder)
    (t : FileTree) : Prop :=
  let forced := (runWith checksum { options with force := true, dryRun := true } folder t).1
  forced.services = (runWith checksum options folder t).1.services ∧
    forced.outcome.isChange = false

/-- No two of the given texts have one checksum. -/
def CollisionFree (checksum : Checksum) (texts : List String) : Prop :=
  ∀ a ∈ texts, ∀ b ∈ texts, checksum a = checksum b → a = b

theorem collisionFree_of_ne {texts : List String} {a b : String} (hsub : texts ⊆ [a, b])
    (hne : checksum a ≠ checksum b) : CollisionFree checksum texts := by
  intro x hx y hy h
  have hxy := hsub hx
  have hyx := hsub hy
  simp only [List.mem_cons, List.not_mem_nil, or_false] at hxy hyx
  rcases hxy with rfl | rfl
  · rcases hyx with rfl | rfl
    · rfl
    · exact absurd h hne
  · rcases hyx with rfl | rfl
    · exact absurd h.symm hne
    · rfl

theorem runWith_forced {folder : PackageFolder} {previous : Option String}
    (hfound : (FolderState.read t folder options).previous = .ok previous) :
    (runWith checksum { options with force := true, dryRun := true } folder t).1
      = (ofGeneration checksum folder (.read t folder options) previous
          (generated options folder t previous)).report := by
  have hread : FolderState.read t folder { options with force := true, dryRun := true }
      = .read t folder options := rfl
  rw [← hread] at hfound
  rw [runWith_of_dry rfl hfound (not_upToDate_of_force checksum rfl _ previous)]
  rfl

theorem isChange_outcome_eq_false_iff (g : Generation) (previous : Option String) :
    (g.outcome previous).isChange = false ↔ g.text = previous := by
  cases htext : g.text with
  | none =>
      cases previous with
      | none => simp [Generation.outcome, htext, FolderOutcome.isChange]
      | some old => simp [Generation.outcome, htext, FolderOutcome.isChange]
  | some text =>
      cases previous with
      | none => simp [Generation.outcome, htext, FolderOutcome.isChange]
      | some old =>
          by_cases hold : text = old
          · simp [Generation.outcome, htext, FolderOutcome.isChange, hold]
          · simp [Generation.outcome, htext, FolderOutcome.isChange, hold]

/-- Sources with the same names and checksums are the same where no two texts collide. -/
theorem eq_of_sums_eq {texts : List String} (hfree : CollisionFree checksum texts)
    {a b : List SourceInput}
    (ha : ∀ input ∈ a, input.path = site.spelling input.name ∧ input.content ∈ texts)
    (hb : ∀ input ∈ b, input.path = site.spelling input.name ∧ input.content ∈ texts)
    (h : sums checksum a = sums checksum b) : a = b := by
  induction a generalizing b with
  | nil =>
      cases b with
      | nil => rfl
      | cons y b => cases h
  | cons x a ih =>
      cases b with
      | nil => cases h
      | cons y b =>
          obtain ⟨hfirst, hrest⟩ := List.cons.inj h
          obtain ⟨hname, hsum⟩ := Prod.mk.inj hfirst
          obtain ⟨hxpath, hxtext⟩ := ha x (List.mem_cons_self ..)
          obtain ⟨hypath, hytext⟩ := hb y (List.mem_cons_self ..)
          have hpath : x.path = y.path := by rw [hxpath, hypath, hname]
          -- both texts are among those that do not collide
          have hcontent := hfree _ hxtext _ hytext hsum
          have hxy : x = y := by
            cases x with
            | mk path content =>
                cases y with
                | mk path' content' =>
                    dsimp only at hpath hcontent
                    rw [hpath, hcontent]
          rw [hxy, ih (fun input hi => ha input (List.mem_cons_of_mem _ hi))
            (fun input hi => hb input (List.mem_cons_of_mem _ hi)) hrest]

/-- A pass that has nothing to do finds the error-free sources of the pass that wrote the
    manifest, and the file that pass generated. -/
theorem state_of_hit {m : Manifest} {names₀ : List String} {t₀ : FileTree}
    {previous previous₀ : Option String} (hforce : options.force = false)
    (hnames : options.Lists names) (ht : t ∈ trees)
    (hfree : CollisionFree checksum (trees.flatMap FileTree.texts))
    (horigin : History.Origin checksum options site trees t m names₀ t₀ previous₀)
    (hm : (FolderState.read t (site.folder names) options).manifest = some m)
    (hfound : (FolderState.read t (site.folder names) options).previous = .ok previous)
    (hcurrent : isUpToDate checksum options (.read t (site.folder names) options) previous = true) :
    let state₀ := FolderState.read t₀ (site.folder names₀) options
    let g₀ := generated options (site.folder names₀) t₀ previous₀
    (FolderState.read t (site.folder names) options).sources
        = (state₀.only (sound g₀.issues state₀.inputs)).sources ∧
      previous = g₀.text := by
  intro state₀ g₀
  have hrecorded : recorded options (.read t (site.folder names) options) = some m := by
    rw [recorded, hforce, if_neg Bool.false_ne_true, hm]
  obtain ⟨hunchanged, hreadable, -, m', hm', houtput⟩ := isUpToDate_iff.mp hcurrent
  rw [hrecorded] at hunchanged hm'
  rw [← Option.some.inj hm', horigin.manifest] at houtput
  rw [horigin.manifest] at hunchanged
  have hheld : ∀ {s : String} {tree : FileTree}, tree ∈ trees → s ∈ tree.texts →
      s ∈ trees.flatMap FileTree.texts := fun htree hs => List.mem_flatMap.mpr ⟨_, htree, hs⟩
  refine ⟨?_, ?_⟩
  · rw [FolderState.sources_of_readIssues hreadable]
    refine congrArg _ (@eq_of_sums_eq checksum site _ hfree _ _ ?_ ?_ ?_)
    · intro input hinput
      obtain ⟨hpath, hread⟩ := hnames.path_of_mem_inputs hinput
      exact ⟨hpath, hheld ht (mem_texts_of_readText hread)⟩
    · intro input hinput
      obtain ⟨hpath, hread⟩ :=
        horigin.lists.path_of_mem_inputs (List.mem_filter.mp hinput).1
      exact ⟨hpath, hheld horigin.before (mem_texts_of_readText hread)⟩
    · -- both lists of checksums are sorted, so the recorded map is the list itself
      rw [eq_recordedFiles_of_unchanged (hnames.sorted_sums checksum (List.Sublist.refl _))
        hunchanged]
      exact Checksums.entries_ofPairs
        (horigin.lists.sorted_sums checksum List.filter_sublist)
  · change g₀.text.map checksum = previous.map checksum at houtput
    cases hprevious : previous with
    | none =>
        rw [hprevious] at houtput
        exact (Option.map_eq_none_iff.mp houtput).symm
    | some old =>
        rw [hprevious] at houtput
        obtain ⟨text, htext, hsum⟩ := Option.map_eq_some_iff.mp houtput
        have hread := output_of_previous hfound
        rw [hprevious] at hread
        rw [htext, hfree text (horigin.text text htext) old
          (hheld ht (mem_texts_of_readText hread)) hsum]

/-- A forced dry run agrees with a pass that has nothing to do exactly when generating from the
    error-free sources alone gives what the pass that wrote the manifest generated. -/
theorem forcedAgrees_of_origin {m : Manifest} {names₀ : List String} {t₀ : FileTree}
    {previous previous₀ : Option String} (hforce : options.force = false)
    (hnames : options.Lists names) (ht : t ∈ trees)
    (hfree : CollisionFree checksum (trees.flatMap FileTree.texts))
    (horigin : History.Origin checksum options site trees t m names₀ t₀ previous₀)
    (hm : (FolderState.read t (site.folder names) options).manifest = some m)
    (hfound : (FolderState.read t (site.folder names) options).previous = .ok previous)
    (hcurrent : isUpToDate checksum options (.read t (site.folder names) options) previous = true) :
    let state₀ := FolderState.read t₀ (site.folder names₀) options
    let g₀ := generated options (site.folder names₀) t₀ previous₀
    let again := Generation.made options.runtime
      (state₀.only (sound g₀.issues state₀.inputs)) g₀.text
    ForcedAgrees checksum options (site.folder names) t ↔
      again.services = g₀.services ∧ again.text = g₀.text := by
  intro state₀ g₀ again
  obtain ⟨hsources, hprevious⟩ :=
    state_of_hit hforce hnames ht hfree horigin hm hfound hcurrent
  -- the sources that are found now are those that had no error then
  have hagain : generated options (site.folder names) t previous = again := by
    rw [hprevious]
    exact Generation.made_congr hsources (horigin.name names) options.runtime g₀.text
  have hservices : (runWith checksum options (site.folder names) t).1.services = g₀.services := by
    rw [runWith_of_upToDate hfound hcurrent]
    show recordedServices (recorded options _) = _
    rw [recorded, hforce, if_neg Bool.false_ne_true, hm, horigin.manifest]
    rfl
  unfold ForcedAgrees
  dsimp only
  rw [runWith_forced hfound, hservices, hagain]
  refine and_congr Iff.rfl ?_
  rw [← hprevious]
  exact isChange_outcome_eq_false_iff again previous

end FolderPass

/-! ## Histories -/

/-- Whether the sources with errors have no part in what is generated: without them it is the
    same. -/
def FolderState.ErrorsIdle (state : FolderState) (runtime : ImportEntry) : Prop :=
  let alone := Generation.made runtime (state.only (sound state.issues state.inputs)) none
  let all := Generation.made runtime state none
  alone.services = all.services ∧ alone.text = all.text

theorem FolderState.errorsIdle_of_noErrors {state : FolderState}
    (h : ∀ i ∈ state.issues, i.isError = false) (runtime : ImportEntry) :
    state.ErrorsIdle runtime := by
  have hread : state.readIssues = [] := by
    rw [List.eq_nil_iff_forall_not_mem]
    intro i hi
    have herror := Generation.isError_of_readIssues hi
    rw [h i (Generation.mem_issues_of_readIssues hi)] at herror
    cases herror
  have hsame : Generation.made runtime (state.only (sound state.issues state.inputs)) none
      = .made runtime state none := by
    have hsources : (state.only state.inputs).sources = state.sources :=
      (sources_of_readIssues hread).symm
    rw [sound_eq_self h]
    exact Generation.made_congr hsources rfl runtime none
  unfold ErrorsIdle
  dsimp only
  rw [hsame]
  exact ⟨rfl, rfl⟩

/-- Whenever a pass of a history has nothing to do, an earlier pass wrote its manifest.  A forced
    dry run agrees exactly when that pass would have generated the same from its error-free sources
    alone.  With plain names preserved blocks never come in, and it agrees in particular if that
    pass reported no errors. -/
theorem History.forcedAgrees_iff (h : History checksum options site (t :: trees))
    (hforce : options.force = false) (hdry : options.dryRun = false)
    (hnames : options.Lists names)
    (hfree : CollisionFree checksum ((t :: trees).flatMap FileTree.texts))
    (hhit : isHit checksum options (site.folder names) t = true) :
    ∃ names₀ t₀ previous₀, t₀ ∈ t :: trees ∧
      (runWith checksum options (site.folder names₀) t₀).2 ∈ t :: trees ∧
      Wrote checksum options (site.folder names₀) t₀ previous₀ ∧
      let state₀ := FolderState.read t₀ (site.folder names₀) options
      let g₀ := generated options (site.folder names₀) t₀ previous₀
      let again := Generation.made options.runtime
        (state₀.only (sound g₀.issues state₀.inputs)) g₀.text
      (ForcedAgrees checksum options (site.folder names) t ↔
        again.services = g₀.services ∧ again.text = g₀.text) ∧
      (options.runtime.Plain →
        (∀ tree ∈ t :: trees, ∀ name, site.nameIn tree = some name → OneLine name) →
        (ForcedAgrees checksum options (site.folder names) t ↔ state₀.ErrorsIdle options.runtime) ∧
        ((runWith checksum options (site.folder names₀) t₀).1.hasErrors = false →
          ForcedAgrees checksum options (site.folder names) t)) := by
  unfold isHit at hhit
  cases hfound : FolderState.previous (.read t (site.folder names) options) with
  | error reason =>
      rw [hfound] at hhit
      exact nomatch hhit
  | ok previous =>
      rw [hfound] at hhit
      obtain ⟨m, hm, -⟩ := (isUpToDate_iff.mp hhit).2.2.2
      rw [recorded, hforce, if_neg Bool.false_ne_true] at hm
      obtain ⟨names₀, t₀, previous₀, horigin⟩ := h.traced hdry hnames.cache t rfl m hm
      have hiff := forcedAgrees_of_origin hforce hnames (List.mem_cons_self ..) hfree horigin hm
        hfound hhit
      refine ⟨names₀, t₀, previous₀, horigin.before, horigin.behind, horigin.wrote, hiff, ?_⟩
      intro hruntime hname
      -- neither the file of that pass nor the one in front of it has preserved blocks
      have hblockless := h.blockless hdry hnames.output hruntime hname t₀ horigin.before
      have hblocks := hblockless.blocksOf horigin.wrote.found
      have hbehind : FolderState.blocksOf (generated options (site.folder names₀) t₀ previous₀).text
          = [] := Generation.blocksOf_text hruntime (hname t₀ horigin.before) hblocks
      have hidle : ForcedAgrees checksum options (site.folder names) t ↔
          (FolderState.read t₀ (site.folder names₀) options).ErrorsIdle options.runtime := by
        have hagain := fun state =>
          @Generation.made_of_blocksOf _ none hbehind options.runtime state
        have hfirst : generated options (site.folder names₀) t₀ previous₀
            = .made options.runtime (.read t₀ (site.folder names₀) options) none :=
          Generation.made_of_blocksOf hblocks options.runtime _
        refine hiff.trans ?_
        rw [hagain, hfirst]
        exact Iff.rfl
      refine ⟨hidle, ?_⟩
      intro hok
      refine hidle.mpr (FolderState.errorsIdle_of_noErrors ?_ options.runtime)
      intro i hi
      rw [horigin.wrote.report] at hok
      exact Bool.eq_false_iff.mpr (List.any_eq_false.mp hok i hi)

/-! ## Sources that are deleted

Two sources mark services of one name, and both services are left out.  The error stands in the
second source, so only the first one is recorded.  When the second source is deleted, all that is
recorded is unchanged, and the service of the first source is still missing. -/

/-- A folder whose sources are spelled as its children. -/
def sampleSite : PackageSite where
  path := ⟨"svc"⟩
  spelling := Path.child ⟨"svc"⟩
  alike := fun _ _ => ⟨rfl, rfl⟩

/-- The tree behind a pass over the sources of the given names. -/
def behindPass (names : List String) (t : FileTree) : FileTree :=
  (runWith Sha256.ofText sampleOptions (sampleSite.folder names) t).2

/-- The same tree with one source deleted. -/
def behindDeletion (names : List String) (name : String) (t : FileTree) : FileTree :=
  (behindPass names t).erase ["svc", name]

theorem history_of_deletion {t : FileTree} {names : List String} {name : String}
    (hstart : History Sha256.ofText sampleOptions sampleSite [t])
    (hnames : sampleOptions.Lists names) (hname : name ∉ sampleOptions.ownNames)
    (hfolder : t.folderAt sampleSite.path = .ok ["svc"])
    (hfile : (behindPass names t).find? ["svc", name] ≠ some .directory) :
    History Sha256.ofText sampleOptions sampleSite
      [behindDeletion names name t, behindPass names t, t] := by
  have hbehind : (behindPass names t).folderAt sampleSite.path = .ok ["svc"] :=
    (confined_runWith Sha256.ofText t hnames.output hnames.cache).folderAt_eq_ok.mpr hfolder
  refine .edit (.pass hstart names hnames) ((Confined.erase (List.cons_ne_nil _ _) hfile).mono ?_)
  rintro place rfl
  exact ⟨["svc"], name, hbehind, hname, rfl⟩

theorem lists_sample {names : List String} (hentries : ∀ name ∈ names, IsEntryName name)
    (hapart : ∀ name ∈ names, name ∉ sampleOptions.ownNames)
    (hascending : names.Pairwise fun a b => compare a b = .lt) : sampleOptions.Lists names :=
  ⟨by decide, by decide, by decide +kernel, hentries, hapart, hascending⟩

/-- A source with a directive that cannot be read. -/
def brokenSource : String :=
  "package svc\n\n// @Service(\ntype A struct\x7b\x7d\n"

theorem history_broken : History Sha256.ofText sampleOptions sampleSite
    [behindDeletion ["a.go"] "a.go" (sampleTree brokenSource),
      behindPass ["a.go"] (sampleTree brokenSource), sampleTree brokenSource] := by
  refine history_of_deletion (.start (by rfl) (by rfl)) ?_ (by decide +kernel) (by rfl)
    (by decide +kernel)
  exact lists_sample (by decide) (by decide +kernel) (by decide +kernel)

theorem collisionFree_broken : CollisionFree Sha256.ofText
    ([behindDeletion ["a.go"] "a.go" (sampleTree brokenSource),
      behindPass ["a.go"] (sampleTree brokenSource),
      sampleTree brokenSource].flatMap FileTree.texts) := by
  have hheld : [behindDeletion ["a.go"] "a.go" (sampleTree brokenSource),
      behindPass ["a.go"] (sampleTree brokenSource),
      sampleTree brokenSource].flatMap FileTree.texts
        ⊆ [brokenSource, Manifest.text ⟨1, .empty, none, []⟩] := by
    decide +kernel
  exact collisionFree_of_ne hheld (by decide +kernel)

/-- When its only source, which is broken, is deleted, a pass has nothing to do. -/
theorem History.forcedAgrees_iff_of_broken :
    let gone := behindDeletion ["a.go"] "a.go" (sampleTree brokenSource)
    isHit Sha256.ofText sampleOptions (sampleSite.folder []) gone = true ∧
      ∃ names₀ t₀, t₀ ∈ [gone, behindPass ["a.go"] (sampleTree brokenSource),
          sampleTree brokenSource] ∧
        (ForcedAgrees Sha256.ofText sampleOptions (sampleSite.folder []) gone ↔
          FolderState.ErrorsIdle (.read t₀ (sampleSite.folder names₀) sampleOptions)
            sampleOptions.runtime) := by
  have hhit : isHit Sha256.ofText sampleOptions (sampleSite.folder [])
      (behindDeletion ["a.go"] "a.go" (sampleTree brokenSource)) = true := by decide +kernel
  obtain ⟨names₀, t₀, previous₀, ht₀, -, -, -, hplain⟩ :=
    forcedAgrees_iff history_broken rfl rfl (lists_sample (by decide) (by decide) (by decide))
      collisionFree_broken hhit
  refine ⟨hhit, names₀, t₀, ht₀, (hplain ⟨by decide, by decide, by decide⟩ ?_).1⟩
  have hsvc : ∀ tree ∈ [behindDeletion ["a.go"] "a.go" (sampleTree brokenSource),
      behindPass ["a.go"] (sampleTree brokenSource), sampleTree brokenSource],
      sampleSite.nameIn tree = some "svc" := by decide +kernel
  intro tree htree name hname
  rw [hsvc tree htree] at hname
  rw [← Option.some.inj hname]
  decide

/-- Two sources with services of one name. -/
def conflictTree : FileTree :=
  let source (structName : String) : String :=
    "package svc\n\n// @Service(\"X\")\ntype " ++ structName ++ " struct\x7b\x7d\n"
  { entries := [(["svc"], .directory), (["svc", "a.go"], .file (.text (source "A"))),
      (["svc", "b.go"], .file (.text (source "B")))] }

theorem services_of_conflict :
    let gone := behindDeletion ["a.go", "b.go"] "b.go" conflictTree
    let forced := { sampleOptions with force := true, dryRun := true }
    isHit Sha256.ofText sampleOptions (sampleSite.folder ["a.go"]) gone = true ∧
      (runWith Sha256.ofText sampleOptions (sampleSite.folder ["a.go"]) gone).1.services = [] ∧
      (runWith Sha256.ofText forced (sampleSite.folder ["a.go"]) gone).1.services = ["X"] := by
  decide +kernel

/-- When the second source is deleted a pass has nothing to do, but a forced dry run finds the
    service of the first source. -/
theorem History.not_forcedAgrees_of_conflict :
    let gone := behindDeletion ["a.go", "b.go"] "b.go" conflictTree
    History Sha256.ofText sampleOptions sampleSite
        [gone, behindPass ["a.go", "b.go"] conflictTree, conflictTree] ∧
      sampleOptions.Lists ["a.go"] ∧
      isHit Sha256.ofText sampleOptions (sampleSite.folder ["a.go"]) gone = true ∧
      ¬ ForcedAgrees Sha256.ofText sampleOptions (sampleSite.folder ["a.go"]) gone := by
  obtain ⟨hhit, hservices, hforced⟩ := services_of_conflict
  refine ⟨?_, lists_sample (by decide) (by decide +kernel) (by decide +kernel), hhit, ?_⟩
  · refine history_of_deletion (.start (by rfl) (by rfl)) ?_ (by decide +kernel) (by rfl)
      (by decide +kernel)
    exact lists_sample (by decide) (by decide +kernel) (by decide +kernel)
  · rintro ⟨hsame, -⟩
    rw [hservices, hforced] at hsame
    exact nomatch hsame

end ServiceWiring
