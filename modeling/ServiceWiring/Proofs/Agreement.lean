import ServiceWiring.Proofs.Rerun

/-!
# The generated file and the manifest agree

A folder starts without a manifest.  Then its sources and its generated file are edited in any way,
and passes run over it, forced or not, each over the sources of its time.  Every manifest on the
way records services exactly if it records a generated file.  So whether a pass generates anew or
has nothing to do, it leaves a generated file exactly if it reports services, and a manifest that
speaks for both.

* `Manifest.Balanced` — a manifest with services exactly if it has a generated file;
* `FolderPass.Run` — the trees that edits and passes lead to;
* `FolderPass.readManifest_runWith`, `FolderPass.Run.balanced` — every manifest is balanced, by one
  pass and along a run;
* `FolderPass.Agrees`, `FolderPass.Run.agrees` — what every pass of a run leaves behind.
-/

namespace ServiceWiring

/-- A manifest with services exactly if it has a generated file. -/
def Manifest.Balanced (m : Manifest) : Prop :=
  m.services = [] ↔ m.output = none

/-- A generation has services exactly if it has a file. -/
theorem Generation.services_eq_nil_iff (runtime : ImportEntry) (state : FolderState)
    (previous : Option String) :
    (made runtime state previous).services = [] ↔ (made runtime state previous).text = none := by
  show state.planned.1.map _ = [] ↔ state.textWith runtime _ = none
  unfold FolderState.textWith
  rw [List.map_eq_nil_iff, ← List.isEmpty_iff]
  constructor
  · intro hempty
    rw [if_pos hempty]
  · intro hnone
    split at hnone
    · assumption
    · cases hnone

theorem PassPlan.balanced_manifestOf (checksum : Checksum) (runtime : ImportEntry)
    (state : FolderState) (previous : Option String) :
    (manifestOf checksum state (.made runtime state previous)).Balanced := by
  show (Generation.made runtime state previous).services = [] ↔ Option.map checksum _ = none
  rw [Option.map_eq_none_iff]
  exact Generation.services_eq_nil_iff runtime state previous

/-! ## Files that are read -/

namespace FileTree

variable {t t' : FileTree} {base : Path} {name : String}

theorem exists?_of_readText {p : Path} {text : String} (h : t.readText p = .ok text) :
    t.exists? p = true := by
  obtain ⟨entry, hentry, -⟩ := bind_eq_ok h
  unfold exists?
  rw [hentry]
  rfl

theorem not_exists?_of_readText {p : Path} (h : t.readText p = .error .notFound) :
    t.exists? p = false := by
  unfold exists?
  cases hentry : t.entryAt p with
  | error e => rfl
  | ok found =>
      obtain ⟨place, entry⟩ := found
      unfold readText at h
      rw [hentry] at h
      cases entry with
      | directory => cases h
      | file content =>
          cases content with
          | bytes data => cases h
          | text s => cases h

/-- A manifest that is none of the changed files is read as before. -/
theorem Confined.readManifest {places : Place → Prop} (h : Confined places t t')
    (hn : IsEntryName name)
    (hplaces : ∀ dir, t.folderAt base = .ok dir → ¬ places (dir ++ [name])) :
    FolderState.readManifest t' (base.child name) = FolderState.readManifest t (base.child name) := by
  unfold FolderState.readManifest
  cases hdir : t.folderAt base with
  | ok dir => rw [h.readText_child hn hdir (hplaces dir hdir)]
  | error e =>
      -- without its folder the manifest cannot be read in either tree
      have hnone : ∀ tree : FileTree, (∀ dir, tree.folderAt base ≠ .ok dir) →
          (tree.readText (base.child name)).toOption = none := by
        intro tree hfolder
        cases hread : tree.readText (base.child name) with
        | error e => rfl
        | ok text =>
            obtain ⟨dir, hfound, -⟩ := find?_of_readText hn hread
            exact absurd hfound (hfolder dir)
      have hmissing : ∀ dir, t.folderAt base ≠ .ok dir := by
        intro dir hfound
        exact nomatch hdir.symm.trans hfound
      rw [hnone t hmissing, hnone t' fun dir hfound => hmissing dir (h.folderAt_eq_ok.mp hfound)]

end FileTree

namespace FolderPass

open FileTree PassPlan

variable {t t' : FileTree} {checksum : Checksum} {options : PassOptions} {folder : PackageFolder}
  {path : Path}

/-! ## Runs -/

/-- The trees that a folder can come to: it starts without a manifest; everything but the manifest
    is edited in any way; passes run over the sources of the time, forced or not. -/
inductive Run (checksum : Checksum) (options : PassOptions) (path : Path) : FileTree → Prop where
  | start {t : FileTree}
      (hmanifest : FolderState.readManifest t (path.child options.cacheFile) = none) :
      Run checksum options path t
  | edit {t t' : FileTree} (h : Run checksum options path t)
      (hmanifest : t'.readText (path.child options.cacheFile)
        = t.readText (path.child options.cacheFile)) :
      Run checksum options path t'
  | pass {t : FileTree} (h : Run checksum options path t) (sources : List Path) (force : Bool)
      (hfits : options.Fits ⟨path, sources⟩) :
      Run checksum options path (runWith checksum { options with force } ⟨path, sources⟩ t).2

/-- A pass leaves the manifest as it is, or it writes that of a generation. -/
theorem readManifest_runWith (checksum : Checksum) (t : FileTree) (hfits : options.Fits folder)
    (hdry : options.dryRun = false) :
    let after := FolderState.readManifest (runWith checksum options folder t).2
      (options.cachePath folder)
    after = FolderState.readManifest t (options.cachePath folder) ∨
    ∃ previous, after = some (manifestOf checksum (.read t folder options)
      (.made options.runtime (.read t folder options) previous)) := by
  intro after
  rcases runWith_writes checksum t hfits.output hfits.cache hdry with
    hsame | ⟨previous, hprevious, -, hwrite⟩
  · exact Or.inl (by rw [← hsame])
  · generalize hresult : runWith checksum options folder t = result at hwrite
    have hafter : after = FolderState.readManifest result.2 (options.cachePath folder) := by
      rw [← hresult]
    rw [hafter]
    cases hwrite with
    -- what a failure leaves behind is beside the manifest
    | outputFailed file error hc =>
        refine Or.inl (hc.readManifest hfits.cache ?_)
        intro dir hdir hplace
        exact not_filePlaces_of_cache hfits.own hdir (filePlaces_of_temporary hplace)
    | @manifestFailed t₁ _ file error hstep hc =>
        have hkept := hstep.confined.readManifest hfits.cache fun dir hdir =>
          not_filePlaces_of_cache hfits.own hdir
        refine Or.inl (Eq.trans ?_ hkept)
        exact hc.readManifest hfits.cache fun dir hdir => not_temporaryPlaces hdir
    | written hstep hcan =>
        refine Or.inr ⟨previous, ?_⟩
        exact manifest_of_replaced hfits.cache hcan (manifestOf_version checksum _ _)
         

/-- In a run every manifest is balanced. -/
theorem Run.balanced (hdry : options.dryRun = false) (h : Run checksum options path t) :
    ∀ m, FolderState.readManifest t (path.child options.cacheFile) = some m → m.Balanced := by
  induction h with
  | start hmanifest =>
      intro m hm
      exact nomatch hmanifest.symm.trans hm
  | edit h hmanifest ih =>
      intro m hm
      refine ih m ?_
      unfold FolderState.readManifest at hm ⊢
      rw [← hmanifest]
      exact hm
  | pass h sources force hfits ih =>
      intro m hm
      have hfits' : PassOptions.Fits { options with force } ⟨path, sources⟩ :=
        ⟨hfits.output, hfits.cache, hfits.sources, hfits.apart⟩
      rcases readManifest_runWith checksum _ hfits' hdry with hsame | ⟨previous, hwritten⟩
      · exact ih m (hsame.symm.trans hm)
      · rw [← Option.some.inj (hwritten.symm.trans hm)]
        exact balanced_manifestOf checksum _ _ previous

/-! ## What a pass leaves behind -/

/-- The generated file and the manifest of a folder agree with the report of a pass: there is a
    generated file exactly if there are services, it is one that was generated, and the manifest
    records the services and the checksum of the file. -/
structure Agrees (checksum : Checksum) (options : PassOptions) (folder : PackageFolder)
    (report : FolderReport) (t : FileTree) : Prop where
  exists_iff : t.exists? (options.outputPath folder) = true ↔ report.services ≠ []
  generated : t.exists? (options.outputPath folder) = true →
    ∃ text, t.readText (options.outputPath folder) = .ok text ∧ isGenerated text = true
  manifest : ∃ m, FolderState.readManifest t (options.cachePath folder) = some m ∧
    m.services = report.services ∧
    m.output = (t.readText (options.outputPath folder)).toOption.map checksum

theorem isGenerated_of_previous {state : FolderState} {text : String}
    (h : state.previous = .ok (some text)) : isGenerated text = true := by
  unfold FolderState.previous at h
  split at h
  · split at h
    · rename_i hgenerated
      rw [← Option.some.inj (Except.ok.inj h)]
      exact hgenerated
    · cases h
  · cases h
  · cases h

/-- A folder agrees with the services of a balanced manifest for the file that is there. -/
theorem agrees_of_balanced {report : FolderReport} {m : Manifest} {text : Option String}
    (hmanifest : (FolderState.read t folder options).manifest = some m) (hbalanced : m.Balanced)
    (hservices : m.services = report.services)
    (hprevious : (FolderState.read t folder options).previous = .ok text)
    (houtput : m.output = text.map checksum) : Agrees checksum options folder report t := by
  have hread : t.readText (options.outputPath folder) = text.elim (.error .notFound) .ok :=
    output_of_previous hprevious
  -- the manifest has a checksum just when it has services
  have hnone : report.services = [] ↔ text = none := by
    rw [← hservices]
    refine hbalanced.trans ?_
    rw [houtput, Option.map_eq_none_iff]
  cases text with
  | none =>
      have hmissing := not_exists?_of_readText hread
      refine ⟨?_, ?_, m, hmanifest, hservices, ?_⟩
      · rw [hmissing]
        constructor
        · intro hfound
          cases hfound
        · intro hsome
          exact absurd (hnone.mpr rfl) hsome
      · intro hexists
        exact nomatch hmissing.symm.trans hexists
      · rw [houtput, hread]
        rfl
  | some s =>
      have hexists := exists?_of_readText hread
      refine ⟨?_, ?_, m, hmanifest, hservices, ?_⟩
      · rw [hexists]
        constructor
        · intro _ hempty
          exact nomatch hnone.mp hempty
        · intro _
          rfl
      · intro _
        exact ⟨s, hread, isGenerated_of_previous hprevious⟩
      · rw [houtput, hread]
        rfl

/-- After every pass of a run that reports no failure the generated file and the manifest agree
    with its report. -/
theorem Run.agrees (hdry : options.dryRun = false) (h : Run checksum options path t)
    (sources : List Path) (force : Bool) (hfits : options.Fits ⟨path, sources⟩)
    (hok : ∀ i ∈ (runWith checksum { options with force } ⟨path, sources⟩ t).1.issues,
      i.isInternal = false) :
    Agrees checksum options ⟨path, sources⟩
      (runWith checksum { options with force } ⟨path, sources⟩ t).1
      (runWith checksum { options with force } ⟨path, sources⟩ t).2 := by
  have hfits' : PassOptions.Fits { options with force } ⟨path, sources⟩ :=
    ⟨hfits.output, hfits.cache, hfits.sources, hfits.apart⟩
  rcases runWith_cases checksum t hfits'.output hfits'.cache hdry with
    ⟨i, hi, hinternal⟩ | ⟨previous, hprevious, hcurrent, hrun⟩ |
      ⟨previous, t', dir, hprevious, -, hstep, hcan, hrun⟩
  · exact nomatch (hok i hi).symm.trans hinternal
  · -- there was nothing to do: the manifest that counts is the one that is there
    obtain ⟨-, -, -, m, hrecorded, houtput⟩ := isUpToDate_iff.mp hcurrent
    have hmanifest : (FolderState.read t ⟨path, sources⟩ options).manifest = some m := by
      unfold recorded at hrecorded
      split at hrecorded
      · exact nomatch hrecorded
      · exact hrecorded
    rw [hrun, hrecorded]
    exact agrees_of_balanced hmanifest (h.balanced hdry m hmanifest) rfl hprevious houtput
  · -- the pass has written the file and the manifest of one generation
    obtain ⟨-, -, hafter, hmanifest⟩ := read_of_write hfits' hprevious
      (fun s hs => Generation.isGenerated_of_text hs) hstep hcan
      (manifestOf_version checksum _ _)
    rw [hrun]
    exact agrees_of_balanced hmanifest (balanced_manifestOf checksum _ _ previous) rfl hafter rfl

/-- The tree of the sample behind a pass. -/
def generatedTree : FileTree :=
  (runWith Sha256.ofText sampleOptions sampleFolder
    (sampleTree "package svc\n\n// @Service\ntype A struct\x7b\x7d\n")).2

/-- The same tree with a source that marks nothing any more. -/
def emptiedTree : FileTree :=
  generatedTree.put ["svc", "a.go"] (.file (.text "package svc\n"))

/-- That tree with a generated file that was edited too. -/
def editedTree : FileTree :=
  emptiedTree.put ["svc", "zz_wiregen.go"] (.file (.text (generatedHeader ++ "\n// edited\n")))

theorem run_edited : Run Sha256.ofText sampleOptions ⟨"svc"⟩ editedTree := by
  have hstart : Run Sha256.ofText sampleOptions ⟨"svc"⟩
      (sampleTree "package svc\n\n// @Service\ntype A struct\x7b\x7d\n") := .start rfl
  have hdir : generatedTree.folderAt ⟨"svc"⟩ = .ok ["svc"] :=
    (confined_runWith Sha256.ofText _ fits_sample.output fits_sample.cache).folderAt_eq_ok.mpr rfl
  have hsource : Confined (· = ["svc", "a.go"]) generatedTree emptiedTree :=
    Confined.put (List.cons_ne_nil _ _) (by decide +kernel) _
  have houtput : Confined (· = ["svc", "zz_wiregen.go"]) emptiedTree editedTree :=
    Confined.put (List.cons_ne_nil _ _) (by decide +kernel) _
  have hpass : Run Sha256.ofText sampleOptions ⟨"svc"⟩ generatedTree :=
    .pass hstart [⟨"svc/a.go"⟩] false fits_sample
  have hemptied : Run Sha256.ofText sampleOptions ⟨"svc"⟩ emptiedTree :=
    hpass.edit (hsource.readText_child fits_sample.cache hdir (by decide))
  exact hemptied.edit (houtput.readText_child fits_sample.cache
    (hsource.folderAt_eq_ok.mpr hdir) (by decide))

/-- When its only service goes, the generated file goes with it. -/
theorem Run.agrees_of_edited :
    let ran := runWith Sha256.ofText { sampleOptions with force := true } ⟨⟨"svc"⟩, [⟨"svc/a.go"⟩]⟩
      editedTree
    ran.1 = { folder := ⟨"svc"⟩, outcome := .deleted } ∧
      Agrees Sha256.ofText sampleOptions ⟨⟨"svc"⟩, [⟨"svc/a.go"⟩]⟩ ran.1 ran.2 := by
  have hreport : (runWith Sha256.ofText { sampleOptions with force := true }
      ⟨⟨"svc"⟩, [⟨"svc/a.go"⟩]⟩ editedTree).1 = { folder := ⟨"svc"⟩, outcome := .deleted } := by
    decide +kernel
  refine ⟨hreport, Run.agrees rfl run_edited [⟨"svc/a.go"⟩] true fits_sample ?_⟩
  rw [hreport]
  exact List.forall_mem_nil _

end FolderPass

end ServiceWiring
