import ServiceWiring.Proofs.Pass
import ServiceWiring.Proofs.Regeneration

/-!
# Passes that are interrupted

A process can stop between any two steps of a pass, or while it writes a file.  All that it leaves
behind is a generated file that is the old or the new one, a manifest that is the old or the new
one, and perhaps a temporary file with anything in it.  The next pass ends with the generated file
that the interrupted one would have ended with: it starts over, or it finds the new file and makes
the same file from it again.

* `FileTree.performAll`, `FileTree.Stopped` — steps, and the trees they can be stopped at;
* `FolderPass.steps` — the steps of a pass;
* `FolderPass.StopStep` — where a pass can be stopped;
* `FolderPass.entryAt_output_of_made` — a pass that makes the file that is there keeps it;
* `FolderPass.runWith_of_stopped` — what is there after an interruption, and after the next pass.
-/

namespace ServiceWiring

/-! ## Steps -/

namespace FileTree

variable {t t' t'' : FileTree} {base : Path} {name text : String} {dir : Place}

/-- Performs steps one after the other. -/
def performAll : FileTree → List FileStep → Except FileError FileTree
  | t, [] => .ok t
  | t, step :: rest => do performAll (← t.perform step) rest

/-- The trees that steps can be stopped at: between two steps, or while a file is written, when it
    may hold anything. -/
inductive Stopped : FileTree → List FileStep → FileTree → Prop where
  | here (t : FileTree) (steps : List FileStep) : Stopped t steps t
  | torn {t t' : FileTree} {p : Path} {content : Content} (rest : List FileStep) (cut : Content)
      (h : t.perform (.write p cut) = .ok t') : Stopped t (.write p content :: rest) t'
  | next {t t' t'' : FileTree} {step : FileStep} {rest : List FileStep}
      (h : t.perform step = .ok t') (hrest : Stopped t' rest t'') : Stopped t (step :: rest) t''

/-- Steps can be stopped behind any of them. -/
theorem stopped_of_performAll {front : List FileStep} (h : t.performAll front = .ok t')
    (behind : List FileStep) : Stopped t (front ++ behind) t' := by
  induction front generalizing t with
  | nil =>
      rw [← Except.ok.inj h]
      exact .here t behind
  | cons step front ih =>
      obtain ⟨mid, hmid, hrest⟩ := bind_eq_ok h
      exact .next hmid (ih hrest)

/-- Steps in two parts are stopped in the first part, or in the second behind all of the first. -/
theorem stopped_append {front behind : List FileStep} (h : Stopped t (front ++ behind) t') :
    Stopped t front t' ∨ ∃ mid, t.performAll front = .ok mid ∧ Stopped mid behind t' := by
  induction front generalizing t with
  | nil => exact Or.inr ⟨t, rfl, h⟩
  | cons step front ih =>
      cases h with
      | here => exact Or.inl (.here t' _)
      | torn _ cut hwrite => exact Or.inl (.torn front cut hwrite)
      | @next _ first _ _ _ hstep hrest =>
          rcases ih hrest with hrest | ⟨mid, hmid, hrest⟩
          · exact Or.inl (.next hstep hrest)
          · refine Or.inr ⟨mid, ?_, hrest⟩
            show (do performAll (← t.perform step) front) = .ok mid
            rw [hstep]
            exact hmid

theorem performAll_append (t : FileTree) (front behind : List FileStep) :
    t.performAll (front ++ behind) = (t.performAll front).bind fun mid => mid.performAll behind := by
  induction front generalizing t with
  | nil => rfl
  | cons step front ih =>
      show (t.perform step).bind _ = ((t.perform step).bind _).bind _
      cases t.perform step with
      | error e => rfl
      | ok mid => exact ih mid

/-! ### Replacing a file -/

/-- The steps that replace a file. -/
def replaceSteps (path : Path) (text : String) : List FileStep :=
  path.temporary?.elim [] fun temporary =>
    [.write temporary (.text text), .rename temporary path]

theorem performAll_replaceSteps (t : FileTree) (base : Path) (hn : IsEntryName name)
    (text : String) :
    t.performAll (replaceSteps (base.child name) text) = .ok t' ↔
      t.replaceFile (base.child name) text = (.ok (), t') := by
  obtain ⟨other, hother, htemp⟩ := Path.temporary?_child base hn
  unfold replaceSteps replaceFile
  rw [htemp]
  show (t.perform _).bind _ = _ ↔ _
  dsimp only
  cases t.perform (.write (other.child (temporaryName name)) (.text text)) with
  | error e =>
      constructor
      · intro h
        cases h
      · intro h
        cases (Prod.mk.inj h).1
  | ok written =>
      show (written.perform _).bind _ = _ ↔ _
      dsimp only
      cases written.perform (.rename (other.child (temporaryName name)) (base.child name)) with
      | error e =>
          constructor
          · intro h
            cases h
          · intro h
            cases (Prod.mk.inj h).1
      | ok renamed =>
          constructor
          · intro h
            rw [← Except.ok.inj h]
          · intro h
            rw [← (Prod.mk.inj h).2]
            rfl

/-- Until a file is replaced at most its temporary file is touched. -/
theorem stopped_replaceSteps (hn : IsEntryName name)
    (h : Stopped t (replaceSteps (base.child name) text) t') :
    t' = t ∨
    (∃ dir, t.folderAt base = .ok dir ∧ Confined (· = dir ++ [temporaryName name]) t t') ∨
    t.replaceFile (base.child name) text = (.ok (), t') := by
  obtain ⟨other, hother, htemp⟩ := Path.temporary?_child base hn
  have hsteps : replaceSteps (base.child name) text =
      [.write (other.child (temporaryName name)) (.text text),
        .rename (other.child (temporaryName name)) (base.child name)] := by
    unfold replaceSteps
    rw [htemp]
    rfl
  have hwritten : ∀ {content : Content} {written : FileTree},
      t.perform (.write (other.child (temporaryName name)) content) = .ok written →
        ∃ dir, t.folderAt base = .ok dir ∧ Confined (· = dir ++ [temporaryName name]) t written := by
    intro content written hwrite
    obtain ⟨dir, hdir, -, -, hfree, rfl⟩ :=
      perform_write_child (isEntryName_temporaryName hn.2.2.2) hwrite
    exact ⟨dir, (folderAt_congr hother).symm.trans hdir,
      Confined.put (concat_ne_nil dir _) hfree content⟩
  have hall : performAll t (replaceSteps (base.child name) text) = .ok t' ↔
      t.replaceFile (base.child name) text = (.ok (), t') :=
    performAll_replaceSteps t base hn text
  rw [hsteps] at h hall
  cases h with
  | here => exact Or.inl rfl
  | torn _ cut hwrite => exact Or.inr (Or.inl (hwritten hwrite))
  | next hwrite hrest =>
      cases hrest with
      | here => exact Or.inr (Or.inl (hwritten hwrite))
      | next hrename hrest =>
          cases hrest with
          | here =>
              -- no step is left: the file is replaced
              refine Or.inr (Or.inr (hall.mp ?_))
              show (t.perform _).bind _ = _
              rw [hwrite]
              show (FileTree.perform _ _).bind _ = _
              rw [hrename]
              rfl

end FileTree

/-! ## The steps of a pass -/

namespace FolderPass

open FileTree PassPlan

variable {t t' : FileTree} {options : PassOptions} {folder : PackageFolder} {checksum : Checksum}
  {plan : PassPlan} {base : Path} {name : String} {dir : Place}

/-- The steps that a pass performs when none of them fails. -/
def steps (checksum : Checksum) (options : PassOptions) (folder : PackageFolder)
    (t : FileTree) : List FileStep :=
  match PassDecision.ofState checksum options folder (.read t folder options) with
  | .settled _ => []
  | .write plan => stepsOf options folder plan

/-- The steps that change the generated file. -/
def outputSteps (path : Path) : OutputChange → List FileStep
  | .keep => []
  | .replace text => replaceSteps path text
  | .remove => [.remove path]

theorem stepsOf_eq_append (options : PassOptions) (folder : PackageFolder) (plan : PassPlan) :
    stepsOf options folder plan = outputSteps (options.outputPath folder) plan.output
      ++ replaceSteps (options.cachePath folder) plan.manifest.text := by
  unfold stepsOf
  cases plan.output with
  | keep => rfl
  | replace text => rfl
  | remove => rfl

theorem changeOutput_of_performAll (hn : IsEntryName name) {change : OutputChange}
    (h : t.performAll (outputSteps (base.child name) change) = .ok t') :
    changeOutput t (base.child name) change = (.ok (), t') := by
  cases change with
  | keep => rw [← Except.ok.inj h, changeOutput]
  | replace text => exact (performAll_replaceSteps t base hn text).mp h
  | remove =>
      obtain ⟨removed, hremoved, hrest⟩ := bind_eq_ok h
      rw [← Except.ok.inj hrest]
      unfold changeOutput removeIfPresent
      rw [hremoved]
      rfl

theorem outputStep_of_changeOutput (hn : IsEntryName name) {change : OutputChange}
    (h : changeOutput t (base.child name) change = (.ok (), t')) :
    OutputStep t base name change t' := by
  rcases changeOutput_cases t base hn change with ⟨failure, t₁, hfailed, -⟩ | ⟨t₁, hchanged, hstep⟩
  · rw [hfailed] at h
    cases (Prod.mk.inj h).1
  · rw [hchanged] at h
    rw [← (Prod.mk.inj h).2]
    exact hstep

theorem OutputStep.eq_or_folder {change : OutputChange} (h : OutputStep t base name change t') :
    t' = t ∨ ∃ dir, t.folderAt base = .ok dir := by
  cases h with
  | keep => exact Or.inl rfl
  | replace text hcan => exact Or.inr ⟨_, hcan.folder⟩
  | remove hdir _ _ _ => exact Or.inr ⟨_, hdir⟩
  | absent _ => exact Or.inl rfl

/-- Where writing a plan can be stopped once it has touched anything: while the generated file is
    replaced, or behind that until the manifest is replaced, or at the end. -/
inductive StopStep (t : FileTree) (options : PassOptions) (folder : PackageFolder) (dir : Place)
    (plan : PassPlan) : FileTree → Prop where
  | replacing {t' : FileTree} {text : String} (houtput : plan.output = .replace text)
      (h : Confined (· = dir ++ [temporaryName options.outputFile]) t t') :
      StopStep t options folder dir plan t'
  | changed {t₁ t' : FileTree}
      (hchange : changeOutput t (options.outputPath folder) plan.output = (.ok (), t₁))
      (h : Confined (· = dir ++ [temporaryName options.cacheFile]) t₁ t') :
      StopStep t options folder dir plan t'
  | written {t₁ t' : FileTree}
      (hchange : changeOutput t (options.outputPath folder) plan.output = (.ok (), t₁))
      (h : t₁.replaceFile (options.cachePath folder) plan.manifest.text = (.ok (), t')) :
      StopStep t options folder dir plan t'

theorem stopped_outputSteps (hout : IsEntryName options.outputFile)
    (h : Stopped t (outputSteps (options.outputPath folder) plan.output) t') :
    t' = t ∨ (∃ dir, t.folderAt folder.path = .ok dir ∧ StopStep t options folder dir plan t') ∨
      changeOutput t (options.outputPath folder) plan.output = (.ok (), t') := by
  cases houtput : plan.output with
  | keep =>
      rw [houtput] at h
      cases h with
      | here => exact Or.inl rfl
  | replace text =>
      rw [houtput] at h
      rcases stopped_replaceSteps hout h with rfl | ⟨dir, hdir, hc⟩ | hreplaced
      · exact Or.inl rfl
      · exact Or.inr (Or.inl ⟨dir, hdir, .replacing houtput hc⟩)
      · exact Or.inr (Or.inr hreplaced)
  | remove =>
      rw [houtput] at h
      cases h with
      | here => exact Or.inl rfl
      | next hremove hrest =>
          cases hrest with
          | here =>
              refine Or.inr (Or.inr (changeOutput_of_performAll hout ?_))
              show (t.perform (.remove (options.outputPath folder))).bind _ = _
              rw [hremove]
              rfl

/-- Writing a plan is stopped before it touches anything, or at one of the stops. -/
theorem stopStep_of_stopped (hout : IsEntryName options.outputFile)
    (hcache : IsEntryName options.cacheFile)
    (h : Stopped t (stepsOf options folder plan) t') :
    t' = t ∨ ∃ dir, t.folderAt folder.path = .ok dir ∧ StopStep t options folder dir plan t' := by
  -- behind the change of the generated file, which may have found the folder or changed nothing
  have hbehind : ∀ {t₁ : FileTree},
      changeOutput t (options.outputPath folder) plan.output = (.ok (), t₁) → t' = t₁ →
      t' = t ∨ ∃ dir, t.folderAt folder.path = .ok dir ∧ StopStep t options folder dir plan t' := by
    rintro t₁ hchange rfl
    rcases (outputStep_of_changeOutput hout hchange).eq_or_folder with rfl | ⟨dir, hdir⟩
    · exact Or.inl rfl
    · exact Or.inr ⟨dir, hdir, .changed hchange (Confined.refl _ t')⟩
  rw [stepsOf_eq_append] at h
  rcases stopped_append h with hfirst | ⟨t₁, hfirst, hsecond⟩
  · rcases stopped_outputSteps hout hfirst with rfl | hstop | hchange
    · exact Or.inl rfl
    · exact Or.inr hstop
    · exact hbehind hchange rfl
  · have hchange := changeOutput_of_performAll hout hfirst
    have hconfined := (outputStep_of_changeOutput hout hchange).confined
    rcases stopped_replaceSteps hcache hsecond with hsame | ⟨dir, hdir, hc⟩ | hwritten
    · exact hbehind hchange hsame
    · exact Or.inr ⟨dir, hconfined.folderAt_eq_ok.mp hdir, .changed hchange hc⟩
    · rcases replaceFile_child t₁ folder.path hcache plan.manifest.text with
        ⟨dir, hcan, -⟩ | ⟨failure, t₂, hfailed, -⟩
      · exact Or.inr ⟨dir, hconfined.folderAt_eq_ok.mp hcan.folder, .written hchange hwritten⟩
      · have hclash := hfailed.symm.trans hwritten
        cases (Prod.mk.inj hclash).1

/-! ## Plans that are written -/

/-- What a pass writes is what it generates. -/
theorem plan_of_decision {state : FolderState}
    (h : PassDecision.ofState checksum options folder state = .write plan) :
    ∃ previous, state.previous = .ok previous ∧
      plan = ofGeneration checksum folder state previous (.made options.runtime state previous) := by
  cases hprevious : state.previous with
  | error reason =>
      rw [PassDecision.ofState_of_error hprevious] at h
      cases h
  | ok previous =>
      cases hcurrent : isUpToDate checksum options state previous with
      | true =>
          rw [PassDecision.ofState_of_upToDate hprevious hcurrent] at h
          cases h
      | false =>
          rw [PassDecision.ofState_of_not_upToDate hprevious hcurrent] at h
          split at h
          · cases h
          · exact ⟨previous, rfl, (PassDecision.write.inj h).symm⟩

/-- Behind the change of the generated file only the manifest is replaced. -/
theorem write_of_changed {t₁ : FileTree}
    (h : changeOutput t (options.outputPath folder) plan.output = (.ok (), t₁)) :
    (write t options folder plan).2
      = (t₁.replaceFile (options.cachePath folder) plan.manifest.text).2 := by
  unfold write
  dsimp only
  rw [h]
  dsimp only
  split
  · rename_i hreplace
    rw [hreplace]
  · rename_i hreplace
    rw [hreplace]

/-- A plan whose writing reports no failure is written. -/
theorem written_of_report
    (hok : ∀ i ∈ (write t options folder plan).1.issues, i.isInternal = false) :
    ∃ t₁, changeOutput t (options.outputPath folder) plan.output = (.ok (), t₁) ∧
      t₁.replaceFile (options.cachePath folder) plan.manifest.text
        = (.ok (), (write t options folder plan).2) := by
  have hinternal : ∀ (path : Path) (error : String),
      ¬ ∀ i ∈ (plan.report.withInternal path error).issues, i.isInternal = false := by
    intro path error hnone
    exact nomatch hnone _ (List.mem_append_right _ (List.mem_singleton_self _))
  unfold write at hok ⊢
  dsimp only at hok ⊢
  split at hok
  · exact absurd hok (hinternal _ _)
  · rename_i t₁ hchange
    rw [hchange]
    split at hok
    · exact absurd hok (hinternal _ _)
    · rename_i t₂ hreplace
      refine ⟨t₁, rfl, ?_⟩
      rw [hreplace]

theorem performAll_of_changeOutput (hn : IsEntryName name) {change : OutputChange}
    (h : changeOutput t (base.child name) change = (.ok (), t'))
    (hthere : change = .remove → t.readText (base.child name) ≠ .error .notFound) :
    t.performAll (outputSteps (base.child name) change) = .ok t' := by
  cases change with
  | keep => rw [← (Prod.mk.inj h).2, outputSteps, performAll]
  | replace text => exact (performAll_replaceSteps t base hn text).mpr h
  | remove =>
      rcases removeIfPresent_child t base hn with
        ⟨_, _, _, _, _, _, hremoved⟩ | ⟨hread, -⟩ | ⟨_, hfailed⟩
      · -- the file is there, so that it was missing is no way to succeed
        unfold changeOutput removeIfPresent at h
        unfold removeIfPresent at hremoved
        cases hperform : t.perform (.remove (base.child name)) with
        | ok removed =>
            rw [hperform] at h
            show (t.perform _).bind _ = _
            rw [hperform, ← (Prod.mk.inj h).2]
            rfl
        | error e =>
            rw [hperform] at hremoved
            cases e with
            | notFound => cases Except.ok.inj (Prod.mk.inj hremoved).1
            | _ => cases (Prod.mk.inj hremoved).1
      · exact absurd hread (hthere rfl)
      · rw [changeOutput, hfailed] at h
        cases (Prod.mk.inj h).1

/-- A pass that reports no failure has performed its steps. -/
theorem performAll_steps (hfits : options.Fits folder)
    (hok : ∀ i ∈ (runWith checksum options folder t).1.issues, i.isInternal = false) :
    t.performAll (steps checksum options folder t) = .ok (runWith checksum options folder t).2 := by
  cases hdecision : PassDecision.ofState checksum options folder (.read t folder options) with
  | settled report =>
      unfold steps
      rw [runWith_of_settled hdecision, hdecision]
      rfl
  | write plan =>
      obtain ⟨previous, hprevious, hplan⟩ := plan_of_decision hdecision
      rw [runWith_of_decision hdecision] at hok ⊢
      obtain ⟨t₁, hchange, hwritten⟩ := written_of_report hok
      -- a file that is removed was there: it has just been read
      have hthere : plan.output = .remove →
          t.readText (options.outputPath folder) ≠ .error .notFound := by
        intro hremove hread
        have hnone : FolderState.previous (.read t folder options) = .ok none :=
          previous_of_output (fun s hs => nomatch hs) hread
        rw [hplan, Except.ok.inj (hprevious.symm.trans hnone)] at hremove
        rcases changeOf_cases (.made options.runtime (.read t folder options) none) none with
          ⟨h, -⟩ | ⟨text, h, -⟩ | ⟨-, -, h⟩
        · cases h.symm.trans hremove
        · cases h.symm.trans hremove
        · cases h
      have hfirst : t.performAll (outputSteps (options.outputPath folder) plan.output) = .ok t₁ :=
        performAll_of_changeOutput hfits.output hchange hthere
      unfold steps
      rw [hdecision]
      show t.performAll (stepsOf options folder plan) = _
      rw [stepsOf_eq_append, performAll_append, hfirst]
      exact (performAll_replaceSteps t₁ folder.path hfits.cache _).mpr hwritten

/-! ## The next pass -/

theorem changeOf_eq_keep {g : Generation} {previous : Option String} (h : g.text = previous) :
    changeOf g previous = .keep := by
  subst h
  cases htext : g.text with
  | none => simp [changeOf, Generation.outcome, htext]
  | some text => simp [changeOf, Generation.outcome, htext]

/-- Behind the change of the generated file nothing but the manifest is touched. -/
theorem confined_write_of_changed (hfits : options.Fits folder) {t₁ : FileTree}
    (hchange : changeOutput t (options.outputPath folder) plan.output = (.ok (), t₁))
    (hdir : t.folderAt folder.path = .ok dir) :
    Confined (ReplacePlaces dir options.cacheFile) t₁ (write t options folder plan).2 := by
  have hdir₁ := (outputStep_of_changeOutput hfits.output hchange).confined.folderAt_eq_ok.mpr hdir
  rw [write_of_changed hchange]
  refine (confined_replaceFile t₁ folder.path hfits.cache _).mono ?_
  rintro place ⟨dir', hdir', hp⟩
  rw [Except.ok.inj (hdir₁.symm.trans hdir')]
  exact hp

theorem entryAt_output_of_behind (hfits : options.Fits folder)
    (hdir : t.folderAt folder.path = .ok dir) {t₁ : FileTree}
    (hchange : changeOutput t (options.outputPath folder) plan.output = (.ok (), t₁))
    (hbehind : Confined (ReplacePlaces dir options.cacheFile) t₁ t') :
    t'.entryAt (options.outputPath folder)
      = (write t options folder plan).2.entryAt (options.outputPath folder) := by
  have hdir₁ := (outputStep_of_changeOutput hfits.output hchange).confined.folderAt_eq_ok.mpr hdir
  have hkept : ∀ {tree : FileTree}, Confined (ReplacePlaces dir options.cacheFile) t₁ tree →
      tree.entryAt (options.outputPath folder) = t₁.entryAt (options.outputPath folder) :=
    fun h => h.entryAt_child hfits.output hdir₁ (not_replacePlaces_of_output hfits dir)
  rw [hkept hbehind, hkept (confined_write_of_changed hfits hchange hdir)]

/-- A pass that makes the file that is there leaves it there. -/
theorem entryAt_output_of_made (checksum : Checksum) (hfits : options.Fits folder)
    (hdir : t.folderAt folder.path = .ok dir) {previous : Option String}
    (hprevious : (FolderState.read t folder options).previous = .ok previous)
    (hmade : (Generation.made options.runtime (.read t folder options) previous).text = previous) :
    (runWith checksum options folder t).2.entryAt (options.outputPath folder)
      = t.entryAt (options.outputPath folder) := by
  cases hdecision : PassDecision.ofState checksum options folder (.read t folder options) with
  | settled report => rw [runWith_of_settled hdecision]
  | write plan =>
      obtain ⟨previous', hprevious', hplan⟩ := plan_of_decision hdecision
      have hkeep : plan.output = .keep := by
        rw [hplan, ← Except.ok.inj (hprevious.symm.trans hprevious')]
        exact changeOf_eq_keep hmade
      have hchange : changeOutput t (options.outputPath folder) plan.output = (.ok (), t) := by
        rw [hkeep, changeOutput]
      rw [runWith_of_decision hdecision]
      exact (confined_write_of_changed hfits hchange hdir).entryAt_child hfits.output hdir
        (not_replacePlaces_of_output hfits dir)

/-- Behind the change of the generated file the next pass makes the same file from it. -/
theorem entryAt_output_of_changed (checksum : Checksum) (hfits : options.Fits folder)
    (hruntime : options.runtime.Unmarked)
    (hpackage : OneLine (Generation.packageName (FolderState.read t folder options).files
      (FolderState.read t folder options).name))
    (hdir : t.folderAt folder.path = .ok dir) {previous : Option String}
    (hprevious : (FolderState.read t folder options).previous = .ok previous)
    (hreturn : ∀ text, previous = some text → '\r' ∉ text.toList) {t₁ : FileTree}
    (hstep : OutputStep t folder.path options.outputFile
      (changeOf (.made options.runtime (.read t folder options) previous) previous) t₁)
    (hbehind : Confined (ReplacePlaces dir options.cacheFile) t₁ t') :
    (runWith checksum options folder t').2.entryAt (options.outputPath folder)
      = t'.entryAt (options.outputPath folder) := by
  have hconfined : Confined (PassPlaces t options folder) t t' := by
    refine (hstep.confined.mono fun _ => Or.inl).trans (hbehind.mono ?_)
    intro place hp
    exact Or.inr ⟨dir, hdir, hp⟩
  have hdir₁ := hstep.confined.folderAt_eq_ok.mpr hdir
  have hdir' := hbehind.folderAt_eq_ok.mpr hdir₁
  have hread := previous_of_outputStep hfits hprevious
    (fun s hs => Generation.isGenerated_of_text hs) hstep hdir hbehind
  refine entryAt_output_of_made checksum hfits hdir' hread ?_
  rw [made_of_confined hfits hconfined hdir]
  cases htext : (Generation.made options.runtime (.read t folder options) previous).text with
  | none =>
      -- whether there is a file does not depend on the one before
      have hsome := Generation.text_isSome_of_previous options.runtime (.read t folder options)
        none previous
      rw [htext] at hsome
      exact Option.not_isSome_iff_eq_none.mp (by rw [hsome]; exact Bool.false_ne_true)
  | some text => rw [Generation.made_text hruntime hpackage hreturn htext, htext]

/-- A temporary file beside the generated file is not read. -/
theorem read_of_replacing (hfits : options.Fits folder) (hdir : t.folderAt folder.path = .ok dir)
    (h : Confined (· = dir ++ [temporaryName options.outputFile]) t t') :
    FolderState.read t' folder options = FolderState.read t folder options := by
  have hplaces : Confined (ReplacePlaces dir options.outputFile) t t' := h.mono fun _ => Or.inr
  have hconfined : Confined (PassPlaces t options folder) t t' :=
    hplaces.mono fun place hp => Or.inl ⟨dir, hdir, hp⟩
  have hsources := sources_of_confined hfits hconfined hdir
  have hname : (FolderState.read t' folder options).name = (FolderState.read t folder options).name :=
    name_of_confined hconfined hdir
  have houtput := h.readText_child hfits.output hdir (concat_temporaryName_ne dir options.outputFile)
  have hmanifest := hplaces.readText_child hfits.cache hdir (not_replacePlaces_of_cache hfits.own dir)
  have hstate : ∀ s s' : FolderState, s.sources = s'.sources → s.output = s'.output →
      s.manifest = s'.manifest → s.name = s'.name → s = s' := by
    rintro ⟨_, _, _, _⟩ ⟨_, _, _, _⟩ rfl rfl rfl rfl
    rfl
  exact hstate _ _ hsources houtput (manifest_of_readText hmanifest) hname

/-- Where the generated file can be replaced it holds the text afterwards. -/
theorem entryAt_output_of_canReplace (hfits : options.Fits folder)
    (hcan : t.CanReplace folder.path options.outputFile dir) {text : String}
    (houtput : plan.output = .replace text) :
    (write t options folder plan).2.entryAt (options.outputPath folder)
      = .ok (dir ++ [options.outputFile], .file (.text text)) := by
  have hchange : changeOutput t (options.outputPath folder) plan.output
      = (.ok (), t.replaced dir options.outputFile text) := by
    rw [houtput]
    exact replaceFile_of_canReplace hfits.output hcan text
  have hfolder := (confined_replaced hcan text).folderAt_eq_ok.mpr hcan.folder
  rw [← entryAt_replaced hfits.output hcan hfolder]
  exact (confined_write_of_changed hfits hchange hcan.folder).entryAt_child hfits.output hfolder
    (not_replacePlaces_of_output hfits dir)

/-- Replacing the generated file goes the same way whatever the temporary file holds. -/
theorem entryAt_output_of_replacing (hfits : options.Fits folder)
    (hdir : t.folderAt folder.path = .ok dir) {text : String} (houtput : plan.output = .replace text)
    (h : Confined (· = dir ++ [temporaryName options.outputFile]) t t') :
    (write t' options folder plan).2.entryAt (options.outputPath folder)
      = (write t options folder plan).2.entryAt (options.outputPath folder) := by
  -- where it cannot, it stays as it is
  have hno : ∀ {tree : FileTree}, tree.folderAt folder.path = .ok dir →
      ¬ tree.CanReplace folder.path options.outputFile dir →
      (write tree options folder plan).2.entryAt (options.outputPath folder)
        = tree.entryAt (options.outputPath folder) := by
    intro tree hfolder hcannot
    have hkept : ∀ {t₁ : FileTree},
        ¬ OutputStep tree folder.path options.outputFile plan.output t₁ := by
      intro t₁ hstep
      rw [houtput] at hstep
      cases hstep with
      | replace _ hcan =>
          rw [Except.ok.inj (hfolder.symm.trans hcan.folder)] at hcannot
          exact hcannot hcan
    have hwrite : WriteStep tree options folder plan (write tree options folder plan) :=
      writeStep_write tree hfits.output hfits.cache plan
    generalize write tree options folder plan = result at hwrite
    cases hwrite with
    | outputFailed path error hc =>
        exact hc.entryAt_child hfits.output hfolder (not_temporaryPlaces hfolder)
    | manifestFailed path error hstep hc => exact absurd hstep hkept
    | written hstep hcan => exact absurd hstep hkept
  have hdir' := h.folderAt_eq_ok.mpr hdir
  by_cases hcan : t.CanReplace folder.path options.outputFile dir
  · rw [entryAt_output_of_canReplace hfits hcan houtput,
      entryAt_output_of_canReplace hfits (hcan.of_confined h) houtput]
  · rw [hno hdir hcan, hno hdir' fun hcan' => hcan (hcan'.of_confined h.symm)]
    exact h.entryAt_child hfits.output hdir (concat_temporaryName_ne dir options.outputFile)

/-! ## Interrupted passes -/

/-- However a pass is interrupted, the generated file and the manifest are the old or the new ones,
    and the next pass ends with the generated file that the interrupted one would have ended
    with. -/
theorem runWith_of_stopped (checksum : Checksum) (hfits : options.Fits folder)
    (hruntime : options.runtime.Unmarked)
    (hpackage : OneLine (Generation.packageName (FolderState.read t folder options).files
      (FolderState.read t folder options).name))
    (hreturn : ∀ text, t.readText (options.outputPath folder) = .ok text → '\r' ∉ text.toList)
    (hstop : Stopped t (steps checksum options folder t) t') :
    let done := runWith checksum options folder t
    let output := options.outputPath folder
    let manifest := options.cachePath folder
    ((∀ i ∈ done.1.issues, i.isInternal = false) →
      t.performAll (steps checksum options folder t) = .ok done.2) ∧
    (t'.entryAt output = t.entryAt output ∨ t'.entryAt output = done.2.entryAt output) ∧
    (t'.entryAt manifest = t.entryAt manifest ∨ t'.entryAt manifest = done.2.entryAt manifest) ∧
    (runWith checksum options folder t').2.entryAt output = done.2.entryAt output := by
  intro done output manifest
  refine ⟨performAll_steps hfits, ?_⟩
  cases hdecision : PassDecision.ofState checksum options folder (.read t folder options) with
  | settled report =>
      unfold steps at hstop
      rw [hdecision] at hstop
      cases hstop with
      | here => exact ⟨Or.inl rfl, Or.inl rfl, rfl⟩
  | write plan =>
      obtain ⟨previous, hprevious, hplan⟩ := plan_of_decision hdecision
      have hdone : done = write t options folder plan := runWith_of_decision hdecision
      have hold : ∀ text, previous = some text → '\r' ∉ text.toList := by
        rintro text rfl
        exact hreturn text (output_of_previous hprevious)
      unfold steps at hstop
      rw [hdecision] at hstop
      rcases stopStep_of_stopped hfits.output hfits.cache hstop with rfl | ⟨dir, hdir, hstep⟩
      · exact ⟨Or.inl rfl, Or.inl rfl, rfl⟩
      cases hstep with
      | replacing houtput hc =>
          -- the next pass reads what this one has read, so it decides the same
          refine ⟨Or.inl ?_, Or.inl ?_, ?_⟩
          · exact hc.entryAt_child hfits.output hdir (concat_temporaryName_ne dir options.outputFile)
          · exact (hc.mono fun _ => Or.inr).entryAt_child hfits.cache hdir
              (not_replacePlaces_of_cache hfits.own dir)
          · rw [← read_of_replacing hfits hdir hc] at hdecision
            rw [runWith_of_decision hdecision, hdone]
            exact entryAt_output_of_replacing hfits hdir houtput hc
      | @changed t₁ _ hchange hc =>
          -- the new file stands beside the old manifest, and the next pass makes it from itself
          have houtput := outputStep_of_changeOutput hfits.output hchange
          have hdir₁ := houtput.confined.folderAt_eq_ok.mpr hdir
          have hbehind : Confined (ReplacePlaces dir options.cacheFile) t₁ t' :=
            hc.mono fun _ => Or.inr
          have hnew : t'.entryAt output = done.2.entryAt output := by
            rw [hdone]
            exact entryAt_output_of_behind hfits hdir hchange hbehind
          refine ⟨Or.inr hnew, Or.inl ?_, ?_⟩
          · have hmanifest : t₁.entryAt manifest = t.entryAt manifest :=
              houtput.confined.entryAt_child hfits.cache hdir
                (not_filePlaces_of_cache hfits.own hdir)
            rw [← hmanifest]
            exact hc.entryAt_child hfits.cache hdir₁ (concat_temporaryName_ne dir options.cacheFile)
          · rw [← hnew]
            rw [hplan] at houtput
            exact entryAt_output_of_changed checksum hfits hruntime hpackage hdir hprevious hold
              houtput hbehind
      | @written t₁ _ hchange hwritten =>
          -- the pass came to its end: the next one has nothing to do or makes the file again
          have houtput := outputStep_of_changeOutput hfits.output hchange
          have hsame : done.2 = t' := by
            rw [hdone, write_of_changed hchange, hwritten]
          have hbehind := confined_write_of_changed hfits hchange hdir
          rw [← hdone, hsame] at hbehind
          refine ⟨Or.inr (by rw [hsame]), Or.inr (by rw [hsame]), ?_⟩
          rw [hsame]
          rw [hplan] at houtput
          exact entryAt_output_of_changed checksum hfits hruntime hpackage hdir hprevious hold
            houtput hbehind

/-- A folder with a source and a generated file that holds an open block. -/
def stoppedTree : FileTree where
  entries := [(["svc"], .directory),
    (["svc", "a.go"], .file (.text "package svc\n\n// @Service\ntype A struct\x7b\x7d\n")),
    (["svc", "zz_wiregen.go"], .file (.text (generatedHeader ++ "\n// wiregen:user-begin a\n")))]

/-- A pass that is interrupted while it writes its first file. -/
theorem runWith_of_stopped_sample :
    ∃ t', t'.readText ⟨"svc/.zz_wiregen.go.tmp"⟩ = .ok "// Co" ∧
      Stopped stoppedTree (steps Sha256.ofText sampleOptions sampleFolder stoppedTree) t' ∧
      t'.entryAt ⟨"svc/zz_wiregen.go"⟩ = stoppedTree.entryAt ⟨"svc/zz_wiregen.go"⟩ ∧
      (runWith Sha256.ofText sampleOptions sampleFolder t').2.entryAt ⟨"svc/zz_wiregen.go"⟩
        = (runWith Sha256.ofText sampleOptions sampleFolder stoppedTree).2.entryAt
            ⟨"svc/zz_wiregen.go"⟩ := by
  have hfirst : (steps Sha256.ofText sampleOptions sampleFolder stoppedTree).head?.any (fun
      | .write p _ => p = ⟨"svc/.zz_wiregen.go.tmp"⟩
      | _ => false) = true := by
    decide +kernel
  have hstop : Stopped stoppedTree (steps Sha256.ofText sampleOptions sampleFolder stoppedTree)
      (stoppedTree.put ["svc", ".zz_wiregen.go.tmp"] (.file (.text "// Co"))) := by
    cases hsteps : steps Sha256.ofText sampleOptions sampleFolder stoppedTree with
    | nil =>
        rw [hsteps] at hfirst
        exact nomatch hfirst
    | cons step rest =>
        rw [hsteps] at hfirst
        cases step with
        | write p content =>
            rw [of_decide_eq_true hfirst]
            exact .torn rest (.text "// Co") rfl
        | rename source dest => exact nomatch hfirst
        | remove p => exact nomatch hfirst
  have hreturn : ∀ text, stoppedTree.readText (sampleOptions.outputPath sampleFolder) = .ok text →
      '\r' ∉ text.toList := by
    have hread : stoppedTree.readText (sampleOptions.outputPath sampleFolder)
        = .ok (generatedHeader ++ "\n// wiregen:user-begin a\n") := rfl
    intro text htext
    rw [← Except.ok.inj (hread.symm.trans htext)]
    decide +kernel
  obtain ⟨-, -, -, hnext⟩ := runWith_of_stopped Sha256.ofText fits_sample
    ⟨by decide, by decide, by decide⟩ (by decide +kernel) hreturn hstop
  exact ⟨_, rfl, hstop, rfl, hnext⟩

/-! ## Files that are not made again

Where the generated file is read back with blocks that it was not generated with, an interruption
in front of the manifest makes a difference: the next pass replaces the file once more. -/

theorem decision_of_not_upToDate (folder : PackageFolder) (hdry : options.dryRun = false)
    {state : FolderState} {previous : Option String} (hprevious : state.previous = .ok previous)
    (h : isUpToDate checksum options state previous = false) :
    PassDecision.ofState checksum options folder state
      = .write (ofGeneration checksum folder state previous
          (.made options.runtime state previous)) := by
  rw [PassDecision.ofState_of_not_upToDate hprevious h, hdry, if_neg Bool.false_ne_true]

theorem exists_stopped_of_longer (checksum : Checksum) (hfits : options.Fits folder)
    (hdry : options.dryRun = false) (hcan : t.CanReplace folder.path options.outputFile dir)
    (hprevious : (FolderState.read t folder options).previous = .ok none)
    (hmanifest : (FolderState.read t folder options).manifest = none) {text longer : String}
    (htext : (Generation.made options.runtime (.read t folder options) none).text = some text)
    (hagain : (Generation.made options.runtime (.read t folder options) (some text)).text
      = some longer) (hne : longer ≠ text) :
    ∃ t', Stopped t (steps checksum options folder t) t' ∧
      (runWith checksum options folder t').2.entryAt (options.outputPath folder)
        ≠ (runWith checksum options folder t).2.entryAt (options.outputPath folder) := by
  have hdecision := decision_of_not_upToDate folder hdry hprevious
    (not_upToDate_of_manifest checksum options hmanifest none)
  have hreplace : changeOf (.made options.runtime (.read t folder options) none) none
      = .replace text := by
    simp [changeOf, Generation.outcome, htext]
  have hstep : OutputStep t folder.path options.outputFile
      (changeOf (.made options.runtime (.read t folder options) none) none)
      (t.replaced dir options.outputFile text) := by
    rw [hreplace]
    exact .replace text hcan
  have hreplaced := confined_replaced hcan text
  -- the pass is stopped behind the new file and in front of the manifest
  have hstop : Stopped t (steps checksum options folder t)
      (t.replaced dir options.outputFile text) := by
    unfold steps
    rw [hdecision]
    show Stopped t (stepsOf options folder _) _
    rw [stepsOf_eq_append]
    refine stopped_of_performAll ?_ _
    show t.performAll (outputSteps _ (changeOf _ none)) = _
    rw [hreplace]
    exact (performAll_replaceSteps t folder.path hfits.output text).mpr
      (replaceFile_of_canReplace hfits.output hcan text)
  have hprevious' := previous_of_outputStep hfits hprevious
    (fun s hs => Generation.isGenerated_of_text hs) hstep hcan.folder (Confined.refl _ _)
  rw [htext] at hprevious'
  have hmanifest' : (FolderState.read (t.replaced dir options.outputFile text) folder options).manifest
      = none :=
    (manifest_of_readText (hreplaced.readText_child hfits.cache hcan.folder
      (not_replacePlaces_of_cache hfits.own dir))).trans hmanifest
  have hconfined : Confined (PassPlaces t options folder) t
      (t.replaced dir options.outputFile text) :=
    hreplaced.mono fun place hp => Or.inl ⟨dir, hcan.folder, hp⟩
  have hreplace' : changeOf (.made options.runtime
      (.read (t.replaced dir options.outputFile text) folder options) (some text)) (some text)
      = .replace longer := by
    rw [made_of_confined hfits hconfined hcan.folder]
    simp [changeOf, Generation.outcome, hagain, hne]
  have hdecision' := decision_of_not_upToDate folder hdry hprevious'
    (not_upToDate_of_manifest checksum options hmanifest' (some text))
  refine ⟨_, hstop, ?_⟩
  rw [runWith_of_decision hdecision, runWith_of_decision hdecision',
    entryAt_output_of_canReplace hfits hcan hreplace,
    entryAt_output_of_canReplace hfits (hcan.of_confined hreplaced) hreplace']
  intro hsame
  injection hsame with hentry
  injection hentry with _ hfile
  injection hfile with hcontent
  injection hcontent with hlonger
  exact hne hlonger

/-- Options whose runtime import opens a block. -/
def markedOptions : PassOptions :=
  { sampleOptions with runtime := Emission.markedRuntime }

/-- The tree of a folder with one service and nothing generated yet. -/
def freshTree : FileTree :=
  sampleTree "package svc\n\n// @Service\ntype A struct\x7b\x7d\n"

theorem canReplace_fresh : freshTree.CanReplace sampleFolder.path markedOptions.outputFile ["svc"] :=
  ⟨rfl, rfl, rfl, ⟨⟨"svc"⟩, ⟨rfl, rfl⟩, rfl, rfl⟩, rfl, by decide, by decide⟩

theorem packageName_of_fresh : Generation.packageName
    (FolderState.read freshTree sampleFolder markedOptions).files
    (FolderState.read freshTree sampleFolder markedOptions).name = "svc" := by
  decide +kernel

/-- The file of a folder of package `svc` with the service of the sample. -/
theorem textWith_of_sample {state : FolderState}
    (hservices : state.aggregate.services = [Emission.sampleService])
    (hhooks : textHooks state.files = [])
    (hpackage : Generation.packageName state.files state.name = "svc") (runtime : ImportEntry)
    (blocks : List PreservedBlock) :
    state.textWith runtime blocks = some (Text.unlines (Emission.fileLines
      (Emission.namesOf runtime Emission.markedPlans) "svc" Emission.markedPlans blocks)) := by
  unfold FolderState.textWith FolderState.planned
  rw [hservices, hhooks, hpackage]
  rfl

/-- The file of the tree under any runtime. -/
theorem textWith_of_fresh (runtime : ImportEntry) (blocks : List PreservedBlock) :
    (FolderState.read freshTree sampleFolder markedOptions).textWith runtime blocks
      = some (Text.unlines (Emission.fileLines (Emission.namesOf runtime Emission.markedPlans) "svc"
          Emission.markedPlans blocks)) := by
  refine textWith_of_sample ?_ ?_ packageName_of_fresh runtime blocks
  · decide +kernel
  · decide +kernel

theorem text_of_fresh :
    (Generation.made markedOptions.runtime (.read freshTree sampleFolder markedOptions) none).text
      = some (Text.unlines (Emission.fileLines
          (Emission.namesOf Emission.markedRuntime Emission.markedPlans) "svc"
          Emission.markedPlans [])) :=
  textWith_of_fresh Emission.markedRuntime []

/-- Under a runtime import that opens a block a pass that is stopped in front of the manifest is
    followed by one that ends with another file. -/
theorem not_converging_of_marked :
    markedOptions.Fits sampleFolder ∧ markedOptions.force = false ∧ markedOptions.dryRun = false ∧
      Text.Unbroken markedOptions.runtime.path.toList ∧
      Text.Unbroken markedOptions.runtime.name.toList ∧
      OneLine (Generation.packageName (FolderState.read freshTree sampleFolder markedOptions).files
        (FolderState.read freshTree sampleFolder markedOptions).name) ∧
      freshTree.readText (markedOptions.outputPath sampleFolder) = .error .notFound ∧
      ∃ t', Stopped freshTree (steps Sha256.ofText markedOptions sampleFolder freshTree) t' ∧
        (runWith Sha256.ofText markedOptions sampleFolder t').2.entryAt
            (markedOptions.outputPath sampleFolder)
          ≠ (runWith Sha256.ofText markedOptions sampleFolder freshTree).2.entryAt
              (markedOptions.outputPath sampleFolder) := by
  have hfits : markedOptions.Fits sampleFolder :=
    ⟨fits_sample.output, fits_sample.cache, fits_sample.sources, fits_sample.apart⟩
  obtain ⟨longer, hagain, hne⟩ :=
    Generation.longer_of_extract text_of_fresh Emission.extract_marked
  refine ⟨hfits, rfl, rfl, by decide, by decide, ?_, rfl, ?_⟩
  · rw [packageName_of_fresh]
    decide
  · exact exists_stopped_of_longer Sha256.ofText hfits rfl canReplace_fresh rfl rfl text_of_fresh
      hagain hne

end FolderPass

end ServiceWiring
