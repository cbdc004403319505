import ServiceWiring.Proofs.GeneratedText

/-!
# Generating a file again

The preserved blocks of a generated file are read from it and written into the file that takes its
place.  For sources of any kind the blocks come back as they were, so generating with them gives
the same file.  The one text that stands at the start of a line and is not checked is the name of
the runtime import: a name that starts like a marker opens a block in the middle of the imports.

* `Emission.Stable` — a file that is generated the same from its own blocks;
* `Emission.stable_of_kept`, `Emission.stable_of_parsed` — files of services, and of sources;
* `Generation.made_text` — a folder is generated the same from the file that was generated.
-/

namespace ServiceWiring

open Text

/-- A contribution that comes from a source: it has the annotations of the source or some of
    them. -/
structure Contribution.Parsed (c : Contribution) : Prop where
  file : ∃ path content, c.file = .parse path content
  annotations : c.annotations ⊆ (Collected.ofFile c.file).annotations

theorem Contribution.Parsed.unbroken {c : Contribution} (h : c.Parsed) : c.Unbroken := by
  obtain ⟨path, content, hfile⟩ := h.file
  have hannotations := h.annotations
  rw [hfile] at hannotations
  constructor
  · rw [hfile]
    exact SourceFile.unbroken_parse path content
  · intro a ha
    exact Collected.unbroken_of_mem_ofFile (hannotations ha)

namespace Emission

/-- Generating a file gives one that holds the blocks it was generated with, and generating with
    the blocks that it holds gives the same. -/
def Stable (runtime : ImportEntry) (hooks : List String) (parts : FileParts) : Prop :=
  ∃ emission, ofServices runtime hooks parts = .ok emission ∧
    ∀ text, emission.text = some text →
      PreservedBlock.extract text = parts.blocks ∧
        ofServices runtime hooks { parts with blocks := PreservedBlock.extract text } = .ok emission

variable {runtime : ImportEntry}

theorem stable_of_kept (parts : FileParts) (hruntime : runtime.Unmarked)
    (hpackage : OneLine parts.package) (hservices : ∀ s ∈ parts.services, s.Unbroken)
    (hblocks : ∀ b ∈ parts.blocks, b.Kept) (hsmooth : ∀ b ∈ parts.blocks, b.Smooth)
    (hnodup : (parts.blocks.map (·.name)).Nodup) (hooks : List String) :
    Stable runtime hooks parts := by
  refine ⟨_, ofServices_eq_ok runtime hooks parts, ?_⟩
  intro text htext
  have hplans : ∀ plan ∈ (planAll hooks parts.services).1, plan.Unbroken :=
    fun plan hplan => unbroken_of_mem_planAll hservices hplan
  have hextract : PreservedBlock.extract text = parts.blocks := by
    dsimp only at htext
    split at htext
    · cases htext
    · rw [← Option.some.inj htext,
        extract_fileLines (plain_namesOf hruntime hplans) hpackage hplans hblocks hnodup]
      exact PreservedBlock.map_chomped_of_smooth hsmooth
  have hsame : { parts with blocks := PreservedBlock.extract text } = parts := by
    rw [hextract]
  rw [hsame]
  exact ⟨hextract, ofServices_eq_ok runtime hooks parts⟩

/-- The preserved blocks of any text without carriage returns survive generating for any sources,
    and generating again gives the same file. -/
theorem stable_of_parsed (hruntime : runtime.Unmarked) {package : String}
    (hpackage : OneLine package) {contributions : List Contribution}
    (hparsed : ∀ c ∈ contributions, c.Parsed) (hooks : List String) {existing : String}
    (hexisting : '\r' ∉ existing.toList) :
    Stable runtime hooks
      { package
        services := (Aggregate.ofFiles contributions).services
        blocks := PreservedBlock.extract existing } := by
  have hmet := Aggregate.unbroken_ofFiles fun c hc => (hparsed c hc).unbroken
  refine stable_of_kept _ hruntime hpackage ?_ ?_ ?_ (PreservedBlock.nodup_extract existing) hooks
  · intro s hs
    exact hmet s (Aggregate.mem_met_of_mem_services hs)
  · intro b hb
    exact PreservedBlock.kept_of_mem_extract hb
  · intro b hb
    exact PreservedBlock.smooth_of_not_mem hexisting hb

/-- The contribution of a source with one service. -/
def sampleContribution : Contribution :=
  let file := SourceFile.parse ⟨"svc/a.go"⟩ "package svc\n\n// @Service\ntype A struct\x7b\x7d\n"
  { file, annotations := (Collected.ofFile file).annotations }

theorem parsed_sample : ∀ c ∈ [sampleContribution], c.Parsed := by
  intro c hc
  rw [List.mem_singleton.mp hc]
  exact ⟨⟨_, _, rfl⟩, List.Subset.refl _⟩

/-- The service of that source. -/
def sampleService : Service where
  name := "A"
  structName := "A"
  isRouter := false
  mountPath := ""
  fields := []
  endpoints := []
  imports := []
  loc := ⟨"svc/a.go", 3, 4, "// @Service"⟩

theorem services_sample : (Aggregate.ofFiles [sampleContribution]).services = [sampleService] := by
  decide +kernel

/-- A block that holds the markers of another one, and one without a name and an end. -/
def sampleBlocks : String :=
  "// wiregen:user-begin a\n// wiregen:user-begin b\n// wiregen:user-end a\n"
    ++ "// wiregen:user-begin\n"

theorem stable_of_sample :
    (Aggregate.ofFiles [sampleContribution]).services = [sampleService] ∧
      PreservedBlock.extract sampleBlocks = [⟨"a", ["// wiregen:user-begin b"]⟩, ⟨"", []⟩] ∧
      Stable (.conventional "github.com/wiregen/wiregen/runtime") []
        { package := "svc"
          services := (Aggregate.ofFiles [sampleContribution]).services
          blocks := PreservedBlock.extract sampleBlocks } := by
  refine ⟨services_sample, by decide +kernel, ?_⟩
  exact stable_of_parsed ⟨by decide, by decide, by decide⟩ (by decide) parsed_sample []
    (by decide +kernel)

/-- A runtime import on one line whose name opens a block. -/
def markedRuntime : ImportEntry :=
  ⟨"example.com/wire", "// wiregen:user-begin q"⟩

/-- The plans of the sample, whose file has the import in front. -/
def markedPlans : List ServicePlan :=
  (planAll [] [sampleService]).1

/-- In the file under such an import the line of the import is read as the start of a block. -/
theorem extract_marked : PreservedBlock.extract
    (unlines (fileLines (namesOf markedRuntime markedPlans) "svc" markedPlans [])) ≠ [] := by
  have hunbroken : ∀ l ∈ fileLines (namesOf markedRuntime markedPlans) "svc" markedPlans [],
      Unbroken l.toList := by
    decide +kernel
  have hmarked : ∃ l ∈ fileLines (namesOf markedRuntime markedPlans) "svc" markedPlans [],
      PreservedBlock.markedName? PreservedBlock.beginMarker
        (String.ofList (dropReturn l.toList)) ≠ none := by
    decide +kernel
  obtain ⟨l, hl, hname⟩ := hmarked
  intro hnil
  have hnone := PreservedBlock.extract_eq_nil_iff.mp hnil
  rw [linesOf_unlines hunbroken] at hnone
  exact hname (hnone _ (List.mem_map_of_mem hl))

/-- Under such an import the file holds a block that it was not generated with. -/
theorem not_stable_of_marked :
    Unbroken markedRuntime.path.toList ∧ Unbroken markedRuntime.name.toList ∧
      (∀ c ∈ [sampleContribution], c.Parsed) ∧
      ¬ Stable markedRuntime [] { package := "svc"
                                  services := (Aggregate.ofFiles [sampleContribution]).services
                                  blocks := PreservedBlock.extract "" } := by
  refine ⟨by decide, by decide, parsed_sample, ?_⟩
  rw [services_sample]
  rintro ⟨emission, hemission, hstable⟩
  have htext : emission.text =
      some (unlines (fileLines (namesOf markedRuntime markedPlans) "svc" markedPlans [])) := by
    rw [ofServices_eq_ok] at hemission
    rw [← Except.ok.inj hemission]
    rfl
  exact extract_marked (hstable _ htext).1

end Emission

namespace Generation

/-- A folder is generated the same whether the file that was generated is there or the one that it
    was generated from. -/
theorem made_text {runtime : ImportEntry} (hruntime : runtime.Unmarked) {state : FolderState}
    (hpackage : OneLine (packageName state.files state.name)) {previous : Option String}
    (hprevious : ∀ text, previous = some text → '\r' ∉ text.toList) {text : String}
    (h : (made runtime state previous).text = some text) :
    made runtime state (some text) = made runtime state previous := by
  have hsmooth : ∀ b ∈ FolderState.blocksOf previous, b.Smooth := by
    cases previous with
    | none => exact List.forall_mem_nil _
    | some old => exact fun b hb => PreservedBlock.smooth_of_not_mem (hprevious old rfl) hb
  refine made_of_blocksOf ?_ runtime state
  exact extract_text hruntime hpackage hsmooth h

/-- A file that was generated without blocks and is read back with some is generated anew with
    these behind it. -/
theorem longer_of_extract {runtime : ImportEntry} {state : FolderState} {text : String}
    (h : (made runtime state none).text = some text) (hblocks : PreservedBlock.extract text ≠ []) :
    ∃ longer, (made runtime state (some text)).text = some longer ∧ longer ≠ text := by
  show ∃ longer, state.textWith runtime (PreservedBlock.extract text) = some longer ∧ longer ≠ text
  change state.textWith runtime [] = some text at h
  unfold FolderState.textWith at h ⊢
  split at h
  · cases h
  · rename_i hplans
    rw [if_neg hplans]
    refine ⟨_, rfl, ?_⟩
    rw [← Option.some.inj h] at hblocks ⊢
    rw [Emission.fileLines_eq_append, unlines_append]
    intro heq
    -- what the blocks add would have to be empty, but it starts with an empty line
    have hadded := congrArg String.toList heq
    rw [String.toList_append, List.append_right_eq_self] at hadded
    obtain ⟨block, more, hcons⟩ := List.exists_cons_of_ne_nil hblocks
    rw [hcons, List.flatMap_cons, List.cons_append] at hadded
    exact absurd hadded (by simp [unlines])

end Generation

end ServiceWiring
