import ServiceWiring.Proofs.GeneratedLiteral
import ServiceWiring.Proofs.GeneratedLocals
import ServiceWiring.Proofs.GeneratedText
import ServiceWiring.Proofs.ImportBlock

/-!
# What a generated file quotes

No line of code starts with a tab of its own, so that the lines of a file tell the lines of code
with their indentation, and the text of a file tells its lines.  The services of a file can
therefore be found again in its text, with all that their code quotes.

* `CodeBlock.eq_of_written`, `Text.unlines_inj` — code from its lines, lines from their text;
* `Emission.quoted_of_fileLines`, `Generation.quoted_of_text` — what the services of a file quote,
  from its lines and from its text;
* `Generation.quoting_undone` — quoting is undone, in a literal and in generated code.
-/

namespace ServiceWiring

open Text StringLiteral CodeBlock

/-! ## Lines with their indentation -/

/-- A text that does not start with a tab. -/
def Flush (text : String) : Prop :=
  text.toList.head? ≠ some '\t'

theorem flush_append {name rest : String} (hname : '\t' ∉ name.toList) (hrest : Flush rest) :
    Flush (name ++ rest) := by
  unfold Flush
  rw [String.toList_append]
  cases hchars : name.toList with
  | nil => exact hrest
  | cons c cs =>
      rw [hchars] at hname
      intro hhead
      exact hname (List.mem_cons.mpr (.inl (Option.some.inj hhead).symm))

theorem Variable.tab_not_mem (v : Variable) : '\t' ∉ v.name.toList := by
  intro hmem
  exact absurd (v.isName.isAsciiNameChar _ hmem) (by decide)

/-- A statement starts with one of its own words or with a name. -/
theorem CodeStatement.flush_text (runtime : String) (s : CodeStatement) :
    Flush (s.text runtime) := by
  cases s with
  | callback call params =>
      cases call with
      | provide service => simp [Flush, CodeStatement.text, Callback.method]
      | mount service => simp [Flush, CodeStatement.text, Callback.method]
      | handle method path middleware => simp [Flush, CodeStatement.text, Callback.method]
  | define names value =>
      cases names with
      | nil => simp [Flush, CodeStatement.text, Variable.listText]
      | cons name more =>
          -- the first variable starts the statement, whatever follows it
          cases more with
          | nil =>
              show Flush (name.name ++ " := " ++ value)
              rw [String.append_assoc]
              exact flush_append name.tab_not_mem (by simp [Flush])
          | cons next more =>
              show Flush (String.intercalate ", " (name.name :: next.name :: more.map (·.name))
                ++ " := " ++ value)
              rw [String.intercalate_cons_cons, String.append_assoc, String.append_assoc,
                String.append_assoc]
              exact flush_append name.tab_not_mem (by simp [Flush])
  | _ => simp [Flush, CodeStatement.text]

theorem flush_code (names : CodeNames) (plan : ServicePlan) : All Flush (plan.code names) := by
  intro l hl
  obtain ⟨s, -, htext⟩ := (ServicePlan.listedAs_code names plan).exists_statement hl
  rw [← htext]
  exact s.flush_text names.runtime

theorem CodeLine.toList_written (l : CodeLine) :
    l.written.toList = List.replicate l.indent '\t' ++ l.text.toList := by
  rw [CodeLine.written, String.toList_append, String.toList_ofList]

/-- Tabs in front of a text that does not start with one. -/
theorem tabs_inj {n m : ℕ} {a b : String} (ha : Flush a) (hb : Flush b)
    (h : List.replicate n '\t' ++ a.toList = List.replicate m '\t' ++ b.toList) :
    n = m ∧ a = b := by
  induction n generalizing m with
  | zero =>
      cases m with
      | zero => exact ⟨rfl, String.toList_inj.mp h⟩
      | succ m =>
          refine absurd ?_ ha
          rw [show a.toList = List.replicate (m + 1) '\t' ++ b.toList from h]
          rfl
  | succ n ih =>
      cases m with
      | zero =>
          refine absurd ?_ hb
          rw [← show List.replicate (n + 1) '\t' ++ a.toList = b.toList from h]
          rfl
      | succ m =>
          obtain ⟨rfl, rfl⟩ := ih (List.cons.inj h).2
          exact ⟨rfl, rfl⟩

theorem CodeLine.written_inj {l l' : CodeLine} (hl : Flush l.text) (hl' : Flush l'.text)
    (h : l.written = l'.written) : l = l' := by
  have hchars := congrArg String.toList h
  rw [CodeLine.toList_written, CodeLine.toList_written] at hchars
  obtain ⟨hindent, htext⟩ := tabs_inj hl hl' hchars
  obtain ⟨indent, text⟩ := l
  obtain ⟨indent', text'⟩ := l'
  obtain rfl : indent = indent' := hindent
  obtain rfl : text = text' := htext
  rfl

/-- Code is known from its lines. -/
theorem CodeBlock.eq_of_written {a b : CodeBlock} (ha : All Flush a) (hb : All Flush b)
    (h : a.written = b.written) : a = b := by
  induction a generalizing b with
  | nil => exact (List.map_eq_nil_iff.mp h.symm).symm
  | cons l a ih =>
      cases b with
      | nil => cases h
      | cons l' b =>
          obtain ⟨hline, hmore⟩ := List.cons.inj h
          obtain rfl : l = l' := CodeLine.written_inj (ha l (List.mem_cons_self ..))
            (hb l' (List.mem_cons_self ..)) hline
          rw [ih (fun k hk => ha k (List.mem_cons_of_mem _ hk))
            (fun k hk => hb k (List.mem_cons_of_mem _ hk)) hmore]

/-- Lines are known from the text that is put together from them. -/
theorem Text.unlines_inj {ls ls' : List String} (h : ∀ l ∈ ls, OneLine l)
    (h' : ∀ l ∈ ls', OneLine l) (hsame : unlines ls = unlines ls') : ls = ls' := by
  induction ls generalizing ls' with
  | nil =>
      cases ls' with
      | nil => rfl
      | cons l' ls' =>
          have hchars := congrArg String.toList hsame
          rw [toList_unlines_cons] at hchars
          exact absurd hchars.symm (List.append_ne_nil_of_right_ne_nil _ (List.cons_ne_nil _ _))
  | cons l ls ih =>
      cases ls' with
      | nil =>
          have hchars := congrArg String.toList hsame
          rw [toList_unlines_cons] at hchars
          exact absurd hchars (List.append_ne_nil_of_right_ne_nil _ (List.cons_ne_nil _ _))
      | cons l' ls' =>
          have hchars := congrArg String.toList hsame
          rw [toList_unlines_cons, toList_unlines_cons] at hchars
          obtain ⟨hline, hmore⟩ :=
            cut_inj (h l (List.mem_cons_self ..)) (h' l' (List.mem_cons_self ..)) hchars
          rw [String.toList_inj.mp hline, ih (fun k hk => h k (List.mem_cons_of_mem _ hk))
            (fun k hk => h' k (List.mem_cons_of_mem _ hk)) (String.toList_inj.mp hmore)]

/-! ## Files -/

namespace Emission

variable {names names' : CodeNames} {package package' : String} {plans plans' : List ServicePlan}
  {blocks blocks' : List PreservedBlock}

/-- The lines of a file in front of its `init` function. -/
def frontLines (names : CodeNames) (package : String) : List String :=
  [generatedHeader, "", s!"package {package}", ""] ++ names.imports.blockLines ++ [""]

/-- The calls in the `init` function. -/
def callLines (names : CodeNames) (plans : List ServicePlan) : List String :=
  (nested (plans.flatMap fun plan =>
    line s!"{plan.registerName}({names.runtime}.Default())")).written

/-- The lines for a service. -/
def serviceLines (names : CodeNames) (plan : ServicePlan) : List String :=
  "" :: (plan.code names).written

theorem fileLines_eq (names : CodeNames) (package : String) (plans : List ServicePlan)
    (blocks : List PreservedBlock) :
    fileLines names package plans blocks = frontLines names package ++ "func init() \x7b" ::
      (callLines names plans ++ "\x7d" :: (plans.flatMap (serviceLines names)
        ++ blocks.flatMap fun block => "" :: block.markedLines)) := by
  have hinit : (initCode names plans).written
      = "func init() \x7b" :: (callLines names plans ++ ["\x7d"]) := by
    unfold initCode callLines written
    rw [List.map_append, List.map_append]
    rfl
  have hservices : serviceLines names = fun plan => "" :: (plan.code names).written := rfl
  rw [fileLines, hinit, frontLines, hservices]
  simp only [List.append_assoc, List.cons_append, List.nil_append]

theorem init_not_mem_frontLines (names : CodeNames) (package : String) :
    "func init() \x7b" ∉ frontLines names package := by
  have himports : "func init() \x7b" ∉ names.imports.blockLines := by
    intro hmem
    by_cases hentries : names.imports.entries = []
    · rw [ResolvedImports.blockLines, hentries] at hmem
      cases hmem
    · rw [ResolvedImports.blockLines_eq hentries] at hmem
      rcases List.mem_append.mp hmem with hmem | hmem
      · rcases List.mem_cons.mp hmem with heq | hmem
        · exact absurd heq (by decide)
        · rcases ResolvedImports.mem_innerLines hmem with heq | ⟨e, -, heq⟩
          · exact absurd heq (by decide)
          · have hhead := congrArg (fun s => s.toList.head?) heq
            simp [ImportEntry.toList_importLine] at hhead
      · exact absurd (List.mem_singleton.mp hmem) (by decide)
  have hpackage : "func init() \x7b" ≠ "package " ++ package := by
    intro heq
    have hhead := congrArg (fun s => s.toList.head?) heq
    simp at hhead
  have hheader : "func init() \x7b" ≠ generatedHeader := by
    decide
  simp [frontLines, himports, hpackage, hheader]

theorem close_not_mem_callLines (names : CodeNames) (plans : List ServicePlan) :
    "\x7d" ∉ callLines names plans := by
  intro hmem
  obtain ⟨l, hl, hwritten⟩ := List.mem_map.mp hmem
  obtain ⟨k, -, rfl⟩ := List.mem_map.mp hl
  have hhead := congrArg (fun s => s.toList.head?) hwritten
  simp [CodeLine.toList_written, CodeLine.shift, List.replicate_succ] at hhead

/-- The lines for a service end with the first line that closes a function. -/
theorem exists_front_serviceLines (names : CodeNames) (plan : ServicePlan) :
    ∃ front, serviceLines names plan = front ++ ["\x7d"] ∧ "\x7d" ∉ front := by
  obtain ⟨front, hcode, honce⟩ := (ServicePlan.compound_code names plan).exists_front
  have hflush : All Flush (front ++ line "\x7d") := hcode ▸ flush_code names plan
  obtain ⟨hfront, hclose⟩ := all_append.mp hflush
  refine ⟨"" :: written front, ?_, ?_⟩
  · rw [serviceLines, hcode, written, List.map_append]
    rfl
  · intro hmem
    rcases List.mem_cons.mp hmem with hempty | hmem
    · exact absurd hempty (by decide)
    · obtain ⟨l, hl, hwritten⟩ := List.mem_map.mp hmem
      -- a line in front that is written like the closing one would be the closing one
      have hsame : l = ⟨0, "\x7d"⟩ :=
        CodeLine.written_inj (hfront l hl) (all_line.mp hclose) (hwritten.trans rfl)
      exact honce (hsame ▸ hl)

/-- What follows goes on with a service. -/
def GoesOn (ls : List String) : Prop :=
  ∃ l ∈ ls.tail.head?, "func ".toList <+: l.toList

theorem goesOn_serviceLines (names : CodeNames) (plan : ServicePlan) (ls : List String) :
    GoesOn (serviceLines names plan ++ ls) := by
  obtain ⟨first, more, hcode, hfirst⟩ := (ServicePlan.compound_code names plan).exists_first
  have hlines : serviceLines names plan = "" :: first :: written more := by
    rw [serviceLines, hcode, written, List.map_cons, CodeLine.written]
    exact congrArg (fun l => "" :: l :: written more) (String.empty_append)
  rw [hlines]
  exact ⟨first, rfl, hfirst⟩

theorem not_goesOn_blocks (blocks : List PreservedBlock) :
    ¬ GoesOn (blocks.flatMap fun block => "" :: block.markedLines) := by
  rintro ⟨l, hl, hstart⟩
  cases blocks with
  | nil => cases hl
  | cons block blocks =>
      obtain rfl := Option.some.inj hl
      simp [PreservedBlock.beginMarker] at hstart

/-- What the services of a file quote, from its lines. -/
theorem quoted_of_fileLines
    (h : fileLines names package plans blocks = fileLines names' package' plans' blocks') :
    plans.map (·.quoted) = plans'.map (·.quoted) := by
  rw [fileLines_eq, fileLines_eq] at h
  -- the line that opens the `init` function and the one that closes it leave services and blocks
  obtain ⟨-, hinit⟩ :=
    cut_inj (init_not_mem_frontLines names package) (init_not_mem_frontLines names' package') h
  obtain ⟨-, hservices⟩ :=
    cut_inj (close_not_mem_callLines names plans) (close_not_mem_callLines names' plans') hinit
  refine map_eq_of_flatMap_eq ?_ (goesOn_serviceLines names) (goesOn_serviceLines names') ?_
    (not_goesOn_blocks blocks) (not_goesOn_blocks blocks') hservices
  · intro plan plan' ls ls' hsame
    obtain ⟨front, hlines, honce⟩ := exists_front_serviceLines names plan
    obtain ⟨front', hlines', honce'⟩ := exists_front_serviceLines names' plan'
    rw [hlines, hlines', List.append_assoc, List.append_assoc] at hsame
    obtain ⟨rfl, hrest⟩ := cut_inj honce honce' hsame
    exact ⟨hlines.trans hlines'.symm, hrest⟩
  · intro plan plan' hsame
    exact ServicePlan.quoted_of_code
      (eq_of_written (flush_code names plan) (flush_code names' plan') (List.cons.inj hsame).2)

end Emission

namespace Generation

variable {runtime runtime' : ImportEntry} {state state' : FolderState}
  {previous previous' : Option String}

/-- No line of a generated file is broken. -/
theorem oneLine_of_mem_fileLines (hruntime : runtime.Unmarked)
    (hname : ∀ name, state.name = some name → OneLine name) {l : String}
    (hl : l ∈ Emission.fileLines (Emission.namesOf runtime state.planned.1)
      (packageName state.files state.name) state.planned.1 (FolderState.blocksOf previous)) :
    OneLine l := by
  have hplans : ∀ plan ∈ state.planned.1, plan.Unbroken := fun plan hplan =>
    Emission.unbroken_of_mem_planAll state.unbroken_services hplan
  rw [Emission.fileLines_eq_append] at hl
  rcases List.mem_append.mp hl with hl | hl
  · exact (Emission.isPlainLine_of_mem_fileLines (Emission.plain_namesOf hruntime hplans)
      (oneLine_package hname) hplans hl).1
  · obtain ⟨block, hblock, hl⟩ := List.mem_flatMap.mp hl
    rcases List.mem_cons.mp hl with rfl | hl
    · decide
    · exact ((kept_blocksOf previous).1 block hblock).unbroken_markedLines l hl

/-- What the services of a folder quote, from its generated file. -/
theorem quoted_of_text (hruntime : runtime.Unmarked) (hruntime' : runtime'.Unmarked)
    (hname : ∀ name, state.name = some name → OneLine name)
    (hname' : ∀ name, state'.name = some name → OneLine name)
    (h : (made runtime state previous).text = (made runtime' state' previous').text) :
    state.planned.1.map (·.quoted) = state'.planned.1.map (·.quoted) := by
  change state.textWith runtime (FolderState.blocksOf previous)
    = state'.textWith runtime' (FolderState.blocksOf previous') at h
  unfold FolderState.textWith at h
  -- only a folder without services has no text
  split at h
  · rename_i hempty
    split at h
    · rename_i hempty'
      rw [List.isEmpty_iff.mp hempty, List.isEmpty_iff.mp hempty']
    · cases h
  · split at h
    · cases h
    · refine Emission.quoted_of_fileLines (unlines_inj ?_ ?_ (Option.some.inj h))
      · intro l hl
        exact oneLine_of_mem_fileLines hruntime hname hl
      · intro l hl
        exact oneLine_of_mem_fileLines hruntime' hname' hl

/-- Quoting is undone by reading.  A text that is quoted afresh is one literal that stands for the
    text, different texts are quoted in different ways, and the names, keys, separators, methods,
    paths, middleware and parameters that stand in generated code can be read back from it. -/
theorem quoting_undone :
    (∀ s : String, Undoes s (quote s))
      ∧ Function.Injective quote
      ∧ (∀ (names names' : CodeNames) (plan plan' : FieldPlan),
          plan.code names = plan'.code names' → plan.quoted = plan'.quoted)
      ∧ (∀ (names names' : CodeNames) (e e' : Endpoint),
          e.code names = e'.code names' → e.quoted = e'.quoted)
      ∧ (∀ (names names' : CodeNames) (plan plan' : ServicePlan),
          plan.code names = plan'.code names' → plan.quoted = plan'.quoted)
      ∧ ∀ (runtime runtime' : ImportEntry) (state state' : FolderState)
          (previous previous' : Option String), runtime.Unmarked → runtime'.Unmarked →
          (∀ name, state.name = some name → OneLine name) →
          (∀ name, state'.name = some name → OneLine name) →
          (made runtime state previous).text = (made runtime' state' previous').text →
          state.planned.1.map (·.quoted) = state'.planned.1.map (·.quoted) := by
  refine ⟨undoes_quote, quote_injective, ?_, ?_, ?_, ?_⟩
  · intro names names' plan plan' hcode
    exact FieldPlan.quoted_of_code hcode
  · intro names names' e e' hcode
    exact Endpoint.quoted_of_code hcode
  · intro names names' plan plan' hcode
    exact ServicePlan.quoted_of_code hcode
  · intro runtime runtime' state state' previous previous' hruntime hruntime' hname hname' htext
    exact quoted_of_text hruntime hruntime' hname hname' htext

/-- A list that is split at a separator. -/
def splitPlan (separator : String) : FieldPlan where
  name := "Tags"
  init := .config "tags" (.list .string ⟨"string", []⟩) none false separator

/-- An endpoint that is reached by a path. -/
def endpointAt (path : String) : Endpoint where
  method := "GET"
  path := path
  middleware := ["auth"]
  handler := "Get"
  params := []
  results := []
  loc := ⟨"svc/a.go", 8, 1, "// @Route(GET)"⟩

/-- A file with a field that is looked up by a key. -/
def keyedSource (key : String) : String :=
  "package svc\n\n// @Service\ntype A struct \x7b\n\t// @Config(key=\x60" ++ key
    ++ "\x60)\n\tTags []string\n\x7d\n"

/-- The folder of the file. -/
def keyedState (key : String) : FolderState where
  sources := [(⟨"svc/a.go"⟩, .ok (keyedSource key))]
  output := .error .notFound
  manifest := none
  name := some "svc"

/-- Texts that end with a backslash or with a double quote are told apart wherever they stand. -/
theorem quoting_undone_backslash_quote :
    Undoes "a\"\\\n\t" (quote "a\"\\\n\t") ∧ quote "\\\"" ≠ quote "\"\\"
      ∧ (splitPlan "\\").code ⟨⟨[]⟩, "wire"⟩ ≠ (splitPlan "\"").code ⟨⟨[]⟩, "wire"⟩
      ∧ (endpointAt "/a\\").code ⟨⟨[]⟩, "wire"⟩ ≠ (endpointAt "/a\"").code ⟨⟨[]⟩, "wire"⟩
      ∧ (made (.conventional "example.com/wire") (keyedState "a\\") none).text
        ≠ (made (.conventional "example.com/wire") (keyedState "a\"") none).text := by
  have hruntime : (ImportEntry.conventional "example.com/wire").Unmarked :=
    ⟨by decide, by decide, by decide⟩
  have hname : ∀ key name, (keyedState key).name = some name → OneLine name := by
    rintro key name ⟨⟩
    decide
  obtain ⟨hundoes, hinjective, hfield, hendpoint, -, htext⟩ := quoting_undone
  refine ⟨hundoes _, ?_, ?_, ?_, ?_⟩
  · intro h
    exact absurd (hinjective h) (by decide)
  · intro h
    exact absurd (hfield _ _ _ _ h) (by decide)
  · intro h
    exact absurd (hendpoint _ _ _ _ h) (by decide)
  · intro h
    have hquoted : (keyedState "a\\").planned.1.map (·.quoted)
        ≠ (keyedState "a\"").planned.1.map (·.quoted) := by
      decide +kernel
    exact hquoted (htext _ _ _ _ _ _ hruntime hruntime (hname _) (hname _) h)

end Generation

end ServiceWiring
