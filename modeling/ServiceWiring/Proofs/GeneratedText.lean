import ServiceWiring.Proofs.CodeBlock
import ServiceWiring.Proofs.PlanText

/-!
# The lines of generated code

Apart from its header and its preserved blocks a generated file has no comments: every line of
code starts with a visible character that is no slash, and nothing that is put into a line ends
it early.  Only the line of an import starts with a name of its own, and that name is no marker.
So the preserved blocks of a generated file are those that it was generated with.

* `IsCode`, `IsCodeBlock` — lines of code, and how they are put together;
* `FieldPlan.isCodeBlock_code`, `ServicePlan.isCodeBlock_code` — the code of fields and services;
* `IsPlainLine`, `Emission.isPlainLine_of_mem_fileLines` — all lines of a file;
* `Emission.extract_fileLines`, `Generation.extract_text` — the preserved blocks of a file are those
  that it was generated with;
* `Generation.blocksOf_text` — the preserved blocks of a file that was generated without any.
-/

namespace ServiceWiring

open Text CodeBlock

/-! ## Lines of code -/

/-- A text that can be put into a line. -/
def OneLine (text : String) : Prop :=
  Unbroken text.toList

instance (text : String) : Decidable (OneLine text) :=
  inferInstanceAs (Decidable (Unbroken _))

@[simp]
theorem oneLine_append {a b : String} : OneLine (a ++ b) ↔ OneLine a ∧ OneLine b :=
  unbroken_append

@[simp]
theorem oneLine_quote (s : String) : OneLine (quote s) :=
  unbroken_quote s

@[simp]
theorem oneLine_repr (n : Nat) : OneLine n.repr :=
  unbroken_toString n

/-- A line of code: its first visible character starts no comment. -/
def IsCode (text : String) : Prop :=
  OneLine text ∧ (trimStart text.toList).head?.any (· != '/') = true

instance (text : String) : Decidable (IsCode text) :=
  inferInstanceAs (Decidable (_ ∧ _))

/-- What follows the start of a line of code only has to stay on the line. -/
@[simp]
theorem isCode_append {a b : String} (h : IsCode a) : IsCode (a ++ b) ↔ OneLine b := by
  constructor
  · rintro ⟨hline, -⟩
    exact (oneLine_append.mp hline).2
  · intro hb
    refine ⟨oneLine_append.mpr ⟨h.1, hb⟩, ?_⟩
    have hstart := h.2
    rw [String.toList_append]
    cases ha : trimStart a.toList with
    | nil =>
        rw [ha] at hstart
        cases hstart
    | cons c cs =>
        rw [ha] at hstart
        rw [trimStart_append (by rw [ha]; exact List.cons_ne_nil _ _), ha]
        exact hstart

/-- Lines of code. -/
def IsCodeBlock (block : CodeBlock) : Prop :=
  ∀ l ∈ block, IsCode l.text

@[simp]
theorem isCodeBlock_nil : IsCodeBlock [] :=
  all_nil

@[simp]
theorem isCodeBlock_line {text : String} : IsCodeBlock (line text) ↔ IsCode text :=
  all_line

@[simp]
theorem isCodeBlock_append {a b : CodeBlock} :
    IsCodeBlock (a ++ b) ↔ IsCodeBlock a ∧ IsCodeBlock b :=
  all_append

@[simp]
theorem isCodeBlock_nested {block : CodeBlock} : IsCodeBlock (nested block) ↔ IsCodeBlock block :=
  all_nested

theorem isCodeBlock_flatMap {α : Type} {xs : List α} {f : α → CodeBlock}
    (h : ∀ x ∈ xs, IsCodeBlock (f x)) : IsCodeBlock (xs.flatMap f) :=
  all_flatMap h

/-! ## Statements -/

/-- Names that can stand in generated code. -/
structure CodeNames.Plain (names : CodeNames) : Prop where
  imports : names.imports.Unmarked
  runtime : OneLine names.runtime

attribute [local simp] String.append_assoc

namespace FieldPlan

variable {names : CodeNames} {target source key separator : String}

theorem isCodeBlock_configError (h : names.Plain) (hkey : OneLine key) :
    IsCodeBlock (configError names key) := by
  simp +decide [configError, h.runtime, hkey]

theorem isCodeBlock_missingConfig (h : names.Plain) (hkey : OneLine key) :
    IsCodeBlock (missingConfig names key) := by
  simp +decide [missingConfig, h.runtime, hkey]

theorem isCodeBlock_checkError (h : names.Plain) (hkey : OneLine key) :
    IsCodeBlock (checkError names key) := by
  simp +decide [checkError, isCodeBlock_configError h hkey]

theorem oneLine_parseCall? (h : names.Plain) {kind : ScalarKind} (hsource : OneLine source)
    {call : String} (hcall : parseCall? names kind source = some call) : OneLine call := by
  have hstrconv : OneLine (names.imports.nameOfStandard "strconv") :=
    h.imports.nameOfStandard (by decide)
  have htime : OneLine (names.imports.nameOfStandard "time") :=
    h.imports.nameOfStandard (by decide)
  cases kind with
  | string => cases hcall
  | _ =>
      rw [← Option.some.inj hcall]
      simp +decide [hstrconv, htime, hsource]

theorem oneLine_sized {stem : String} (hstem : OneLine stem) (bits : Nat) :
    OneLine (sized stem bits) := by
  unfold sized
  split
  · exact hstem
  · simp [hstem]

theorem oneLine_convert (kind : ScalarKind) {value : String} (hvalue : OneLine value) :
    OneLine (convert kind value) := by
  have hint : OneLine "int" := by decide
  have huint : OneLine "uint" := by decide
  cases kind with
  | int bits => simp +decide [convert, hvalue, oneLine_sized hint bits]
  | uint bits => simp +decide [convert, hvalue, oneLine_sized huint bits]
  | float bits => simp +decide [convert, hvalue]
  | _ => exact hvalue

theorem isCodeBlock_appendPart (h : names.Plain) (kind : ScalarKind) {element : TypeExpr}
    (helement : element.Unbroken) (htarget : IsCode target) (hkey : OneLine key) :
    IsCodeBlock (appendPart names kind element target key) := by
  unfold appendPart
  split
  · simp +decide [htarget, htarget.1]
  · rename_i call hcall
    have hcall := oneLine_parseCall? h (by decide) hcall
    have hvalue : OneLine (if kind = .duration then "parsed"
        else names.imports.renderType element ++ "(parsed)") := by
      have htype : OneLine (names.imports.renderType element) := h.imports.renderType helement
      split
      · decide
      · simp +decide [htype]
    simp +decide [htarget, htarget.1, hcall, hvalue, isCodeBlock_checkError h hkey]

theorem isCodeBlock_decode (h : names.Plain) {shape : TypeShape} (hshape : shape.Unbroken)
    (htarget : IsCode target) (hsource : OneLine source) (hkey : OneLine key) :
    IsCodeBlock (decode names shape target source separator key) := by
  cases shape with
  | scalar kind =>
      unfold decode
      dsimp only
      split
      · simp +decide [htarget, hsource]
      · rename_i call hcall
        have hcall := oneLine_parseCall? h hsource hcall
        have hvalue : OneLine (convert kind "parsed") := oneLine_convert kind (by decide)
        simp +decide [htarget, hcall, hvalue, isCodeBlock_checkError h hkey]
  | list kind element =>
      have hstrings : OneLine (names.imports.nameOfStandard "strings") :=
        h.imports.nameOfStandard (by decide)
      have happend := isCodeBlock_appendPart h kind hshape htarget hkey
      simp +decide [decode, hstrings, hsource, happend]
  | bytes => simp +decide [decode, htarget, hsource]
  | structured base hook pointer =>
      have hbase : OneLine base := hshape
      have herror := isCodeBlock_configError h hkey
      cases pointer with
      | true => simp +decide [decode, htarget, htarget.1, hbase, hsource, herror]
      | false => simp +decide [decode, htarget.1, hsource, herror]

theorem isCodeBlock_missingBranch (h : names.Plain) {shape : TypeShape} (hshape : shape.Unbroken)
    {default : Option DefaultValue} (hdefault : ∀ d, default = some d → d.Unbroken)
    (required : Bool) (htarget : IsCode target) (hkey : OneLine key) :
    IsCodeBlock (missingBranch names shape default required target separator key) := by
  unfold missingBranch
  split
  · rename_i value
    have hvalue : OneLine (value.render names.imports) := hdefault value rfl names.imports h.imports
    have hdecode : ∀ {shape : TypeShape}, shape.Unbroken → IsCodeBlock
        (decode names shape target (value.render names.imports) separator key) :=
      fun hshape => isCodeBlock_decode h hshape htarget hvalue hkey
    cases shape with
    | structured base hook pointer => simp +decide [hdecode hshape]
    | _ => simp +decide [htarget, hvalue]
  · split
    · simp +decide [isCodeBlock_missingConfig h hkey]
    · exact isCodeBlock_nil

/-- The statements for a field are lines of code. -/
theorem isCodeBlock_code (h : names.Plain) {plan : FieldPlan} (hplan : plan.Unbroken) :
    IsCodeBlock (code names plan) := by
  have hname : OneLine plan.name := hplan.name
  have hinit := hplan.init
  have htarget : IsCode s!"svc.{plan.name}" := by simp +decide [hname]
  unfold code
  dsimp only
  split
  · simp +decide [hname]
  · rename_i key shape default required separator heq
    rw [heq] at hinit
    obtain ⟨hshape, hdefault⟩ := hinit
    have hkey : OneLine (quote key) := oneLine_quote key
    have hmissing : IsCodeBlock (if required then line "\x7d else \x7b"
        ++ nested (missingConfig names (quote key)) else []) := by
      split
      · simp +decide [isCodeBlock_missingConfig h hkey]
      · exact isCodeBlock_nil
    split
    · simp +decide [hname, hmissing, isCodeBlock_configError h hkey]
    · have hdecode : IsCodeBlock (decode names shape s!"svc.{plan.name}" "v" separator (quote key)) :=
        isCodeBlock_decode h hshape htarget (by decide) hkey
      have hbranch : IsCodeBlock (missingBranch names shape default required s!"svc.{plan.name}"
          separator (quote key)) :=
        isCodeBlock_missingBranch h hshape hdefault required htarget hkey
      simp only [isCodeBlock_append, isCodeBlock_nested, isCodeBlock_line, hdecode, hbranch]
      simp +decide

end FieldPlan

namespace Endpoint

variable {names : CodeNames}

theorem oneLine_middlewareExpression (middleware : List String) :
    OneLine (middlewareExpression middleware) := by
  have hjoined : OneLine (String.intercalate ", " (middleware.map quote)) := by
    refine unbroken_intercalate (by decide) ?_
    intro part hpart
    obtain ⟨name, -, rfl⟩ := List.mem_map.mp hpart
    exact oneLine_quote name
  unfold middlewareExpression
  split
  · decide
  · simp +decide [hjoined]

theorem isCodeBlock_bindParam (h : names.Plain) {param : EndpointParam}
    (hparam : param.type.Unbroken) (position : Nat) :
    IsCodeBlock (bindParam names param position) := by
  have htype : OneLine (if param.variadic then "[]" ++ names.imports.renderType param.type
      else names.imports.renderType param.type) := by
    have htype : OneLine (names.imports.renderType param.type) := h.imports.renderType hparam
    split
    · simp +decide [htype]
    · exact htype
  unfold bindParam
  simp +decide [paramLocal, htype]

theorem isCodeBlock_callHandler (h : names.Plain) {call : String} (hcall : IsCode call)
    {results : List TypeExpr} (hresults : ∀ type ∈ results, type.Unbroken) :
    IsCodeBlock (callHandler names call results) := by
  have htype : ∀ type ∈ results, OneLine (names.imports.renderType type) :=
    fun type hmem => h.imports.renderType (hresults type hmem)
  unfold callHandler
  split
  · simp +decide [hcall]
  · rename_i only
    have honly := htype only (List.mem_singleton_self _)
    split
    · simp +decide [hcall.1]
    · simp +decide [hcall.1, honly]
  · rename_i first rest _
    have hfirst := htype first (List.mem_cons_self ..)
    simp +decide [hcall.1, hfirst]

theorem oneLine_argument (param : EndpointParam) (i : Nat) : OneLine (argument param i) := by
  unfold argument
  split
  · simp +decide [paramLocal]
  · simp +decide [paramLocal]

/-- The call that registers an endpoint is lines of code. -/
theorem isCodeBlock_code (h : names.Plain) {e : Endpoint} (he : e.Unbroken) :
    IsCodeBlock (code names e) := by
  have hhandler : OneLine e.handler := he.handler
  have hmiddleware := oneLine_middlewareExpression e.middleware
  have hcall : ∀ arguments, OneLine arguments → IsCode s!"svc.{e.handler}({arguments})" := by
    intro arguments h
    simp +decide [hhandler, h]
  unfold code
  simp only [isCodeBlock_append, isCodeBlock_nested, isCodeBlock_line]
  refine ⟨⟨?_, ?_, ?_⟩, by decide⟩
  · simp +decide [hmiddleware, h.runtime]
  · -- the parameters are bound one after the other
    refine isCodeBlock_flatMap ?_
    rintro ⟨param, i⟩ hparam
    exact isCodeBlock_bindParam h (he.params param (List.fst_mem_of_mem_zipIdx hparam)) i
  · refine isCodeBlock_callHandler h (hcall _ ?_) he.results
    refine unbroken_intercalate (by decide) ?_
    intro part hpart
    obtain ⟨⟨param, i⟩, -, rfl⟩ := List.mem_map.mp hpart
    exact oneLine_argument param i

end Endpoint

namespace ServicePlan

variable {names : CodeNames} {plan : ServicePlan}

theorem isCodeBlock_providerCode (h : names.Plain) (hplan : plan.Unbroken) :
    IsCodeBlock (plan.providerCode names) := by
  have hstruct : OneLine plan.service.structName := hplan.service.structName
  have hfields : IsCodeBlock (plan.fields.flatMap (FieldPlan.code names)) :=
    isCodeBlock_flatMap fun field hfield => FieldPlan.isCodeBlock_code h (hplan.fields field hfield)
  have hconfig : IsCodeBlock (if plan.hasConfig then line "cfg := c.Config()" else []) := by
    split
    · simp +decide
    · exact isCodeBlock_nil
  unfold providerCode
  simp only [isCodeBlock_append, isCodeBlock_nested, isCodeBlock_line, hfields, hconfig]
  simp +decide [hstruct, h.runtime]

theorem isCodeBlock_mountCode (h : names.Plain) (hplan : plan.Unbroken) :
    IsCodeBlock (plan.mountCode names) := by
  have hstruct : OneLine plan.service.structName := hplan.service.structName
  have hendpoints : IsCodeBlock (plan.service.endpoints.flatMap (Endpoint.code names)) :=
    isCodeBlock_flatMap fun e he => Endpoint.isCodeBlock_code h (hplan.service.endpoints e he)
  unfold mountCode
  split
  · simp +decide [hstruct, h.runtime, hendpoints]
  · exact isCodeBlock_nil

/-- The function of a service is lines of code. -/
theorem isCodeBlock_code (h : names.Plain) (hplan : plan.Unbroken) :
    IsCodeBlock (plan.code names) := by
  have hstruct : OneLine plan.service.structName := hplan.service.structName
  unfold code
  simp +decide [registerName, hstruct, h.runtime, isCodeBlock_providerCode h hplan,
    isCodeBlock_mountCode h hplan]

end ServicePlan

/-! ## Lines of a file -/

/-- A line that does not look like a comment. -/
def Quiet (l : List Char) : Prop :=
  (trimStart l).head? ≠ some '/'

/-- A carriage return at the end of a line does not make it look like a comment. -/
theorem Quiet.dropReturn {l : List Char} (h : Quiet l) : Quiet (dropReturn l) := by
  unfold Text.dropReturn
  split
  · rename_i hlast
    intro hslash
    have hne : trimStart l.dropLast ≠ [] := by
      intro hnil
      rw [hnil] at hslash
      cases hslash
    obtain ⟨front, rfl⟩ := List.getLast?_eq_some_iff.mp hlast
    rw [List.dropLast_concat] at hslash hne
    refine h ?_
    rw [trimStart_append hne, List.head?_append, hslash]
    rfl
  · exact h

theorem Quiet.markedName? {l : String} (h : Quiet l.toList) :
    PreservedBlock.markedName? PreservedBlock.beginMarker l = none := by
  rw [PreservedBlock.markedName?_eq_none_iff PreservedBlock.isMarker_begin]
  rintro ⟨rest, hrest⟩
  refine h ?_
  rw [← hrest, List.head?_append]
  rfl

theorem quiet_of_isCode {text : String} (h : IsCode text) : Quiet text.toList := by
  intro hslash
  have hstart := h.2
  rw [hslash] at hstart
  cases hstart

theorem isCode_written {l : CodeLine} (h : IsCode l.text) : IsCode l.written := by
  have htabs : ∀ n cs, trimStart (List.replicate n '\t' ++ cs) = trimStart cs := by
    intro n cs
    induction n with
    | zero => rfl
    | succ n ih => exact ih
  refine ⟨oneLine_append.mpr ⟨?_, h.1⟩, ?_⟩
  · intro hmem
    rw [String.toList_ofList] at hmem
    exact absurd (List.eq_of_mem_replicate hmem) (by decide)
  · unfold CodeLine.written
    rw [String.toList_append, String.toList_ofList, htabs]
    exact h.2

/-- A line of a generated file that belongs to no preserved block. -/
def IsPlainLine (l : String) : Prop :=
  Unbroken l.toList ∧
    PreservedBlock.markedName? PreservedBlock.beginMarker (String.ofList (dropReturn l.toList)) = none

theorem isPlainLine_of_quiet {l : String} (hl : Unbroken l.toList) (h : Quiet l.toList) :
    IsPlainLine l := by
  refine ⟨hl, Quiet.markedName? ?_⟩
  rw [String.toList_ofList]
  exact h.dropReturn

theorem isPlainLine_of_isCode {text : String} (h : IsCode text) : IsPlainLine text :=
  isPlainLine_of_quiet h.1 (quiet_of_isCode h)

theorem isPlainLine_empty : IsPlainLine "" :=
  isPlainLine_of_quiet Unbroken.nil (by unfold Quiet; decide)

theorem isPlainLine_of_mem_written {block : CodeBlock} (h : IsCodeBlock block) {l : String}
    (hl : l ∈ block.written) : IsPlainLine l := by
  obtain ⟨code, hcode, rfl⟩ := List.mem_map.mp hl
  exact isPlainLine_of_isCode (isCode_written (h code hcode))

/-- What follows the name of an import does not complete a marker. -/
theorem isPlainLine_importLine {entry : ImportEntry} (h : entry.Unmarked) :
    IsPlainLine (ResolvedImports.importLine entry) := by
  have hpath : OneLine entry.path := h.path
  unfold ResolvedImports.importLine
  split
  · exact isPlainLine_of_isCode (by simp +decide [hpath])
  · have hname : OneLine entry.name := h.name
    have hquoted : IsCode (" \"" ++ (entry.path ++ "\"")) := by simp +decide [hpath]
    have hmarked : PreservedBlock.markedName? PreservedBlock.beginMarker
        (entry.name ++ (" \"" ++ (entry.path ++ "\""))) = none :=
      PreservedBlock.markedName?_append PreservedBlock.isMarker_begin h.unmarked
        (quiet_of_isCode hquoted).markedName? (by decide)
    have htext : (s!"\t{entry.name} \"{entry.path}\"").toList =
        '\t' :: (entry.name ++ (" \"" ++ (entry.path ++ "\""))).toList := by
      simp
    refine ⟨?_, ?_⟩
    · rw [htext]
      refine Unbroken.cons (by decide) ?_
      show OneLine _
      simp +decide [hname, hpath]
    · have hreturn : (s!"\t{entry.name} \"{entry.path}\"").toList.getLast? = some '"' := by
        rw [String.toList_append, List.getLast?_append]
        rfl
      rw [dropReturn, if_neg (by rw [hreturn]; decide), String.ofList_toList,
        PreservedBlock.markedName?_eq_none_iff PreservedBlock.isMarker_begin, htext]
      -- the tab in front of the name is cut off with the other blanks
      exact (PreservedBlock.markedName?_eq_none_iff PreservedBlock.isMarker_begin).mp hmarked

theorem ResolvedImports.isPlainLine_of_mem_blockLines {imports : ResolvedImports}
    (h : imports.Unmarked) {l : String} (hl : l ∈ imports.blockLines) : IsPlainLine l := by
  have hgroup : ∀ {p : ImportEntry → Bool}, l ∈ groupLines (imports.entries.filter p) →
      IsPlainLine l := by
    intro p hl
    obtain ⟨entry, hentry, rfl⟩ := List.mem_map.mp hl
    have hmem := (List.mem_filter.mp (List.mem_mergeSort.mp hentry)).1
    exact isPlainLine_importLine (h entry hmem)
  unfold blockLines at hl
  dsimp only at hl
  split at hl
  · cases hl
  · rcases List.mem_append.mp hl with hl | hl
    · rcases List.mem_append.mp hl with hl | hl
      · rcases List.mem_append.mp hl with hl | hl
        · rcases List.mem_cons.mp hl with rfl | hl
          · exact isPlainLine_of_isCode (by decide)
          · exact hgroup hl
        · split at hl
          · cases hl
          · rw [List.mem_singleton.mp hl]
            exact isPlainLine_empty
      · exact hgroup hl
    · rw [List.mem_singleton.mp hl]
      exact isPlainLine_of_isCode (by decide)

namespace Emission

variable {names : CodeNames} {plans : List ServicePlan}

theorem isCodeBlock_initCode (h : names.Plain) (hplans : ∀ plan ∈ plans, plan.Unbroken) :
    IsCodeBlock (initCode names plans) := by
  have hcalls : IsCodeBlock (plans.flatMap fun plan =>
      line s!"{plan.registerName}({names.runtime}.Default())") := by
    refine isCodeBlock_flatMap fun plan hplan => ?_
    have hstruct : OneLine plan.service.structName := (hplans plan hplan).service.structName
    simp +decide [ServicePlan.registerName, hstruct, h.runtime]
  unfold initCode
  simp only [isCodeBlock_append, isCodeBlock_nested, isCodeBlock_line, hcalls]
  simp +decide

/-- Without preserved blocks all lines of a file are plain. -/
theorem isPlainLine_of_mem_fileLines (h : names.Plain) {package : String}
    (hpackage : OneLine package) (hplans : ∀ plan ∈ plans, plan.Unbroken) {l : String}
    (hl : l ∈ fileLines names package plans []) : IsPlainLine l := by
  have hhead : ∀ l ∈ [generatedHeader, "", s!"package {package}", ""], IsPlainLine l := by
    intro l hl
    simp only [List.mem_cons, List.not_mem_nil, or_false] at hl
    rcases hl with rfl | rfl | rfl | rfl
    · exact ⟨by decide, by decide⟩
    · exact isPlainLine_empty
    · refine isPlainLine_of_isCode ?_
      simp +decide [hpackage]
    · exact isPlainLine_empty
  unfold fileLines at hl
  rw [List.flatMap_nil, List.append_nil] at hl
  rcases List.mem_append.mp hl with hl | hl
  · rcases List.mem_append.mp hl with hl | hl
    · rcases List.mem_append.mp hl with hl | hl
      · exact hhead l hl
      · exact ResolvedImports.isPlainLine_of_mem_blockLines h.imports hl
    · rcases List.mem_cons.mp hl with rfl | hl
      · exact isPlainLine_empty
      · exact isPlainLine_of_mem_written (isCodeBlock_initCode h hplans) hl
  · obtain ⟨plan, hplan, hl⟩ := List.mem_flatMap.mp hl
    rcases List.mem_cons.mp hl with rfl | hl
    · exact isPlainLine_empty
    · exact isPlainLine_of_mem_written (ServicePlan.isCodeBlock_code h (hplans plan hplan)) hl

theorem unmarked_of_mem_importsOf {runtime : ImportEntry} (hruntime : runtime.Unmarked)
    (hplans : ∀ plan ∈ plans, plan.Unbroken) {entry : ImportEntry}
    (h : entry ∈ importsOf runtime plans) : entry.Unmarked := by
  have hcallable : ∀ path ∈ ServicePlan.callable, Unbroken path.toList := by decide
  rcases List.mem_append.mp h with h | h
  · rcases List.mem_cons.mp h with rfl | h
    · exact hruntime
    · obtain ⟨plan, -, h⟩ := List.mem_flatMap.mp h
      obtain ⟨path, hpath, rfl⟩ := List.mem_map.mp h
      exact (ImportEntry.plain_conventional (hcallable path (List.mem_filter.mp hpath).1)).unmarked
  · obtain ⟨plan, hplan, h⟩ := List.mem_flatMap.mp h
    exact ((hplans plan hplan).service.imports entry h).unmarked

theorem plain_namesOf {runtime : ImportEntry} (hruntime : runtime.Unmarked)
    (hplans : ∀ plan ∈ plans, plan.Unbroken) : (namesOf runtime plans).Plain := by
  have himports : (namesOf runtime plans).imports.Unmarked := by
    intro entry hentry
    refine ResolvedImports.unmarked_of_mem_renameFrom ?_ hentry
    intro other hother
    exact unmarked_of_mem_importsOf hruntime hplans (ResolvedImports.mem_of_mem_merge hother)
  refine ⟨himports, ?_⟩
  show Unbroken (((namesOf runtime plans).imports.nameOf? runtime.path).getD runtime.name).toList
  cases hname : (namesOf runtime plans).imports.nameOf? runtime.path with
  | none => exact hruntime.name
  | some name => exact himports.nameOf? hname

theorem fileLines_eq_append (names : CodeNames) (package : String) (plans : List ServicePlan)
    (blocks : List PreservedBlock) :
    fileLines names package plans blocks = fileLines names package plans []
      ++ blocks.flatMap fun block => "" :: block.markedLines := by
  unfold fileLines
  rw [List.flatMap_nil, List.append_nil]

/-- The code of a generated file opens no block. -/
theorem extract_code (h : names.Plain) {package : String} (hpackage : OneLine package)
    (hplans : ∀ plan ∈ plans, plan.Unbroken) :
    PreservedBlock.extract (unlines (fileLines names package plans [])) = [] := by
  have hplain : ∀ l ∈ fileLines names package plans [], IsPlainLine l :=
    fun l hl => isPlainLine_of_mem_fileLines h hpackage hplans hl
  refine PreservedBlock.extract_eq_nil_iff.mpr ?_
  rw [linesOf_unlines fun l hl => (hplain l hl).1]
  intro l hl
  obtain ⟨m, hm, rfl⟩ := List.mem_map.mp hl
  exact (hplain m hm).2

/-- Reading a generated file gives the blocks that it was generated with, but for carriage returns
    at the end of their lines. -/
theorem extract_fileLines (h : names.Plain) {package : String} (hpackage : OneLine package)
    (hplans : ∀ plan ∈ plans, plan.Unbroken) {blocks : List PreservedBlock}
    (hblocks : ∀ b ∈ blocks, b.Kept) (hnodup : (blocks.map (·.name)).Nodup) :
    PreservedBlock.extract (unlines (fileLines names package plans blocks))
      = blocks.map PreservedBlock.chomped := by
  rw [fileLines_eq_append]
  exact PreservedBlock.extract_append_markedAll (extract_code h hpackage hplans) hblocks hnodup

end Emission

/-! ## Preserved blocks -/

theorem FolderState.blocksOf_some (text : String) :
    blocksOf (some text) = PreservedBlock.extract text :=
  rfl

namespace Generation

theorem oneLine_packageName {files : List SourceFile}
    (hfiles : ∀ file ∈ files, file.index.Unbroken) {folderName : Option String}
    (hname : ∀ name, folderName = some name → OneLine name) :
    OneLine (packageName files folderName) := by
  have hchosen : OneLine ((((files.filterMap fun f => f.index.package).find?
      fun name => !name.isEmpty).or folderName).getD "main") := by
    cases hstated : (files.filterMap fun f => f.index.package).find? fun name => !name.isEmpty with
    | some name =>
        obtain ⟨file, hfile, hpackage⟩ := List.mem_filterMap.mp (List.mem_of_find?_eq_some hstated)
        exact (hfiles file hfile).package name hpackage
    | none =>
        cases folderName with
        | none => decide
        | some name => exact hname name rfl
  unfold packageName
  dsimp only
  intro hmem
  rw [String.toList_map] at hmem
  obtain ⟨c, hc, heq⟩ := List.mem_map.mp hmem
  split at heq
  · cases heq
  · rw [heq] at hc
    exact hchosen hc

/-- Of the file that is there only the preserved blocks count. -/
theorem made_of_blocksOf {previous previous' : Option String}
    (h : FolderState.blocksOf previous = FolderState.blocksOf previous') (runtime : ImportEntry)
    (state : FolderState) : made runtime state previous = made runtime state previous' := by
  unfold made
  rw [h]

/-- The blocks of the file that is there can be written and read back. -/
theorem kept_blocksOf (previous : Option String) :
    (∀ b ∈ FolderState.blocksOf previous, b.Kept) ∧
      ((FolderState.blocksOf previous).map (·.name)).Nodup := by
  cases previous with
  | none => exact ⟨List.forall_mem_nil _, List.Pairwise.nil⟩
  | some old =>
      exact ⟨fun b hb => PreservedBlock.kept_of_mem_extract hb, PreservedBlock.nodup_extract old⟩

/-- The code of a folder opens no block where its names are on one line each and the name of the
    runtime is none of a marker. -/
theorem blocksOf_code {runtime : ImportEntry} (hruntime : runtime.Unmarked) {state : FolderState}
    (hpackage : OneLine (packageName state.files state.name)) :
    FolderState.blocksOf (made runtime state none).text = [] := by
  have hplans : ∀ plan ∈ state.planned.1, plan.Unbroken := fun plan hplan =>
    Emission.unbroken_of_mem_planAll state.unbroken_services hplan
  show FolderState.blocksOf (state.textWith runtime []) = []
  unfold FolderState.textWith
  split
  · rfl
  · rw [FolderState.blocksOf_some]
    exact Emission.extract_code (Emission.plain_namesOf hruntime hplans) hpackage hplans

/-- Where the code opens no block a generated file holds the blocks that it was generated with, but
    for carriage returns at the end of their lines. -/
theorem extract_text_of_code {runtime : ImportEntry} {state : FolderState}
    (hcode : FolderState.blocksOf (made runtime state none).text = []) {previous : Option String}
    {text : String} (h : (made runtime state previous).text = some text) :
    PreservedBlock.extract text = (FolderState.blocksOf previous).map PreservedBlock.chomped := by
  obtain ⟨hkept, hnodup⟩ := kept_blocksOf previous
  change FolderState.blocksOf (state.textWith runtime []) = [] at hcode
  change state.textWith runtime (FolderState.blocksOf previous) = some text at h
  unfold FolderState.textWith at h hcode
  split at h
  · cases h
  · rename_i hplans
    rw [if_neg hplans, FolderState.blocksOf_some] at hcode
    rw [← Option.some.inj h, Emission.fileLines_eq_append]
    exact PreservedBlock.extract_append_markedAll hcode hkept hnodup

/-- A generated file holds the blocks that it was generated with. -/
theorem extract_text {runtime : ImportEntry} (hruntime : runtime.Unmarked) {state : FolderState}
    (hpackage : OneLine (packageName state.files state.name)) {previous : Option String}
    (hsmooth : ∀ b ∈ FolderState.blocksOf previous, b.Smooth) {text : String}
    (h : (made runtime state previous).text = some text) :
    PreservedBlock.extract text = FolderState.blocksOf previous := by
  rw [extract_text_of_code (blocksOf_code hruntime hpackage) h]
  exact PreservedBlock.map_chomped_of_smooth hsmooth

/-- The package of a folder is on one line. -/
theorem oneLine_package {state : FolderState}
    (hname : ∀ name, state.name = some name → OneLine name) :
    OneLine (packageName state.files state.name) := by
  refine oneLine_packageName ?_ hname
  intro file hfile
  obtain ⟨input, -, rfl⟩ := List.mem_map.mp hfile
  exact SourceFile.unbroken_parse input.path input.content

/-- A file that was generated without preserved blocks has none. -/
theorem blocksOf_text {runtime : ImportEntry} (hruntime : runtime.Plain) {state : FolderState}
    (hname : ∀ name, state.name = some name → OneLine name) {previous : Option String}
    (hprevious : FolderState.blocksOf previous = []) :
    FolderState.blocksOf (made runtime state previous).text = [] := by
  cases htext : (made runtime state previous).text with
  | none => rfl
  | some text =>
      rw [← hprevious]
      refine extract_text hruntime.unmarked (oneLine_package hname) ?_ htext
      rw [hprevious]
      exact List.forall_mem_nil _

end Generation

end ServiceWiring
