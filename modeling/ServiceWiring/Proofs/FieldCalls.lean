import ServiceWiring.Proofs.CodeBlock
import ServiceWiring.Proofs.TypeRewriting

/-!
# The packages that the code of a field calls into

Planning a field tells which packages of the standard library its statements call into, before
there are statements.  These are just the packages on whose names the statements depend.

* `FieldPlan.CallsInto` — the statements for a field change with the name of a package;
* `FieldPlan.Planned` — what planning makes sure of;
* `FieldPlan.exists_call` — for every package that is told there is a line that calls into it;
* `FieldPlan.callsInto_iff` — the packages that are told are those that are called into.
-/

namespace ServiceWiring

open Text TypeText CodeBlock

/-! ## Names that differ in one package -/

/-- Names that differ at most in the name of one package. -/
structure CodeNames.SameExcept (path : String) (names names' : CodeNames) : Prop where
  runtime : names'.runtime = names.runtime
  imports : ∀ other, other ≠ path → names'.imports.nameOf? other = names.imports.nameOf? other

namespace CodeNames.SameExcept

variable {path : String} {names names' : CodeNames}

theorem nameOfStandard (h : SameExcept path names names') {other : String} (hother : other ≠ path) :
    names'.imports.nameOfStandard other = names.imports.nameOfStandard other := by
  rw [ResolvedImports.nameOfStandard, h.imports other hother]
  rfl

/-- A type that does not name the package is written the same. -/
theorem renderType (h : SameExcept path names names') {type : TypeExpr} (htype : ¬ type.Names path) :
    names'.imports.renderType type = names.imports.renderType type := by
  refine TypeExpr.renderWith_congr fun other hother => h.imports other ?_
  rintro rfl
  exact htype hother

end CodeNames.SameExcept

namespace FieldPlan

/-- The element type of a list names no packages but those that parsing its values calls into. -/
def ElementKnown : TypeShape → Prop
  | .list kind element => ∀ path, element.Names path → path ∈ scalarPackages kind
  | _ => True

/-- A plan with a known shape and a default that fits it. -/
structure Planned (plan : FieldPlan) : Prop where
  element : ∀ key shape default required separator,
    plan.init = .config key shape default required separator → ElementKnown shape
  default : ∀ key shape value required separator,
    plan.init = .config key shape (some value) required separator →
      ∃ argument, DefaultValue.ofShape shape separator argument = .ok value

end FieldPlan

namespace FieldPlan

/-- The default of a scalar is an expression, or a duration if the scalar is one. -/
theorem ofScalar_cases {kind : ScalarKind} {argument : Argument} {value : DefaultValue}
    (h : DefaultValue.ofScalar kind argument = .ok value) :
    (∃ text, value = .expression text) ∨ kind = .duration ∧ ∃ d, value = .duration d := by
  cases kind with
  | string => exact .inl ⟨_, (Except.ok.inj h).symm⟩
  | duration =>
      rw [DefaultValue.ofScalar] at h
      split at h
      · exact .inr ⟨rfl, _, (Except.ok.inj h).symm⟩
      · cases h
  | _ =>
      unfold DefaultValue.ofScalar at h
      dsimp only at h
      split at h
      · exact .inl ⟨_, (Except.ok.inj h).symm⟩
      · cases h

/-- Only a scalar has a duration as its default. -/
theorem shape_of_duration {shape : TypeShape} {separator : String} {argument : Argument}
    {d : Duration} (h : DefaultValue.ofShape shape separator argument = .ok (.duration d)) :
    shape = .scalar .duration := by
  cases shape with
  | scalar kind =>
      rw [DefaultValue.ofShape] at h
      rcases ofScalar_cases h with ⟨text, heq⟩ | ⟨rfl, -⟩
      · cases heq
      · rfl
  | list kind element =>
      rw [DefaultValue.ofShape] at h
      obtain ⟨items, hitems, heq⟩ := map_eq_ok h
      cases heq
  | bytes =>
      rw [DefaultValue.ofShape] at h
      cases Except.ok.inj h
  | structured base hook pointer =>
      cases hook with
      | true =>
          rw [DefaultValue.ofShape] at h
          cases Except.ok.inj h
      | false => cases h

/-- The packages that are told for a field are those that decoding its value calls into. -/
theorem Planned.mem_packages_iff {plan : FieldPlan} (h : plan.Planned) {path : String} :
    path ∈ plan.packages ↔ ∃ key shape default required separator,
      plan.init = .config key shape default required separator ∧ path ∈ shapePackages shape := by
  obtain ⟨name, init⟩ := plan
  cases init with
  | inject dependency =>
      constructor
      · intro hpath
        cases hpath
      · rintro ⟨_, _, _, _, _, hinit, -⟩
        cases hinit
  | config key shape default required separator =>
      constructor
      · intro hpath
        refine ⟨key, shape, default, required, separator, rfl, ?_⟩
        rcases List.mem_append.mp hpath with hpath | hpath
        · exact hpath
        · -- only a duration is written with a package, and then its values are parsed with it
          split at hpath
          · rename_i d
            obtain ⟨argument, hfits⟩ := h.default key shape _ required separator rfl
            rw [shape_of_duration hfits]
            exact hpath
          · cases hpath
      · rintro ⟨_, _, _, _, _, hinit, hpath⟩
        obtain ⟨-, rfl, -⟩ := FieldInit.config.inj hinit
        exact List.mem_append_left _ hpath

/-! ## What does not depend on a name -/

section
variable {path : String} {names names' : CodeNames} (h : names.SameExcept path names')
  (key target source separator : String)
include h

theorem configError_eq : configError names' key = configError names key := by
  rw [configError, configError, h.runtime]

theorem missingConfig_eq : missingConfig names' key = missingConfig names key := by
  rw [missingConfig, missingConfig, h.runtime]

theorem checkError_eq : checkError names' key = checkError names key := by
  rw [checkError, checkError, configError_eq h]

theorem parseCall?_eq {kind : ScalarKind} (hkind : path ∉ scalarPackages kind) :
    parseCall? names' kind source = parseCall? names kind source := by
  have hstandard : ∀ other ∈ scalarPackages kind,
      names'.imports.nameOfStandard other = names.imports.nameOfStandard other := by
    intro other hother
    refine h.nameOfStandard ?_
    rintro rfl
    exact hkind hother
  cases kind with
  | string => rfl
  | duration => rw [parseCall?, parseCall?, hstandard "time" (List.mem_singleton_self _)]
  | _ => rw [parseCall?, parseCall?, hstandard "strconv" (List.mem_singleton_self _)]

theorem appendPart_eq {kind : ScalarKind} (hkind : path ∉ scalarPackages kind)
    {element : TypeExpr} (helement : ElementKnown (.list kind element)) :
    appendPart names' kind element target key = appendPart names kind element target key := by
  have htype : names'.imports.renderType element = names.imports.renderType element :=
    h.renderType fun hnames => hkind (helement path hnames)
  rw [appendPart, appendPart, parseCall?_eq h "part" hkind, htype, checkError_eq h]

theorem decode_eq {shape : TypeShape} (hshape : path ∉ shapePackages shape)
    (helement : ElementKnown shape) :
    decode names' shape target source separator key
      = decode names shape target source separator key := by
  cases shape with
  | scalar kind =>
      rw [decode, decode, parseCall?_eq h source hshape, checkError_eq h]
  | list kind element =>
      obtain ⟨hstrings, hkind⟩ := not_or.mp fun hmem => hshape (List.mem_cons.mpr hmem)
      have hname : names'.imports.nameOfStandard "strings" = names.imports.nameOfStandard "strings" :=
        h.nameOfStandard (Ne.symm hstrings)
      rw [decode, decode, hname, appendPart_eq h key target hkind helement]
  | bytes => rfl
  | structured base hook pointer => rw [decode, decode, configError_eq h]

end

/-- A default is written the same if parsing a value does not call into the package. -/
theorem render_eq {path : String} {names names' : CodeNames} (h : names.SameExcept path names')
    {shape : TypeShape} (hshape : path ∉ shapePackages shape) (helement : ElementKnown shape)
    {separator : String} {argument : Argument} {value : DefaultValue}
    (hvalue : DefaultValue.ofShape shape separator argument = .ok value) :
    value.render names'.imports = value.render names.imports := by
  have hscalar : ∀ {kind : ScalarKind} {argument : Argument} {value : DefaultValue},
      path ∉ scalarPackages kind → DefaultValue.ofScalar kind argument = .ok value →
        value.render names'.imports = value.render names.imports := by
    intro kind argument value hkind hvalue
    rcases ofScalar_cases hvalue with ⟨text, rfl⟩ | ⟨rfl, d, rfl⟩
    · rw [DefaultValue.render, DefaultValue.render]
    · have htime : "time" ≠ path := by
        rintro rfl
        exact hkind (List.mem_singleton_self _)
      rw [DefaultValue.render, DefaultValue.render, h.nameOfStandard htime]
  cases shape with
  | scalar kind =>
      rw [DefaultValue.ofShape] at hvalue
      exact hscalar hshape hvalue
  | list kind element =>
      have hkind : path ∉ scalarPackages kind := fun hmem => hshape (List.mem_cons_of_mem _ hmem)
      obtain ⟨items, hitems, rfl⟩ := map_eq_ok hvalue
      have htype : names'.imports.renderType element = names.imports.renderType element :=
        h.renderType fun hnames => hkind (helement path hnames)
      have hrendered : items.map (·.render names'.imports) = items.map (·.render names.imports) := by
        refine List.map_congr_left fun item hitem => ?_
        obtain ⟨part, -, hpart⟩ := exists_of_mem_mapM hitems item hitem
        exact hscalar hkind hpart
      rw [DefaultValue.render, DefaultValue.render, htype, hrendered]
  | bytes =>
      rw [DefaultValue.ofShape] at hvalue
      rw [← Except.ok.inj hvalue, DefaultValue.render, DefaultValue.render]
  | structured base hook pointer =>
      cases hook with
      | true =>
          rw [DefaultValue.ofShape] at hvalue
          rw [← Except.ok.inj hvalue, DefaultValue.render, DefaultValue.render]
      | false => cases hvalue

/-- The statements for a field do not depend on the name of a package that is not told. -/
theorem Planned.code_eq {plan : FieldPlan} (hplan : plan.Planned) {path : String}
    (hpath : path ∉ plan.packages) {names names' : CodeNames} (h : names.SameExcept path names') :
    plan.code names' = plan.code names := by
  rw [hplan.mem_packages_iff] at hpath
  obtain ⟨name, init⟩ := plan
  cases init with
  | inject dependency => rfl
  | config key shape default required separator =>
      have hshape : path ∉ shapePackages shape :=
        fun hmem => hpath ⟨key, shape, default, required, separator, rfl, hmem⟩
      have helement := hplan.element key shape default required separator rfl
      have hdecode : ∀ target source key, decode names' shape target source separator key
          = decode names shape target source separator key :=
        fun target source key => decode_eq h key target source separator hshape helement
      have hmissing : ∀ target key, missingBranch names' shape default required target separator key
          = missingBranch names shape default required target separator key := by
        intro target key'
        cases default with
        | none => rw [missingBranch, missingBranch, missingConfig_eq h]
        | some value =>
            obtain ⟨argument, hvalue⟩ := hplan.default key shape value required separator rfl
            unfold missingBranch
            simp only [render_eq h hshape helement hvalue, hdecode]
      unfold code
      dsimp only
      rw [hdecode, hmissing, configError_eq h, missingConfig_eq h]

/-! ## Calls -/

theorem mem_callable_of_mem_shapePackages {shape : TypeShape} {path : String}
    (h : path ∈ shapePackages shape) : path ∈ ServicePlan.callable := by
  have hscalar : ∀ kind : ScalarKind, path ∈ scalarPackages kind → path ∈ ServicePlan.callable := by
    intro kind hkind
    cases kind with
    | string => cases hkind
    | duration =>
        rw [List.mem_singleton.mp hkind]
        decide
    | _ =>
        rw [List.mem_singleton.mp hkind]
        decide
  cases shape with
  | scalar kind => exact hscalar kind h
  | list kind element =>
      rcases List.mem_cons.mp h with rfl | hkind
      · decide
      · exact hscalar kind hkind
  | bytes => cases h
  | structured base hook pointer => cases h

/-- Only fields from the configuration call into packages, and only into those that can be
    imported for them. -/
theorem Planned.callable {plan : FieldPlan} (hplan : plan.Planned) {path : String}
    (h : path ∈ plan.packages) : plan.isConfig = true ∧ path ∈ ServicePlan.callable := by
  obtain ⟨key, shape, default, required, separator, hinit, hshape⟩ := hplan.mem_packages_iff.mp h
  refine ⟨?_, mem_callable_of_mem_shapePackages hshape⟩
  rw [isConfig, hinit]

end FieldPlan

end ServiceWiring
