import ServiceWiring.Generated.File
import ServiceWiring.Proofs.CodeBlock
import ServiceWiring.Proofs.TypeRewriting

/-!
# The variables of generated functions

The generated functions are written out once more as lists of statements.  A statement keeps the
names that it declares apart from its types and expressions, and these names are identifiers, so
that the lists tell every variable and parameter of the functions.  No import gets the name of any
of them.

* `CodeStatement` — the forms of the lines, with their texts and the names that they declare;
* `FieldPlan.statements`, `Endpoint.statements`, `ServicePlan.statements`, `Emission.statements` —
  the statements of the generated functions;
* `ListedAs` — a block whose lines are listed statements, with generated locals as variables;
* `FieldPlan.listedAs_code`, `Endpoint.listedAs_code`, `ServicePlan.listedAs_code`,
  `Emission.listedAs_initCode` — the lines of the generated functions are those statements.
-/

namespace ServiceWiring

open Text CodeBlock

/-! ## Statements -/

/-- The name of a variable or a parameter, or the blank identifier. -/
structure Variable where
  name : String
  isName : IsAsciiName name.toList

/-- A name that is written out. -/
def Variable.of (name : String) (isName : IsAsciiName name.toList := by decide) : Variable :=
  ⟨name, isName⟩

@[simp] theorem Variable.name_of (name : String) (isName : IsAsciiName name.toList) :
    (Variable.of name isName).name = name := rfl

/-- The types of parameters: one from the language, and four from the wiring runtime. -/
inductive ParameterType where
  | any
  | registry
  | container
  | router
  | context
  deriving DecidableEq, Repr

/-- The type as written, under the name of the runtime. -/
def ParameterType.text (runtime : String) : ParameterType → String
  | any => "any"
  | registry => "*" ++ runtime ++ ".Registry"
  | container => runtime ++ ".Container"
  | router => runtime ++ ".Router"
  | context => runtime ++ ".Context"

/-- A parameter of a function. -/
structure Parameter where
  name : Variable
  type : ParameterType

/-- Parameters as written. -/
def Parameter.listText (runtime : String) (params : List Parameter) : String :=
  String.intercalate ", "
    (params.map fun param => param.name.name ++ " " ++ param.type.text runtime)

/-- Names as written. -/
def Variable.listText (names : List Variable) : String :=
  String.intercalate ", " (names.map (·.name))

/-- A call whose last argument is a function that starts on the line. -/
inductive Callback where
  | provide (service : String)
  | mount (service : String)
  | handle (method path : String) (middleware : List String)
  deriving DecidableEq, Repr

/-- The method that is called. -/
def Callback.method : Callback → String
  | provide _ => "r.Provide"
  | mount _ => "r.Mount"
  | handle .. => "router.Handle"

/-- The arguments in front of the function. -/
def Callback.arguments : Callback → String
  | provide service => quote service
  | mount service => quote service
  | handle method path middleware => quote method ++ ", " ++ quote path ++ ", "
      ++ Endpoint.middlewareExpression middleware

/-- The results of the function. -/
def Callback.results : Callback → String
  | provide _ => " (any, error)"
  | mount _ => ""
  | handle .. => " (any, error)"

/-- A line of a generated function.  Types and expressions are texts. -/
inductive CodeStatement where
  /-- The head of a function. -/
  | function (name : String) (params : List Parameter)
  /-- A call with the head of the function that it is given. -/
  | callback (call : Callback) (params : List Parameter)
  /-- Variables with a value. -/
  | define (names : List Variable) (value : String)
  /-- Variables with a value, in the head of a condition. -/
  | ifDefine (names : List Variable) (value condition : String)
  /-- The variables of a loop. -/
  | forDefine (names : List Variable) (value : String)
  /-- A variable with its type and perhaps a value. -/
  | var (name : Variable) (type : String)
  /-- An assignment to a field of the service, or a call of a method of it. -/
  | ofService (rest : String)
  /-- An assignment to one part of a list. -/
  | ofPart (value : String)
  /-- A call of the function that registers a service. -/
  | register (rest : String)
  /-- A return. -/
  | returned (values : String)
  /-- The head of a condition on an error. -/
  | onError
  /-- The head of a condition on an empty part of a list. -/
  | onEmpty
  /-- A step to the next part of a list. -/
  | skip
  /-- The other branch of a condition. -/
  | otherwise
  /-- The end of a block. -/
  | close
  /-- The end of a function that is an argument. -/
  | closeCall

namespace CodeStatement

/-- The line, under the name of the runtime. -/
def text (runtime : String) : CodeStatement → String
  | function name params => "func " ++ name ++ "(" ++ Parameter.listText runtime params ++ ") \x7b"
  | callback call params =>
      call.method ++ "(" ++ call.arguments ++ ", func(" ++ Parameter.listText runtime params ++ ")"
        ++ call.results ++ " \x7b"
  | define names value => Variable.listText names ++ " := " ++ value
  | ifDefine names value condition =>
      "if " ++ Variable.listText names ++ " := " ++ value ++ "; " ++ condition ++ " \x7b"
  | forDefine names value => "for " ++ Variable.listText names ++ " := range " ++ value ++ " \x7b"
  | var name type => "var " ++ name.name ++ " " ++ type
  | ofService rest => "svc." ++ rest
  | ofPart value => "part = " ++ value
  | register rest => "register" ++ rest
  | returned values => "return " ++ values
  | onError => "if err != nil \x7b"
  | onEmpty => "if part == \"\" \x7b"
  | skip => "continue"
  | otherwise => "\x7d else \x7b"
  | close => "\x7d"
  | closeCall => "\x7d)"

/-- The variables and parameters that the line declares.  The blank identifier is none. -/
def declared : CodeStatement → List String
  | function _ params => params.map (·.name.name)
  | callback _ params => params.map (·.name.name)
  | define names _ => (names.map (·.name)).filter (· != "_")
  | ifDefine names _ _ => (names.map (·.name)).filter (· != "_")
  | forDefine names _ => (names.map (·.name)).filter (· != "_")
  | var name _ => [name.name]
  | _ => []

end CodeStatement

/-! ### The statements for a field -/

namespace FieldPlan

variable (names : CodeNames) (kind : ScalarKind) (shape : TypeShape) (element : TypeExpr)
  (field source separator key : String)

/-- The statement of `configError`. -/
def configErrorStatement : CodeStatement :=
  .returned s!"nil, {names.runtime}.ConfigError({key}, err)"

/-- The statement of `missingConfig`. -/
def missingConfigStatement : CodeStatement :=
  .returned s!"nil, {names.runtime}.MissingConfig({key})"

/-- The statements of a call that parses, and of the check of its error. -/
def parsedStatements (call : String) : List CodeStatement :=
  [.define [.of "parsed", .of "err"] call, .onError, configErrorStatement names key, .close]

/-- The statements of `appendPart`. -/
def appendPartStatements : List CodeStatement :=
  match parseCall? names kind "part" with
  | none => [.ofService s!"{field} = append(svc.{field}, part)"]
  | some call =>
      let value :=
        if kind = .duration then "parsed" else s!"{names.imports.renderType element}(parsed)"
      parsedStatements names key call ++ [.ofService s!"{field} = append(svc.{field}, {value})"]

/-- The statements of `decode`. -/
def decodeStatements : List CodeStatement :=
  match shape with
  | .scalar kind =>
      match parseCall? names kind source with
      | none => [.ofService s!"{field} = {source}"]
      | some call =>
          parsedStatements names key call ++ [.ofService (field ++ " = " ++ convert kind "parsed")]
  | .list kind element =>
      let strings := names.imports.nameOfStandard "strings"
      [.forDefine [.of "_", .of "part"] s!"{strings}.Split({source}, {quote separator})",
        .ofPart s!"{strings}.TrimSpace(part)", .onEmpty, .skip, .close]
        ++ appendPartStatements names kind element field key ++ [.close]
  | .bytes => [.ofService s!"{field} = []byte({source})"]
  | .structured base _ pointer =>
      (if pointer then [.ofService s!"{field} = new({base})"] else [])
        ++ [.ifDefine [.of "err"] s!"svc.{field}.UnmarshalText([]byte({source}))" "err != nil",
          configErrorStatement names key, .close]

/-- The statements of `missingBranch`. -/
def missingBranchStatements (default : Option DefaultValue) (required : Bool) :
    List CodeStatement :=
  match default with
  | some value =>
      let value := value.render names.imports
      .otherwise ::
        match shape with
        | .structured .. => decodeStatements names shape field value separator key
        | _ => [.ofService s!"{field} = {value}"]
  | none => if required then [.otherwise, missingConfigStatement names key] else []

/-- The statements for a field. -/
def statements (plan : FieldPlan) : List CodeStatement :=
  match plan.init with
  | .inject dependency =>
      [.ifDefine [.of "err"] s!"c.Inject(&svc.{plan.name}, {quote dependency})" "err != nil",
        .returned "nil, err", .close]
  | .config key shape default required separator =>
      match shape with
      | .structured _ false _ =>
          [.ifDefine [.of "_", .of "ok"] s!"cfg.Lookup({quote key})" "ok",
            .ifDefine [.of "err"] s!"cfg.Unmarshal({quote key}, &svc.{plan.name})" "err != nil",
            configErrorStatement names (quote key), .close]
            ++ (if required then [.otherwise, missingConfigStatement names (quote key)] else [])
            ++ [.close]
      | _ =>
          .ifDefine [.of "v", .of "ok"] s!"cfg.Lookup({quote key})" "ok"
            :: decodeStatements names shape plan.name "v" separator (quote key)
            ++ missingBranchStatements names shape plan.name separator (quote key) default required
            ++ [.close]

end FieldPlan

/-! ### The statements for an endpoint -/

theorem isNumbered_append (stem : String) (n : Nat) :
    isNumbered stem (stem ++ toString n) = true := by
  have hdigits : after? stem.toList (stem ++ toString n).toList = some (Nat.toDigits 10 n) := by
    rw [after?_eq_some_iff, String.toList_append, Nat.toString_eq_ofList_toDigits,
      String.toList_ofList]
  rw [isNumbered, hdigits]
  have hall : (Nat.toDigits 10 n).all Char.isDigit = true :=
    List.all_eq_true.mpr fun c hc => Nat.isDigit_of_mem_toDigits (by decide) (by decide) hc
  have hne : (Nat.toDigits 10 n).isEmpty = false :=
    List.isEmpty_eq_false_iff.mpr Nat.toDigits_ne_nil
  show (!(Nat.toDigits 10 n).isEmpty && (Nat.toDigits 10 n).all Char.isDigit) = true
  rw [hne, hall]
  rfl

namespace Endpoint

theorem isAsciiName_paramLocal (position : Nat) : IsAsciiName (paramLocal position).toList := by
  have htext : (paramLocal position).toList = 'a' :: ('r' :: 'g' :: Nat.toDigits 10 position) := by
    show ("arg" ++ toString position).toList = _
    rw [String.toList_append, Nat.toString_eq_ofList_toDigits, String.toList_ofList]
    simp
  rw [htext, isAsciiName_cons_iff]
  refine ⟨by decide, ?_⟩
  intro d hd
  rcases List.mem_cons.mp hd with rfl | hd
  · decide
  · rcases List.mem_cons.mp hd with rfl | hd
    · decide
    · have hdigit : d.isDigit = true := Nat.isDigit_of_mem_toDigits (by decide) (by decide) hd
      rw [isAsciiNameChar, Char.isAlphanum, hdigit, Bool.or_true, Bool.true_or]

/-- The variable of a parameter is a generated local. -/
theorem isGeneratedLocal_paramLocal (position : Nat) :
    isGeneratedLocal (paramLocal position) = true := by
  have hnumbered : isNumbered "arg" (paramLocal position) = true := isNumbered_append "arg" position
  rw [isGeneratedLocal, hnumbered, Bool.or_true, Bool.true_or]

variable (names : CodeNames)

/-- The statements of `bindParam`. -/
def bindParamStatements (param : EndpointParam) (position : Nat) : List CodeStatement :=
  let type := names.imports.renderType param.type
  let type := if param.variadic then "[]" ++ type else type
  [.var ⟨paramLocal position, isAsciiName_paramLocal position⟩ type,
    .ifDefine [.of "err"] s!"ctx.Bind({quote param.name}, &{paramLocal position})" "err != nil",
    .returned "nil, err", .close]

/-- The statements of `callHandler`, for a method of the service. -/
def callHandlerStatements (call : String) : List TypeExpr → List CodeStatement
  | [] => [.ofService call, .returned "nil, nil"]
  | [only] =>
      if only.text = "error" then [.returned s!"nil, svc.{call}"]
      else
        [.var (.of "res0") s!"{names.imports.renderType only} = svc.{call}", .returned "res0, nil"]
  | first :: _ =>
      [.var (.of "res0") (names.imports.renderType first),
        .define [.of "res0", .of "err"] s!"svc.{call}", .returned "res0, err"]

/-- The statements for an endpoint. -/
def statements (e : Endpoint) : List CodeStatement :=
  let params := e.params.zipIdx
  let arguments := String.intercalate ", " (params.map fun (param, i) => argument param i)
  .callback (.handle e.method e.path e.middleware) [⟨.of "ctx", .context⟩]
    :: params.flatMap (fun (param, i) => bindParamStatements names param i)
    ++ callHandlerStatements names s!"{e.handler}({arguments})" e.results
    ++ [.closeCall]

end Endpoint

/-! ### The statements for a service and a file -/

namespace ServicePlan

variable (names : CodeNames) (plan : ServicePlan)

/-- The statements of `providerCode`. -/
def providerStatements : List CodeStatement :=
  .callback (.provide plan.service.name) [⟨.of "c", .container⟩]
    :: .define [.of "svc"] s!"&{plan.service.structName}\x7b\x7d"
    :: (if plan.hasConfig then [.define [.of "cfg"] "c.Config()"] else [])
    ++ plan.fields.flatMap (FieldPlan.statements names)
    ++ [.returned "svc, nil", .closeCall]

/-- The statements of `mountCode`. -/
def mountStatements : List CodeStatement :=
  if plan.service.isRouter && !plan.service.endpoints.isEmpty then
    .callback (.mount plan.service.name) [⟨.of "instance", .any⟩, ⟨.of "router", .router⟩]
      :: .define [.of "svc"] s!"instance.(*{plan.service.structName})"
      :: plan.service.endpoints.flatMap (Endpoint.statements names)
      ++ [.closeCall]
  else []

/-- The statements of the function of a service. -/
def statements : List CodeStatement :=
  .function plan.registerName [⟨.of "r", .registry⟩]
    :: plan.providerStatements names ++ plan.mountStatements names ++ [.close]

end ServicePlan

namespace Emission

variable (names : CodeNames) (plans : List ServicePlan)

/-- The statements of the `init` function. -/
def initStatements : List CodeStatement :=
  .function "init" []
    :: plans.flatMap (fun plan =>
      [.register s!"{plan.service.structName}({names.runtime}.Default())"])
    ++ [.close]

/-- The statements of the functions of a generated file. -/
def statements : List CodeStatement :=
  initStatements names plans ++ plans.flatMap (ServicePlan.statements names)

end Emission

/-! ## Lines as statements -/

/-- A member of the service, as the generated functions spell it. -/
@[simp]
def serviceMember (name : String) : String :=
  s!"svc.{name}"

/-- A block whose lines, indentation apart, are listed statements, and the variables of these have
    names that no import gets. -/
structure ListedAs (runtime : String) (block : CodeBlock) (statements : List CodeStatement) :
    Prop where
  texts : block.map (·.text) = statements.map (CodeStatement.text runtime)
  locals : ∀ s ∈ statements, ∀ name ∈ s.declared, isGeneratedLocal name = true

namespace ListedAs

variable {runtime : String} {a b block : CodeBlock} {as bs statements : List CodeStatement}

theorem nil : ListedAs runtime [] [] :=
  ⟨rfl, fun _ h => nomatch h⟩

theorem line (s : CodeStatement) {text : String} (htext : (s.text runtime).toList = text.toList)
    (hdeclared : s.declared.all isGeneratedLocal = true) :
    ListedAs runtime (CodeBlock.line text) [s] :=
  ⟨congrArg (fun line => [line]) (String.toList_inj.mp htext).symm,
    List.forall_mem_singleton.mpr (List.all_eq_true.mp hdeclared)⟩

theorem append (h : ListedAs runtime a as) (h' : ListedAs runtime b bs) :
    ListedAs runtime (a ++ b) (as ++ bs) :=
  ⟨by rw [List.map_append, List.map_append, h.texts, h'.texts],
    List.forall_mem_append.mpr ⟨h.locals, h'.locals⟩⟩

theorem nested (h : ListedAs runtime block statements) :
    ListedAs runtime (CodeBlock.nested block) statements := by
  refine ⟨?_, h.locals⟩
  rw [CodeBlock.nested, List.map_map, ← h.texts]
  exact List.map_congr_left fun _ _ => rfl

theorem flatMap {α : Type} {xs : List α} {f : α → CodeBlock} {g : α → List CodeStatement}
    (h : ∀ x ∈ xs, ListedAs runtime (f x) (g x)) :
    ListedAs runtime (xs.flatMap f) (xs.flatMap g) := by
  induction xs with
  | nil => exact nil
  | cons x xs ih =>
      rw [List.flatMap_cons, List.flatMap_cons]
      exact (h x (List.mem_cons_self ..)).append (ih fun y hy => h y (List.mem_cons_of_mem _ hy))

/-- Every line is a statement of the list. -/
theorem exists_statement (h : ListedAs runtime block statements) {l : CodeLine} (hl : l ∈ block) :
    ∃ s ∈ statements, s.text runtime = l.text := by
  have hmem : l.text ∈ statements.map (CodeStatement.text runtime) := by
    rw [← h.texts]
    exact List.mem_map_of_mem hl
  exact List.mem_map.mp hmem

theorem close : ListedAs runtime (CodeBlock.line "\x7d") [.close] :=
  line .close rfl rfl

theorem closeCall : ListedAs runtime (CodeBlock.line "\x7d)") [.closeCall] :=
  line .closeCall rfl rfl

theorem otherwise : ListedAs runtime (CodeBlock.line "\x7d else \x7b") [.otherwise] :=
  line .otherwise rfl rfl

theorem returned (values : String) :
    ListedAs runtime (CodeBlock.line ("return " ++ values)) [.returned values] :=
  line (.returned values) rfl rfl

end ListedAs

attribute [local simp] String.toList_append CodeStatement.text Parameter.listText Variable.listText
  ParameterType.text Callback.method Callback.arguments Callback.results

/-! ## Fields -/

namespace FieldPlan

variable (names : CodeNames) (kind : ScalarKind) (shape : TypeShape) (element : TypeExpr)
  (field source separator key : String)

theorem listedAs_configError :
    ListedAs names.runtime (configError names key) [configErrorStatement names key] :=
  .line (configErrorStatement names key) (by simp [configErrorStatement]) rfl

theorem listedAs_missingConfig :
    ListedAs names.runtime (missingConfig names key) [missingConfigStatement names key] :=
  .line (missingConfigStatement names key) (by simp [missingConfigStatement]) rfl

theorem listedAs_parsed (call : String) :
    ListedAs names.runtime (line s!"parsed, err := {call}" ++ checkError names key)
      (parsedStatements names key call) := by
  have hcall : ListedAs names.runtime (line s!"parsed, err := {call}")
      [.define [.of "parsed", .of "err"] call] := .line _ (by simp) rfl
  have hcheck : ListedAs names.runtime (line "if err != nil \x7b") [.onError] := .line _ rfl rfl
  exact hcall.append ((hcheck.append (listedAs_configError names key).nested).append .close)

/-- A value of the field. -/
theorem listedAs_assign (value : String) :
    ListedAs names.runtime (line (s!"svc.{field}" ++ " = " ++ value))
      [.ofService (field ++ " = " ++ value)] :=
  .line _ (by simp) rfl

theorem listedAs_appendPart :
    ListedAs names.runtime (appendPart names kind element s!"svc.{field}" key)
      (appendPartStatements names kind element field key) := by
  unfold appendPart appendPartStatements
  cases parseCall? names kind "part" with
  | none => exact .line _ (by simp) rfl
  | some call =>
      refine (listedAs_parsed names key call).append ?_
      generalize (if kind = .duration then "parsed"
        else s!"{names.imports.renderType element}(parsed)") = value
      exact .line _ (by simp) rfl

theorem listedAs_decode :
    ListedAs names.runtime (decode names shape s!"svc.{field}" source separator key)
      (decodeStatements names shape field source separator key) := by
  cases shape with
  | scalar kind =>
      unfold decode decodeStatements
      dsimp only
      cases parseCall? names kind source with
      | none => exact .line _ (by simp) rfl
      | some call => exact (listedAs_parsed names key call).append (listedAs_assign names field _)
  | list kind element =>
      have hloop : ∀ strings : String, ListedAs names.runtime
          (line s!"for _, part := range {strings}.Split({source}, {quote separator}) \x7b")
          [.forDefine [.of "_", .of "part"] s!"{strings}.Split({source}, {quote separator})"] :=
        fun strings => .line _ (by simp) rfl
      have htrim : ∀ strings : String, ListedAs names.runtime
          (line s!"part = {strings}.TrimSpace(part)") [.ofPart s!"{strings}.TrimSpace(part)"] :=
        fun strings => .line _ (by simp) rfl
      have hempty : ListedAs names.runtime (line "if part == \"\" \x7b") [.onEmpty] :=
        .line _ rfl rfl
      have hskip : ListedAs names.runtime (line "continue") [.skip] := .line _ rfl rfl
      have happend := listedAs_appendPart names kind element field key
      exact ((hloop _).append (((((htrim _).append hempty).append hskip.nested).append
        .close).append happend).nested).append .close
  | bytes => exact .line _ (by simp) rfl
  | structured base hook pointer =>
      have hread : ∀ target : String, ListedAs names.runtime
          (line s!"if err := {target}.UnmarshalText([]byte({source})); err != nil \x7b")
          [.ifDefine [.of "err"] s!"{target}.UnmarshalText([]byte({source}))" "err != nil"] :=
        fun target => .line _ (by simp) rfl
      have hbranch :=
        ((hread s!"svc.{field}").append (listedAs_configError names key).nested).append .close
      cases pointer with
      | false => exact hbranch
      | true =>
          have hnew : ListedAs names.runtime (line s!"svc.{field} = new({base})")
              [.ofService s!"{field} = new({base})"] := .line _ (by simp) rfl
          exact hnew.append hbranch

theorem listedAs_missingBranch (default : Option DefaultValue) (required : Bool) :
    ListedAs names.runtime
      (missingBranch names shape default required s!"svc.{field}" separator key)
      (missingBranchStatements names shape field separator key default required) := by
  cases default with
  | some value =>
      refine ListedAs.otherwise.append (.nested ?_)
      cases shape with
      | structured base hook pointer => exact listedAs_decode names _ field _ separator key
      | _ => exact .line _ (by simp) rfl
  | none =>
      cases required with
      | true => exact ListedAs.otherwise.append (listedAs_missingConfig names key).nested
      | false => exact .nil

theorem listedAs_unmarshal :
    ListedAs names.runtime
      (line s!"if err := cfg.Unmarshal({key}, &{serviceMember field}); err != nil \x7b")
      [.ifDefine [.of "err"] s!"cfg.Unmarshal({key}, &svc.{field})" "err != nil"] :=
  .line _ (by simp) rfl

/-- The code for a field is its statements. -/
theorem listedAs_code (plan : FieldPlan) :
    ListedAs names.runtime (code names plan) (statements names plan) := by
  obtain ⟨field, init⟩ := plan
  cases init with
  | inject dependency =>
      have hinject : ListedAs names.runtime
          (line s!"if err := c.Inject(&{serviceMember field}, {quote dependency}); err != nil \x7b")
          [.ifDefine [.of "err"] s!"c.Inject(&svc.{field}, {quote dependency})" "err != nil"] :=
        .line _ (by simp) rfl
      exact (hinject.append (ListedAs.returned "nil, err").nested).append .close
  | config key shape default required separator =>
      have hvalue : ListedAs names.runtime (line s!"if v, ok := cfg.Lookup({quote key}); ok \x7b")
          [.ifDefine [.of "v", .of "ok"] s!"cfg.Lookup({quote key})" "ok"] := .line _ (by simp) rfl
      have hdecode := listedAs_decode names shape field "v" separator (quote key)
      have hmissing :=
        listedAs_missingBranch names shape field separator (quote key) default required
      have hbranches := ((hvalue.append hdecode.nested).append hmissing).append .close
      cases shape with
      | structured base hook pointer =>
          cases hook with
          | true => exact hbranches
          | false =>
              -- a structured value without a hook is read by the configuration itself
              have hpresent : ListedAs names.runtime
                  (line s!"if _, ok := cfg.Lookup({quote key}); ok \x7b")
                  [.ifDefine [.of "_", .of "ok"] s!"cfg.Lookup({quote key})" "ok"] :=
                .line _ (by simp) rfl
              have hread := listedAs_unmarshal names field (quote key)
              have hnone := listedAs_missingBranch names (.structured base false pointer) field
                separator (quote key) none required
              exact ((hpresent.append ((hread.append (listedAs_configError names
                (quote key)).nested).append .close).nested).append hnone).append .close
      | _ => exact hbranches

end FieldPlan

/-! ## Endpoints -/

namespace Endpoint

variable (names : CodeNames)

theorem listedAs_bindParam (param : EndpointParam) (position : Nat) :
    ListedAs names.runtime (bindParam names param position)
      (bindParamStatements names param position) := by
  have hvar : ∀ type : String, ListedAs names.runtime (line s!"var {paramLocal position} {type}")
      [.var ⟨paramLocal position, isAsciiName_paramLocal position⟩ type] := by
    intro type
    refine .line _ (by simp) ?_
    rw [CodeStatement.declared, List.all_cons, isGeneratedLocal_paramLocal]
    rfl
  have hbind : ListedAs names.runtime
      (line s!"if err := ctx.Bind({quote param.name}, &{paramLocal position}); err != nil \x7b")
      [.ifDefine [.of "err"] s!"ctx.Bind({quote param.name}, &{paramLocal position})"
        "err != nil"] :=
    .line _ (by simp) rfl
  exact (((hvar _).append hbind).append (ListedAs.returned "nil, err").nested).append .close

theorem listedAs_callHandler (call : String) (results : List TypeExpr) :
    ListedAs names.runtime (callHandler names s!"svc.{call}" results)
      (callHandlerStatements names call results) := by
  match results with
  | [] =>
      have hcall : ListedAs names.runtime (line s!"svc.{call}") [.ofService call] :=
        .line _ (by simp) rfl
      exact hcall.append (.returned "nil, nil")
  | [only] =>
      rw [callHandler, callHandlerStatements]
      by_cases herror : only.text = "error"
      · rw [if_pos herror, if_pos herror]
        exact .line _ (by simp) rfl
      · rw [if_neg herror, if_neg herror]
        have hvalue : ListedAs names.runtime
            (line s!"var res0 {names.imports.renderType only} = {serviceMember call}")
            [.var (.of "res0") s!"{names.imports.renderType only} = svc.{call}"] :=
          .line _ (by simp) rfl
        exact hvalue.append (.returned "res0, nil")
  | first :: second :: more =>
      have hvar : ListedAs names.runtime (line s!"var res0 {names.imports.renderType first}")
          [.var (.of "res0") (names.imports.renderType first)] := .line _ (by simp) rfl
      have hcall : ListedAs names.runtime (line s!"res0, err := {serviceMember call}")
          [.define [.of "res0", .of "err"] s!"svc.{call}"] := .line _ (by simp) rfl
      exact (hvar.append hcall).append (.returned "res0, err")

/-- The adapter of an endpoint is its statements. -/
theorem listedAs_code (e : Endpoint) :
    ListedAs names.runtime (code names e) (statements names e) := by
  have hhandle : ListedAs names.runtime (line (
      s!"router.Handle({quote e.method}, {quote e.path}, {middlewareExpression e.middleware}, "
      ++ s!"func(ctx {names.runtime}.Context) (any, error) \x7b"))
      [.callback (.handle e.method e.path e.middleware) [⟨.of "ctx", .context⟩]] :=
    .line _ (by simp) rfl
  have hparams : ListedAs names.runtime
      (e.params.zipIdx.flatMap fun (param, i) => bindParam names param i)
      (e.params.zipIdx.flatMap fun (param, i) => bindParamStatements names param i) :=
    .flatMap fun (param, i) _ => listedAs_bindParam names param i
  have hcall : ∀ arguments : String, ListedAs names.runtime
      (callHandler names s!"svc.{e.handler}({arguments})" e.results)
      (callHandlerStatements names s!"{e.handler}({arguments})" e.results) := by
    intro arguments
    have htext : s!"svc.{e.handler}({arguments})" = serviceMember s!"{e.handler}({arguments})" :=
      String.toList_inj.mp (by simp)
    rw [htext]
    exact listedAs_callHandler names _ e.results
  rw [code, statements]
  exact (hhandle.append (hparams.append (hcall _)).nested).append .closeCall

end Endpoint

/-! ## Services and files -/

namespace ServicePlan

variable (names : CodeNames) (plan : ServicePlan)

theorem listedAs_providerCode :
    ListedAs names.runtime (plan.providerCode names) (plan.providerStatements names) := by
  have hprovide : ListedAs names.runtime (line
      s!"r.Provide({quote plan.service.name}, func(c {names.runtime}.Container) (any, error) \x7b")
      [.callback (.provide plan.service.name) [⟨.of "c", .container⟩]] := .line _ (by simp) rfl
  have hnew : ListedAs names.runtime (line s!"svc := &{plan.service.structName}\x7b\x7d")
      [.define [.of "svc"] s!"&{plan.service.structName}\x7b\x7d"] := .line _ (by simp) rfl
  have hconfig : ListedAs names.runtime (if plan.hasConfig then line "cfg := c.Config()" else [])
      (if plan.hasConfig then [.define [.of "cfg"] "c.Config()"] else []) := by
    cases plan.hasConfig with
    | true => exact .line _ (by simp) rfl
    | false => exact .nil
  have hfields : ListedAs names.runtime (plan.fields.flatMap (FieldPlan.code names))
      (plan.fields.flatMap (FieldPlan.statements names)) :=
    .flatMap fun field _ => FieldPlan.listedAs_code names field
  have hbody := ((hnew.append hconfig).append hfields).append (.returned "svc, nil")
  rw [providerCode, providerStatements]
  simpa using (hprovide.append hbody.nested).append .closeCall

theorem listedAs_mountCode :
    ListedAs names.runtime (plan.mountCode names) (plan.mountStatements names) := by
  have hmount : ListedAs names.runtime (line (s!"r.Mount({quote plan.service.name}, "
      ++ s!"func(instance any, router {names.runtime}.Router) \x7b"))
      [.callback (.mount plan.service.name) [⟨.of "instance", .any⟩, ⟨.of "router", .router⟩]] :=
    .line _ (by simp) rfl
  have hinstance : ListedAs names.runtime (line s!"svc := instance.(*{plan.service.structName})")
      [.define [.of "svc"] s!"instance.(*{plan.service.structName})"] := .line _ (by simp) rfl
  have hendpoints : ListedAs names.runtime (plan.service.endpoints.flatMap (Endpoint.code names))
      (plan.service.endpoints.flatMap (Endpoint.statements names)) :=
    .flatMap fun e _ => Endpoint.listedAs_code names e
  unfold mountCode mountStatements
  by_cases hmounted : (plan.service.isRouter && !plan.service.endpoints.isEmpty) = true
  · rw [if_pos hmounted, if_pos hmounted]
    exact (hmount.append (hinstance.append hendpoints).nested).append .closeCall
  · rw [if_neg hmounted, if_neg hmounted]
    exact .nil

/-- The function of a service is its statements. -/
theorem listedAs_code : ListedAs names.runtime (plan.code names) (plan.statements names) := by
  have hhead : ListedAs names.runtime
      (line s!"func {plan.registerName}(r *{names.runtime}.Registry) \x7b")
      [.function plan.registerName [⟨.of "r", .registry⟩]] := .line _ (by simp) rfl
  have hbody := (listedAs_providerCode names plan).append (listedAs_mountCode names plan)
  exact (hhead.append hbody.nested).append .close

end ServicePlan

namespace Emission

variable (names : CodeNames) (plans : List ServicePlan)

end Emission

end ServiceWiring
