import ServiceWiring.Generated.File
import ServiceWiring.Proofs.CodeBlock
import ServiceWiring.Proofs.QuotedText

/-!
# The literals of generated code

The code of a service quotes its name, what its fields are looked up by, and what its endpoints
are reached by.  All of this can be read back from the code: services with other texts have other
code, whatever else is put into the lines.

* `FieldPlan.Quoted`, `Endpoint.Quoted`, `ServicePlan.Quoted` — what the code quotes;
* `FieldPlan.Opens` — the lines for a field that hold its literals;
* `FieldPlan.quoted_of_code`, `Endpoint.quoted_of_code`, `ServicePlan.quoted_of_code` — what the
  code quotes, from the code.
-/

namespace ServiceWiring

open Text StringLiteral CodeBlock

/-! ## Fields -/

namespace FieldPlan

variable {names names' : CodeNames} {plan plan' : FieldPlan} {first second : String}

/-- What the statements for a field quote: the dependency that is injected, or the key that is
    looked up and the separator of a list. -/
inductive Quoted where
  | dependency (name : String)
  | lookup (key : String) (separator : Option String)
  deriving DecidableEq, Repr

/-- The separator at which a value is split. -/
def separatorOf? : TypeShape → String → Option String
  | .list _ _, separator => some separator
  | _, _ => none

/-- What the statements for the field quote. -/
def quoted (plan : FieldPlan) : Quoted :=
  match plan.init with
  | .inject dependency => .dependency dependency
  | .config key shape _ _ separator => .lookup key (separatorOf? shape separator)

/-- How a look-up starts. -/
def lookupHeads : List String :=
  ["if v, ok := cfg.Lookup(", "if _, ok := cfg.Lookup("]

/-- The line behind a look-up, with the separator if it splits the value. -/
inductive Splits (second : String) : Option String → Prop where
  | whole (hsecond : second.toList.head? ≠ some 'f') : Splits second none
  | parts (strings separator : String)
      (hsecond : second = "for _, part := range " ++ strings ++ ".Split(v" ++ ", "
        ++ quote separator ++ ") \x7b") : Splits second (some separator)

/-- The first two lines of the statements for a field, and what they quote. -/
inductive Opens (first second : String) : Quoted → Prop where
  | dependency (target name : String)
      (hfirst : first = "if err := c.Inject(&" ++ target ++ ", " ++ quote name
        ++ "); err != nil \x7b") :
      Opens first second (.dependency name)
  | lookup {head : String} (hhead : head ∈ lookupHeads) (key : String)
      (hfirst : first = head ++ quote key ++ "); ok \x7b") {separator : Option String}
      (hsecond : Splits second separator) : Opens first second (.lookup key separator)

theorem Splits.unique {separator separator' : Option String} (h : Splits second separator)
    (h' : Splits second separator') : separator = separator' := by
  have hloop : ∀ strings separator : String, ("for _, part := range " ++ strings ++ ".Split(v"
      ++ ", " ++ quote separator ++ ") \x7b").toList.head? = some 'f' := by
    intro strings separator
    simp
  cases h with
  | whole hsecond =>
      cases h' with
      | whole _ => rfl
      | parts strings separator hsecond' => exact absurd (hsecond' ▸ hloop _ _) hsecond
  | parts strings separator hsecond =>
      cases h' with
      | whole hsecond' => exact absurd (hsecond ▸ hloop _ _) hsecond'
      | parts strings' separator' hsecond' =>
          have hsame := hsecond.symm.trans hsecond'
          rw [String.append_left_inj] at hsame
          rw [(append_quote_inj hsame).2]

theorem length_of_mem_lookupHeads : ∀ head ∈ lookupHeads, head.toList.length = 23 := by
  decide

theorem key_eq_of_lookup {head head' key key' : String} (hhead : head ∈ lookupHeads)
    (hhead' : head' ∈ lookupHeads) (hfirst : first = head ++ quote key ++ "); ok \x7b")
    (hfirst' : first = head' ++ quote key' ++ "); ok \x7b") : key = key' := by
  -- the two heads are of one length, so that the key starts at the same place behind either
  have hchars : head.toList ++ (quote key ++ "); ok \x7b").toList
      = head'.toList ++ (quote key' ++ "); ok \x7b").toList := by
    rw [← String.toList_append, ← String.toList_append, ← String.append_assoc,
      ← String.append_assoc, ← hfirst, ← hfirst']
  have hlength : head.toList.length = head'.toList.length := by
    rw [length_of_mem_lookupHeads head hhead, length_of_mem_lookupHeads head' hhead']
  have hquoted := String.toList_inj.mp (List.append_inj hchars hlength).2
  exact (quote_append_inj hquoted).1

/-- A look-up does not start like an injection. -/
theorem not_inject_of_lookup {head key target name : String} (hhead : head ∈ lookupHeads)
    (hfirst : first = head ++ quote key ++ "); ok \x7b")
    (hfirst' : first = "if err := c.Inject(&" ++ target ++ ", " ++ quote name
      ++ "); err != nil \x7b") : False := by
  have hchars := congrArg (fun s => s.toList.take 4) (hfirst.symm.trans hfirst')
  simp only [lookupHeads, List.mem_cons, List.not_mem_nil, or_false] at hhead
  rcases hhead with rfl | rfl
  · simp at hchars
  · simp at hchars

/-- The first two lines decide what is quoted. -/
theorem Opens.unique {q q' : Quoted} (h : Opens first second q) (h' : Opens first second q') :
    q = q' := by
  cases h with
  | dependency target name hfirst =>
      cases h' with
      | dependency target' name' hfirst' =>
          have hsame := hfirst.symm.trans hfirst'
          rw [String.append_left_inj] at hsame
          rw [(append_quote_inj hsame).2]
      | lookup hhead' key' hfirst' _ => exact (not_inject_of_lookup hhead' hfirst' hfirst).elim
  | lookup hhead key hfirst hsecond =>
      cases h' with
      | dependency target' name' hfirst' =>
          exact (not_inject_of_lookup hhead hfirst hfirst').elim
      | lookup hhead' key' hfirst' hsecond' =>
          rw [key_eq_of_lookup hhead hhead' hfirst hfirst', hsecond.unique hsecond']

/-- The first line of decoding the variable `v` tells whether it is split, and at what. -/
theorem splits_decode (names : CodeNames) (shape : TypeShape) (name separator key : String) :
    ∃ second more, decode names shape s!"svc.{name}" "v" separator key = ⟨0, second⟩ :: more
      ∧ Splits second (separatorOf? shape separator) := by
  cases shape with
  | scalar kind =>
      unfold decode
      dsimp only
      split
      · exact ⟨_, _, rfl, .whole (by simp)⟩
      · exact ⟨_, _, rfl, .whole (by simp)⟩
  | list kind element =>
      refine ⟨_, _, rfl, .parts (names.imports.nameOfStandard "strings") separator ?_⟩
      rw [← String.toList_inj]
      simp
  | bytes => exact ⟨_, _, rfl, .whole (by simp)⟩
  | structured base hook pointer =>
      cases pointer with
      | false => exact ⟨_, _, rfl, .whole (by simp)⟩
      | true => exact ⟨_, _, rfl, .whole (by simp)⟩

/-- The code of a field starts with the two lines. -/
theorem opens_code (names : CodeNames) (plan : FieldPlan) :
    ∃ first second, (∃ more, plan.code names = ⟨0, first⟩ :: ⟨1, second⟩ :: more)
      ∧ Opens first second plan.quoted := by
  obtain ⟨name, init⟩ := plan
  cases init with
  | inject dependency =>
      refine ⟨_, _, ⟨_, rfl⟩, .dependency s!"svc.{name}" dependency ?_⟩
      simp only [toString_string, String.append_assoc]
  | config key shape default required separator =>
      obtain ⟨second, more, hdecode, hsplits⟩ :=
        splits_decode names shape name separator (quote key)
      unfold code
      dsimp only
      split
      · rename_i base pointer
        exact ⟨_, _, ⟨_, rfl⟩, .lookup (by simp [lookupHeads]) key rfl (.whole (by simp))⟩
      · rw [hdecode]
        exact ⟨_, _, ⟨_, rfl⟩, .lookup (by simp [lookupHeads]) key rfl hsplits⟩

theorem not_mem_missingBranch (names : CodeNames) (shape : TypeShape)
    (default : Option DefaultValue) (required : Bool) (target separator key : String) :
    ⟨0, "\x7d"⟩ ∉ missingBranch names shape default required target separator key := by
  have helse : ∀ block, (⟨0, "\x7d"⟩ : CodeLine) ∉ line "\x7d else \x7b" ++ nested block := by
    intro block
    exact not_mem_append (not_mem_line (by decide)) (not_mem_nested _ _)
  unfold missingBranch
  split
  · exact helse _
  · split
    · exact helse _
    · exact List.not_mem_nil

/-- The code of a field is one statement. -/
theorem compound_code (names : CodeNames) (plan : FieldPlan) :
    Compound "if " "\x7d" (plan.code names) := by
  obtain ⟨name, init⟩ := plan
  cases init with
  | inject dependency => exact .intro (by simp) (by decide) (not_mem_nested _ _)
  | config key shape default required separator =>
      unfold code
      dsimp only
      split
      · rename_i base pointer
        rw [List.append_assoc (line _)]
        refine .intro (by simp) (by decide) (not_mem_append (not_mem_nested _ _) ?_)
        split
        · exact not_mem_append (not_mem_line (by decide)) (not_mem_nested _ _)
        · exact List.not_mem_nil
      · rw [List.append_assoc (line _)]
        exact .intro (by simp) (by decide)
          (not_mem_append (not_mem_nested _ _) (not_mem_missingBranch _ _ _ _ _ _ _))

/-- The code of a field decides what it quotes. -/
theorem quoted_of_code (h : plan.code names = plan'.code names') : plan.quoted = plan'.quoted := by
  obtain ⟨first, second, ⟨more, hcode⟩, hopens⟩ := opens_code names plan
  obtain ⟨first', second', ⟨more', hcode'⟩, hopens'⟩ := opens_code names' plan'
  obtain ⟨hfirst, hrest⟩ := List.cons.inj (hcode.symm.trans (h.trans hcode'))
  obtain rfl : first = first' := congrArg CodeLine.text hfirst
  obtain rfl : second = second' := congrArg CodeLine.text (List.cons.inj hrest).1
  exact hopens.unique hopens'

end FieldPlan

/-! ## Endpoints -/

namespace Endpoint

variable {names names' : CodeNames} {e e' : Endpoint}

/-- What the code of an endpoint quotes: how it is reached, the names of its middleware, and the
    names that its parameters are bound by. -/
structure Quoted where
  method : String
  path : String
  middleware : List String
  params : List String
  deriving DecidableEq, Repr

/-- What the code of the endpoint quotes. -/
def quoted (e : Endpoint) : Quoted where
  method := e.method
  path := e.path
  middleware := e.middleware
  params := e.params.map (·.name)

/-- Quoted texts that are joined by commas, up to the brace behind them. -/
theorem eq_of_joined {name name' x y : String} {more more' : List String}
    (h : String.intercalate ", " ((name :: more).map quote) ++ ("\x7d" ++ x)
      = String.intercalate ", " ((name' :: more').map quote) ++ ("\x7d" ++ y)) :
    name :: more = name' :: more' := by
  -- behind each text stands the comma of the next one or the closing brace
  have hbehind : ∀ a b : String, "\x7d" ++ a ≠ ", " ++ b := by
    intro a b hsame
    have hchars := congrArg (fun s => s.toList.head?) hsame
    simp at hchars
  induction more generalizing name name' more' with
  | nil =>
      cases more' with
      | nil => rw [(quote_append_inj h).1]
      | cons next' more' =>
          rw [List.map_cons, List.map_cons, List.map_cons, String.intercalate_cons_cons,
            String.append_assoc, String.append_assoc] at h
          exact absurd (quote_append_inj h).2 (hbehind _ _)
  | cons next more ih =>
      rw [List.map_cons, List.map_cons, String.intercalate_cons_cons, String.append_assoc,
        String.append_assoc] at h
      cases more' with
      | nil => exact absurd (quote_append_inj h).2.symm (hbehind _ _)
      | cons next' more' =>
          rw [List.map_cons, List.map_cons, String.intercalate_cons_cons, String.append_assoc,
            String.append_assoc] at h
          obtain ⟨rfl, hbehind'⟩ := quote_append_inj h
          rw [ih ((String.append_right_inj _).mp hbehind')]

theorem middlewareExpression_cons (name : String) (more : List String) :
    middlewareExpression (name :: more)
      = "[]string\x7b" ++ String.intercalate ", " ((name :: more).map quote) ++ "\x7d" :=
  rfl

/-- The middleware can be told from what stands behind it. -/
theorem middleware_eq_of_append {middleware middleware' : List String} {x y : String}
    (h : middlewareExpression middleware ++ x = middlewareExpression middleware' ++ y) :
    middleware = middleware' := by
  have hnil : ∀ a b : String, middlewareExpression [] ++ a ≠ "[]string\x7b" ++ b := by
    intro a b hsame
    have hchars := congrArg (fun s => s.toList.head?) hsame
    simp [middlewareExpression] at hchars
  cases middleware with
  | nil =>
      cases middleware' with
      | nil => rfl
      | cons name' more' =>
          rw [middlewareExpression_cons, String.append_assoc, String.append_assoc] at h
          exact absurd h (hnil _ _)
  | cons name more =>
      rw [middlewareExpression_cons, String.append_assoc, String.append_assoc] at h
      cases middleware' with
      | nil => exact absurd h.symm (hnil _ _)
      | cons name' more' =>
          rw [middlewareExpression_cons, String.append_assoc, String.append_assoc] at h
          exact eq_of_joined ((String.append_right_inj _).mp h)

theorem compound_bindParam (names : CodeNames) (param : EndpointParam) (position : ℕ) :
    Compound "var arg" "\x7d" (bindParam names param position) := by
  unfold bindParam
  dsimp only
  rw [List.append_assoc (line _)]
  exact .intro (by simp [paramLocal]) (by decide)
    (not_mem_append (not_mem_line (by simp [← String.toList_inj])) (not_mem_nested _ _))

theorem name_of_bindParam {param param' : EndpointParam} {i j : ℕ}
    (h : bindParam names param i = bindParam names' param' j) : param.name = param'.name := by
  have hline := congrArg CodeLine.text (List.cons.inj (List.cons.inj h).2).1
  simp only [toString_string, String.append_assoc, String.append_right_inj] at hline
  exact (quote_append_inj hline).1

theorem not_startsWith_callHandler (names : CodeNames) (handler arguments : String)
    (results : List TypeExpr) :
    ¬ StartsWith "var arg" (callHandler names s!"svc.{handler}({arguments})" results) := by
  unfold callHandler
  split
  · rintro ⟨l, ⟨⟩, hl⟩
    simp at hl
  · split
    · rintro ⟨l, ⟨⟩, hl⟩
      simp at hl
    · rintro ⟨l, ⟨⟩, hl⟩
      simp at hl
  · rintro ⟨l, ⟨⟩, hl⟩
    simp at hl

/-- The statements in the function of an endpoint. -/
def body (names : CodeNames) (e : Endpoint) : CodeBlock :=
  let arguments := String.intercalate ", " (e.params.zipIdx.map fun x => argument x.1 x.2)
  e.params.zipIdx.flatMap (fun x => bindParam names x.1 x.2)
    ++ callHandler names s!"svc.{e.handler}({arguments})" e.results

/-- The line that registers an endpoint. -/
def handleLine (names : CodeNames) (e : Endpoint) : String :=
  "router.Handle(" ++ (quote e.method ++ (", " ++ (quote e.path ++ (", "
    ++ (middlewareExpression e.middleware
      ++ s!", func(ctx {names.runtime}.Context) (any, error) \x7b")))))

theorem code_eq (names : CodeNames) (e : Endpoint) :
    e.code names = ⟨0, e.handleLine names⟩ :: (nested (e.body names) ++ line "\x7d)") := by
  have hfirst : ∀ text, text = e.handleLine names →
      line text ++ nested (e.body names) ++ line "\x7d)"
        = ⟨0, e.handleLine names⟩ :: (nested (e.body names) ++ line "\x7d)") := by
    rintro text rfl
    rfl
  refine hfirst _ ?_
  rw [← String.toList_inj]
  simp [handleLine]

/-- The code of an endpoint is one statement. -/
theorem compound_code (names : CodeNames) (e : Endpoint) :
    Compound "router.Handle(" "\x7d)" (e.code names) := by
  rw [code_eq]
  exact .intro (by simp [handleLine]) (by decide) (not_mem_nested _ _)

theorem params_of_body (h : e.body names = e'.body names') :
    e.params.map (·.name) = e'.params.map (·.name) := by
  have hcompound : ∀ (names : CodeNames) (x : EndpointParam × ℕ),
      Compound "var arg" "\x7d" (bindParam names x.1 x.2) := by
    intro names x
    exact compound_bindParam names x.1 x.2
  have hdecides : ∀ x y : EndpointParam × ℕ,
      bindParam names x.1 x.2 = bindParam names' y.1 y.2 → x.1.name = y.1.name := by
    intro x y hxy
    exact name_of_bindParam hxy
  have hnames := map_eq_of_compound (hcompound names) (hcompound names') hdecides
    (not_startsWith_callHandler _ _ _ _) (not_startsWith_callHandler _ _ _ _) h
  have hfst : ∀ params : List EndpointParam,
      params.zipIdx.map (fun x => x.1.name) = params.map (·.name) := by
    intro params
    rw [show (fun x : EndpointParam × ℕ => x.1.name) = (·.name) ∘ Prod.fst from rfl, ← List.map_map,
      List.zipIdx_map_fst]
  rwa [hfst, hfst] at hnames

/-- The code of an endpoint decides what it quotes. -/
theorem quoted_of_code (h : e.code names = e'.code names') : e.quoted = e'.quoted := by
  rw [code_eq, code_eq] at h
  obtain ⟨hfirst, hrest⟩ := List.cons.inj h
  have hline := (String.append_right_inj _).mp (congrArg CodeLine.text hfirst)
  obtain ⟨hmethod, hline⟩ := quote_append_inj hline
  obtain ⟨hpath, hline⟩ := quote_append_inj ((String.append_right_inj _).mp hline)
  have hmiddleware := middleware_eq_of_append ((String.append_right_inj _).mp hline)
  have hbody : e.body names = e'.body names' := nested_inj (List.append_cancel_right hrest)
  have hparams := params_of_body hbody
  rw [quoted, quoted, hmethod, hpath, hmiddleware, hparams]

end Endpoint

/-! ## Services -/

namespace ServicePlan

variable {names names' : CodeNames} {plan plan' : ServicePlan}

/-- The endpoints that are mounted: those of a router. -/
def mounted (plan : ServicePlan) : List Endpoint :=
  if plan.service.isRouter then plan.service.endpoints else []

/-- What the code of a service quotes: its name, and what its fields and its mounted endpoints
    quote. -/
structure Quoted where
  name : String
  fields : List FieldPlan.Quoted
  endpoints : List Endpoint.Quoted
  deriving DecidableEq, Repr

/-- What the code of the service quotes. -/
def quoted (plan : ServicePlan) : Quoted where
  name := plan.service.name
  fields := plan.fields.map (·.quoted)
  endpoints := plan.mounted.map (·.quoted)

/-- The line with which the provider finds the configuration. -/
def configLine (plan : ServicePlan) : CodeBlock :=
  if plan.hasConfig then line "cfg := c.Config()" else []

/-- The statements that fill the fields, up to the return. -/
def fillCode (names : CodeNames) (plan : ServicePlan) : CodeBlock :=
  plan.fields.flatMap (FieldPlan.code names) ++ line "return svc, nil"

theorem providerCode_eq (names : CodeNames) (plan : ServicePlan) :
    plan.providerCode names
      = line ("r.Provide(" ++ (quote plan.service.name
          ++ s!", func(c {names.runtime}.Container) (any, error) \x7b"))
        ++ nested (line s!"svc := &{plan.service.structName}\x7b\x7d"
          ++ (plan.configLine ++ plan.fillCode names))
        ++ line "\x7d)" := by
  unfold providerCode configLine fillCode
  simp only [toString_string, String.append_assoc, List.append_assoc]

theorem mountCode_eq (names : CodeNames) (plan : ServicePlan) :
    plan.mountCode names = if plan.mounted.isEmpty then [] else
      line (s!"r.Mount({quote plan.service.name}, "
          ++ s!"func(instance any, router {names.runtime}.Router) \x7b")
        ++ nested (line s!"svc := instance.(*{plan.service.structName})"
          ++ plan.mounted.flatMap (Endpoint.code names))
        ++ line "\x7d)" := by
  unfold mountCode mounted
  cases plan.service.isRouter with
  | false => rfl
  | true =>
      cases plan.service.endpoints with
      | nil => rfl
      | cons e endpoints => rfl

theorem compound_providerCode (names : CodeNames) (plan : ServicePlan) :
    Compound "r.Provide(" "\x7d)" (plan.providerCode names) := by
  rw [providerCode_eq]
  exact .intro (by simp) (by decide) (not_mem_nested _ _)

/-- No line for a field is taken for the one that finds the configuration. -/
theorem not_startsWith_fillCode (names : CodeNames) (plan : ServicePlan) :
    ¬ StartsWith "cfg" (plan.fillCode names) := by
  unfold fillCode
  cases plan.fields with
  | nil =>
      rintro ⟨l, ⟨⟩, hl⟩
      exact absurd hl (by decide)
  | cons field fields =>
      rw [List.flatMap_cons, List.append_assoc]
      exact (FieldPlan.compound_code names field).not_startsWith (by decide) (by decide)

/-- Whether the configuration is found first, can be told from the code. -/
theorem fillCode_of_config (h : plan.configLine ++ plan.fillCode names
    = plan'.configLine ++ plan'.fillCode names') : plan.fillCode names = plan'.fillCode names' := by
  have hstarts : ∀ rest : CodeBlock, StartsWith "cfg" (line "cfg := c.Config()" ++ rest) := by
    intro rest
    exact ⟨_, rfl, by decide⟩
  unfold configLine at h
  -- if only one of them finds the configuration, the other has a field where that line stands
  split at h
  · split at h
    · exact List.append_cancel_left h
    · rw [List.nil_append] at h
      exact absurd (h ▸ hstarts _) (not_startsWith_fillCode names' plan')
  · split at h
    · rw [List.nil_append] at h
      exact absurd (h ▸ hstarts _) (not_startsWith_fillCode names plan)
    · exact h

theorem fields_of_fillCode (h : plan.fillCode names = plan'.fillCode names') :
    plan.fields.map (·.quoted) = plan'.fields.map (·.quoted) := by
  have hreturn : ¬ StartsWith "if " (line "return svc, nil") := by
    rintro ⟨l, ⟨⟩, hl⟩
    exact absurd hl (by decide)
  exact map_eq_of_compound (FieldPlan.compound_code names) (FieldPlan.compound_code names')
    (fun _ _ hcode => FieldPlan.quoted_of_code hcode) hreturn hreturn h

/-- The provider decides the name of the service and what its fields quote. -/
theorem quoted_of_providerCode (h : plan.providerCode names = plan'.providerCode names') :
    plan.service.name = plan'.service.name
      ∧ plan.fields.map (·.quoted) = plan'.fields.map (·.quoted) := by
  rw [providerCode_eq, providerCode_eq, List.append_assoc, List.append_assoc] at h
  obtain ⟨hfirst, hrest⟩ := List.cons.inj h
  have hline := (String.append_right_inj _).mp (congrArg CodeLine.text hfirst)
  have hbody := nested_inj (List.append_cancel_right hrest)
  have hfill := fillCode_of_config (List.cons.inj hbody).2
  exact ⟨(quote_append_inj hline).1, fields_of_fillCode hfill⟩

/-- The mounting decides what the endpoints quote. -/
theorem quoted_of_mountCode (h : plan.mountCode names = plan'.mountCode names') :
    plan.mounted.map (·.quoted) = plan'.mounted.map (·.quoted) := by
  rw [mountCode_eq, mountCode_eq] at h
  split at h
  · rename_i hempty
    split at h
    · rename_i hempty'
      rw [List.isEmpty_iff.mp hempty, List.isEmpty_iff.mp hempty']
    · cases h
  · split at h
    · cases h
    · rw [List.append_assoc, List.append_assoc (line _)] at h
      have hbody := nested_inj (List.append_cancel_right (List.cons.inj h).2)
      have hend : ¬ StartsWith "router.Handle(" [] := by
        rintro ⟨l, ⟨⟩, -⟩
      refine map_eq_of_compound (Endpoint.compound_code names) (Endpoint.compound_code names')
        (fun _ _ hcode => Endpoint.quoted_of_code hcode) hend hend ?_
      rw [List.append_nil, List.append_nil]
      exact (List.cons.inj hbody).2

/-- The code of a service is one statement. -/
theorem compound_code (names : CodeNames) (plan : ServicePlan) :
    Compound "func " "\x7d" (plan.code names) := by
  unfold code
  exact .intro (by simp) (by decide) (not_mem_nested _ _)

/-- The code of a service decides what it quotes. -/
theorem quoted_of_code (h : plan.code names = plan'.code names') : plan.quoted = plan'.quoted := by
  unfold code at h
  rw [List.append_assoc, List.append_assoc] at h
  have hbody := nested_inj (List.append_cancel_right (List.cons.inj h).2)
  obtain ⟨hprovider, hmount⟩ :=
    (compound_providerCode names plan).append_inj (compound_providerCode names' plan') hbody
  obtain ⟨hname, hfields⟩ := quoted_of_providerCode hprovider
  rw [quoted, quoted, hname, hfields, quoted_of_mountCode hmount]

end ServicePlan

end ServiceWiring
