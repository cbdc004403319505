import ServiceWiring.Proofs.CodeBlock
import ServiceWiring.Proofs.ListDefault
import ServiceWiring.Service.Aggregate

/-!
# Keys and separators in generated code

A configuration key and a separator stand in generated code as string literals that are quoted
afresh.  The text of an argument between double quotes keeps its backslashes, so that such a
literal stands for the text as it is written and not for what it means.

* `Argument.meaning?` — the bytes that an argument means;
* `FieldPlan.KeyLiteral`, `FieldPlan.SeparatorLiteral` — the literals of the statements that take
  the key and the separator;
* `FieldPlan.keyLiteral_iff`, `FieldPlan.separatorLiteral_iff` — each is quoted afresh;
* `FieldPlan.literals_denote_iff` — when they stand for what the arguments mean.
-/

namespace ServiceWiring

open Text StringLiteral CodeBlock

/-- The bytes that an argument means: the text of a plain-quoted one without its escapes, any other
    text as it is. -/
def Argument.meaning? (a : Argument) : Option (List UInt8) :=
  match a.quoting with
  | .plain => unescape? a.text.toList
  | _ => some (utf8 a.text.toList)

/-- A text that is quoted afresh means the same exactly if no backslash stood between double
    quotes. -/
theorem Argument.value?_quote_iff {a : Argument} {bytes : List UInt8}
    (h : a.meaning? = some bytes) :
    value? (quote a.text).toList = some bytes ↔ ¬ (a.quoting = .plain ∧ '\\' ∈ a.text.toList) := by
  rw [quote, String.toList_ofList, value?_quoteChars, Option.some_inj]
  unfold meaning? at h
  cases hquoting : a.quoting with
  | plain =>
      rw [hquoting] at h
      rw [eq_comm, unescape?_self_iff h]
      simp
  | raw =>
      rw [hquoting] at h
      simp [Option.some.inj h]
  | bare =>
      rw [hquoting] at h
      simp [Option.some.inj h]

/-- A list is decoded part by part. -/
def TypeShape.IsList (shape : TypeShape) : Prop :=
  ∃ kind element, shape = .list kind element

namespace FieldPlan

variable {names : CodeNames} {target key separator literal line name : String}
  {shape : TypeShape} {kind : ScalarKind} {element : TypeExpr}

/-! ## Statements with a literal -/

/-- What stands around the key where a structured value is read. -/
def unmarshalForm (target : String) : String × String :=
  ("if err := cfg.Unmarshal(", s!", &{target}); err != nil \x7b")

/-- What stands around the key in the statements that take it. -/
def keyForms (names : CodeNames) (target : String) : List (String × String) := [
  ("if v, ok := cfg.Lookup(", "); ok \x7b"),
  ("if _, ok := cfg.Lookup(", "); ok \x7b"),
  unmarshalForm target,
  (s!"return nil, {names.runtime}.MissingConfig(", ")"),
  (s!"return nil, {names.runtime}.ConfigError(", ", err)")]

/-- What stands around the separator in the statement that takes it. -/
def splitForm (names : CodeNames) : String × String :=
  let strings := names.imports.nameOfStandard "strings"
  (s!"for _, part := range {strings}.Split(v, ", ") \x7b")

/-- A statement that holds a literal. -/
structure Holds (form : String × String) (literal line : String) : Prop where
  eq : line = form.1 ++ literal ++ form.2

theorem Holds.unique {form : String × String} {literal' : String} (h : Holds form literal line)
    (h' : Holds form literal' line) : literal' = literal := by
  have hchars := congrArg String.toList (h'.eq.symm.trans h.eq)
  simp only [String.toList_append] at hchars
  exact String.toList_inj.mp (List.append_cancel_left (List.append_cancel_right hchars))

/-- How the statements that take the key begin. -/
def keyBeginnings : List (List Char) :=
  ["if v, ok :=".toList, "if _, ok :=".toList, "if err := c".toList, "return nil,".toList]

/-- The lines for a field: some take the key, some split a list at the separator, and the others
    begin in another way. -/
inductive Statement (names : CodeNames) (target key separator : String) (shape : TypeShape) :
    String → Prop where
  | key {form : String × String} {line : String} (hform : form ∈ keyForms names target)
      (h : Holds form key line) : Statement names target key separator shape line
  | split {line : String} (hlist : shape.IsList) (h : Holds (splitForm names) separator line) :
      Statement names target key separator shape line
  | other {line : String} (h : line.toList.take 11 ∉ keyBeginnings)
      (h' : line.toList.head? ≠ some 'f') : Statement names target key separator shape line

/-- A line takes the key in one way. -/
theorem form_unique {form form' : String × String} (hform : form ∈ keyForms names target)
    (hform' : form' ∈ keyForms names target) (h : Holds form key line)
    (h' : Holds form' literal line) : form' = form := by
  have hchars := congrArg String.toList (h.eq.symm.trans h'.eq)
  simp only [keyForms, unmarshalForm, List.mem_cons, List.not_mem_nil, or_false] at hform hform'
  -- two forms that are not the same differ in front of the key
  rcases hform with rfl | rfl | rfl | rfl | rfl
  all_goals
    rcases hform' with rfl | rfl | rfl | rfl | rfl
    all_goals
      first
        | with_reducible rfl
        | simp at hchars

theorem eq_of_holds {form form' : String × String} (hform : form ∈ keyForms names target)
    (hform' : form' ∈ keyForms names target) (h : Holds form key line)
    (h' : Holds form' literal line) : literal = key := by
  rw [form_unique hform hform' h h'] at h'
  exact h.unique h'

theorem begins_of_holds {form : String × String} (hform : form ∈ keyForms names target)
    (h : Holds form literal line) :
    line.toList.take 11 ∈ keyBeginnings ∧ line.toList.head? ≠ some 'f' := by
  rw [h.eq]
  simp only [keyForms, List.mem_cons, List.not_mem_nil, or_false] at hform
  rcases hform with rfl | rfl | rfl | rfl | rfl
  all_goals simp [keyBeginnings, unmarshalForm]

theorem begins_of_splits (h : Holds (splitForm names) literal line) :
    line.toList.head? = some 'f' := by
  obtain ⟨strings, hform⟩ : ∃ strings : String,
      splitForm names = (s!"for _, part := range {strings}.Split(v, ", ") \x7b") := ⟨_, rfl⟩
  rw [h.eq, hform]
  simp

/-- A statement takes the key from its own literal only. -/
theorem Statement.key_eq {form : String × String}
    (h : Statement names target key separator shape line) (hform : form ∈ keyForms names target)
    (hholds : Holds form literal line) : literal = key := by
  obtain ⟨hbegins, hhead⟩ := begins_of_holds hform hholds
  cases h with
  | key hown h => exact eq_of_holds hown hform h hholds
  | split _ h => exact absurd (begins_of_splits h) hhead
  | other h _ => exact absurd hbegins h

/-- Only the loop of a list takes the separator. -/
theorem Statement.separator_eq (h : Statement names target key separator shape line)
    (hholds : Holds (splitForm names) literal line) : shape.IsList ∧ literal = separator := by
  have hhead := begins_of_splits hholds
  cases h with
  | key hown h => exact absurd hhead (begins_of_holds hown h).2
  | split hlist h => exact ⟨hlist, h.unique hholds⟩
  | other _ h' => exact absurd hhead h'

/-! ## The statements for a field -/

theorem all_other (h : line.toList.take 11 ∉ keyBeginnings) (h' : line.toList.head? ≠ some 'f') :
    All (Statement names target key separator shape) (CodeBlock.line line) :=
  all_line.mpr (.other h h')

theorem all_taking (form : String × String) (hform : form ∈ keyForms names target) :
    All (Statement names target key separator shape)
      (CodeBlock.line (form.1 ++ key ++ form.2)) :=
  all_line.mpr (.key hform ⟨rfl⟩)

theorem all_configError : All (Statement names target key separator shape)
    (configError names key) :=
  all_taking (s!"return nil, {names.runtime}.ConfigError(", ", err)") (by simp [keyForms])

theorem all_missingConfig : All (Statement names target key separator shape)
    (missingConfig names key) :=
  all_taking (s!"return nil, {names.runtime}.MissingConfig(", ")") (by simp [keyForms])

theorem all_close : All (Statement names target key separator shape)
    (CodeBlock.line "\x7d") :=
  all_other (by simp [keyBeginnings]) (by simp)

theorem all_checkError : All (Statement names target key separator shape)
    (checkError names key) := by
  rw [checkError, all_append, all_append, all_nested]
  exact ⟨⟨all_other (by simp [keyBeginnings]) (by simp), all_configError⟩, all_close⟩

theorem all_appendPart (name : String) : All (Statement names target key separator shape)
    (appendPart names kind element s!"svc.{name}" key) := by
  unfold appendPart
  split
  · exact all_other (by simp [keyBeginnings]) (by simp)
  · dsimp only
    rw [all_append, all_append]
    exact ⟨⟨all_other (by simp [keyBeginnings]) (by simp), all_checkError⟩,
      all_other (by simp [keyBeginnings]) (by simp)⟩

theorem split_eq (strings separator : String) {source : String} (h : source = "v") :
    s!"for _, part := range {strings}.Split({source}, {quote separator}) \x7b"
      = s!"for _, part := range {strings}.Split(v, " ++ quote separator ++ ") \x7b" := by
  rw [← String.toList_inj, h]
  simp

theorem all_decode (name source separator : String) (hsource : shape.IsList → source = "v") :
    All (Statement names target key (quote separator) shape)
      (decode names shape s!"svc.{name}" source separator key) := by
  cases shape with
  | scalar kind =>
      rw [decode]
      split
      · exact all_other (by simp [keyBeginnings]) (by simp)
      · rw [all_append, all_append]
        exact ⟨⟨all_other (by simp [keyBeginnings]) (by simp), all_checkError⟩,
          all_other (by simp [keyBeginnings]) (by simp)⟩
  | list kind element =>
      have hlist : TypeShape.IsList (.list kind element) := ⟨kind, element, rfl⟩
      obtain rfl := hsource hlist
      rw [decode, all_append, all_append, all_nested, all_append, all_append, all_append,
        all_append, all_nested]
      refine ⟨⟨all_line.mpr (.split hlist ⟨split_eq _ separator rfl⟩), ⟨⟨⟨?_, ?_⟩, ?_⟩, all_close⟩,
        all_appendPart name⟩, all_close⟩
      · exact all_other (by simp [keyBeginnings]) (by simp)
      · exact all_other (by simp [keyBeginnings]) (by simp)
      · exact all_other (by simp [keyBeginnings]) (by simp)
  | bytes => exact all_other (by simp [keyBeginnings]) (by simp)
  | structured base hook pointer =>
      rw [decode, all_append, all_append, all_append, all_nested]
      refine ⟨⟨⟨?_, all_other (by simp [keyBeginnings]) (by simp)⟩, all_configError⟩, all_close⟩
      cases pointer with
      | false => exact all_nil
      | true => exact all_other (by simp [keyBeginnings]) (by simp)

theorem all_missingBranch (name separator : String) (default : Option DefaultValue)
    (required : Bool) : All (Statement names target key (quote separator) shape)
      (missingBranch names shape default required s!"svc.{name}" separator key) := by
  have helse : All (Statement names target key (quote separator) shape)
      (CodeBlock.line "\x7d else \x7b") :=
    all_other (by simp [keyBeginnings]) (by simp)
  cases default with
  | none =>
      rw [missingBranch]
      split
      · rw [all_append, all_nested]
        exact ⟨helse, all_missingConfig⟩
      · exact all_nil
  | some value =>
      unfold missingBranch
      dsimp only
      rw [all_append, all_nested]
      refine ⟨helse, ?_⟩
      cases shape with
      | structured base hook pointer =>
          -- the default is decoded like a value, and no list is structured
          refine all_decode name _ separator ?_
          rintro ⟨kind, element, hlist⟩
          cases hlist
      | scalar kind => exact all_other (by simp [keyBeginnings]) (by simp)
      | list kind element => exact all_other (by simp [keyBeginnings]) (by simp)
      | bytes => exact all_other (by simp [keyBeginnings]) (by simp)

variable {plan : FieldPlan} {default : Option DefaultValue} {required : Bool}

/-- The name of the field behind the variable that holds the service. -/
def targetOf (plan : FieldPlan) : String :=
  s!"svc.{plan.name}"

/-- Every line for a configured field is one of the statements. -/
theorem all_code (hinit : plan.init = .config key shape default required separator) :
    All (Statement names plan.targetOf (quote key) (quote separator) shape) (plan.code names) := by
  obtain ⟨name, init⟩ := plan
  obtain rfl : init = .config key shape default required separator := hinit
  unfold code
  dsimp only
  split
  · rename_i base pointer
    have hunmarshal : ∀ target : String,
        s!"if err := cfg.Unmarshal({quote key}, &{target}); err != nil \x7b"
          = "if err := cfg.Unmarshal(" ++ quote key ++ s!", &{target}); err != nil \x7b" := by
      intro target
      rw [← String.toList_inj]
      simp
    rw [all_append, all_append, all_append, all_nested, all_append, all_append, all_nested]
    refine ⟨⟨⟨?_, ⟨?_, all_configError⟩, all_close⟩, ?_⟩, all_close⟩
    · exact all_taking ("if _, ok := cfg.Lookup(", "); ok \x7b") (by simp [keyForms])
    · rw [hunmarshal]
      exact all_taking (unmarshalForm s!"svc.{name}") (by simp [keyForms, targetOf])
    · exact all_missingBranch name separator none required
  · rw [all_append, all_append, all_append, all_nested]
    refine ⟨⟨⟨?_, ?_⟩, ?_⟩, all_close⟩
    · exact all_taking ("if v, ok := cfg.Lookup(", "); ok \x7b") (by simp [keyForms])
    · exact all_decode name "v" separator fun _ => rfl
    · exact all_missingBranch name separator default required

/-- A literal from which the statements for a field take the key. -/
def KeyLiteral (names : CodeNames) (plan : FieldPlan) (literal : String) : Prop :=
  Has (fun line => ∃ form ∈ keyForms names plan.targetOf, Holds form literal line)
    (plan.code names)

/-- A literal from which the statements for a field take the separator. -/
def SeparatorLiteral (names : CodeNames) (plan : FieldPlan) (literal : String) : Prop :=
  Has (Holds (splitForm names) literal) (plan.code names)

/-- The key is quoted afresh wherever it is taken, and it is taken somewhere. -/
theorem keyLiteral_iff (hinit : plan.init = .config key shape default required separator) :
    KeyLiteral names plan literal ↔ literal = quote key := by
  constructor
  · rintro ⟨l, hl, form, hform, hholds⟩
    exact (all_code hinit l hl).key_eq hform hholds
  · rintro rfl
    obtain ⟨name, init⟩ := plan
    obtain rfl : init = .config key shape default required separator := hinit
    unfold KeyLiteral code
    dsimp only
    split
    · refine has_append_left (has_append_left (has_append_left (has_line ?_) _) _) _
      exact ⟨("if _, ok := cfg.Lookup(", "); ok \x7b"), by simp [keyForms], ⟨rfl⟩⟩
    · refine has_append_left (has_append_left (has_append_left (has_line ?_) _) _) _
      exact ⟨("if v, ok := cfg.Lookup(", "); ok \x7b"), by simp [keyForms], ⟨rfl⟩⟩

/-- The separator is quoted afresh in the loop of a list. -/
theorem separatorLiteral_iff (hinit : plan.init = .config key shape default required separator) :
    SeparatorLiteral names plan literal ↔ shape.IsList ∧ literal = quote separator := by
  constructor
  · rintro ⟨l, hl, hholds⟩
    exact (all_code hinit l hl).separator_eq hholds
  · rintro ⟨⟨kind, element, rfl⟩, rfl⟩
    obtain ⟨name, init⟩ := plan
    obtain rfl : init = .config key (.list kind element) default required separator := hinit
    unfold SeparatorLiteral code
    dsimp only
    refine has_append_left (has_append_left (has_append_right _ (has_nested ?_)) _) _
    rw [decode]
    exact has_append_left (has_append_left (has_line ⟨split_eq _ separator rfl⟩) _) _

/-! ## What the literals stand for -/

theorem init_ofField {hooks : List String} {field : WiredField} {lookup : ConfigLookup}
    (horigin : field.origin = .config lookup) (hplan : ofField hooks field = .ok plan) :
    ∃ default, plan.init = .config lookup.key (TypeShape.classify hooks field.type) default
      lookup.required lookup.separator := by
  rw [ofField, horigin] at hplan
  obtain ⟨default, -, rfl⟩ := map_eq_ok hplan
  exact ⟨default, rfl⟩

/-- The key and the separator of a directive go into the lookup as they are. -/
theorem lookup_of_originOf? {type : String} {spec : ConfigSpec} {origin : FieldOrigin}
    (h : Aggregate.originOf? type (.config spec) = some (.ok origin)) :
    ∃ lookup : ConfigLookup, origin = .config lookup ∧ lookup.key = spec.key
      ∧ lookup.separator = spec.separator := by
  rw [Aggregate.originOf?] at h
  split at h
  · cases Option.some.inj h
  · exact ⟨_, (Except.ok.inj (Option.some.inj h)).symm, rfl, rfl⟩

/-- A literal that quotes the text of an argument afresh. -/
theorem denote_iff {Literal : String → Prop} {a : Argument} {bytes : List UInt8}
    (hliteral : ∀ literal, Literal literal ↔ literal = quote a.text)
    (hmeaning : a.meaning? = some bytes) :
    (∃ literal, Literal literal)
      ∧ ((∀ literal, Literal literal → value? literal.toList = some bytes)
        ↔ ¬ (a.quoting = .plain ∧ '\\' ∈ a.text.toList)) := by
  refine ⟨⟨_, (hliteral _).mpr rfl⟩, ?_⟩
  rw [← Argument.value?_quote_iff hmeaning]
  constructor
  · intro h
    exact h _ ((hliteral _).mpr rfl)
  · intro h literal hown
    rwa [(hliteral literal).mp hown]

/-- The statements for a configured field take its key from a literal, and those for a list its
    separator.  Each literal stands for what the argument means exactly if no backslash stands
    between the double quotes of the argument. -/
theorem literals_denote_iff {body : List Char} {spec : ConfigSpec} {args : Arguments}
    (hparse : Directive.parse? body = .ok (some (.config spec, args)))
    {type : String} {hooks : List String} {field : WiredField}
    (horigin : Aggregate.originOf? type (.config spec) = some (.ok field.origin))
    (hplan : ofField hooks field = .ok plan) (names : CodeNames) :
    (∀ a bytes, Directive.keyArgument? args = some a → a.meaning? = some bytes →
        (∃ literal, KeyLiteral names plan literal)
          ∧ ((∀ literal, KeyLiteral names plan literal → value? literal.toList = some bytes)
            ↔ ¬ (a.quoting = .plain ∧ '\\' ∈ a.text.toList)))
      ∧ ∀ a bytes, args.get? "sep" = some a → a.meaning? = some bytes →
        (TypeShape.classify hooks field.type).IsList →
        (∃ literal, SeparatorLiteral names plan literal)
          ∧ ((∀ literal, SeparatorLiteral names plan literal → value? literal.toList = some bytes)
            ↔ ¬ (a.quoting = .plain ∧ '\\' ∈ a.text.toList)) := by
  obtain ⟨-, htaken⟩ := Directive.config_of_parse? hparse
  obtain ⟨lookup, hlookup, hkey, hseparator⟩ := lookup_of_originOf? horigin
  obtain ⟨default, hinit⟩ := init_ofField hlookup hplan
  constructor
  · intro a bytes harg hmeaning
    refine denote_iff (fun literal => ?_) hmeaning
    have htext : a.text = spec.key := by
      have htaken := htaken.key
      rw [harg] at htaken
      exact Option.some.inj htaken
    rw [keyLiteral_iff hinit, hkey, htext]
  · intro a bytes harg hmeaning hlist
    refine denote_iff (fun literal => ?_) hmeaning
    have htext : spec.separator = a.text := by
      rw [htaken.separator, harg]
      rfl
    rw [separatorLiteral_iff hinit, hseparator, htext]
    exact and_iff_right hlist

/-- A list of texts whose key and separator are quoted with the given texts. -/
def sampleField (key separator : String) : WiredField where
  name := "Tags"
  type := ⟨"[]string", []⟩
  origin := .config ⟨key, none, true, separator⟩
  loc := ⟨"svc/a.go", 5, 5, ""⟩

def samplePlan (key separator : String) : FieldPlan where
  name := "Tags"
  init := .config key (TypeShape.classify [] ⟨"[]string", []⟩) none true separator

def sampleNames : CodeNames := ⟨⟨[]⟩, "runtime"⟩

def dottedBody : String := "Config(key=\"app.tags\", sep=\";\")"

/-- Without a backslash both literals stand for what was written. -/
theorem literals_denote_dotted :
    Directive.parse? dottedBody.toList
        = .ok (some (.config ⟨"app.tags", none, none, ";"⟩,
            .named [("key", ⟨.plain, "app.tags"⟩), ("sep", ⟨.plain, ";"⟩)]))
      ∧ Aggregate.originOf? "[]string" (.config ⟨"app.tags", none, none, ";"⟩)
        = some (.ok (sampleField "app.tags" ";").origin)
      ∧ ofField [] (sampleField "app.tags" ";") = .ok (samplePlan "app.tags" ";")
      ∧ (∀ literal, KeyLiteral sampleNames (samplePlan "app.tags" ";") literal →
        value? literal.toList = some (utf8 "app.tags".toList))
      ∧ ∀ literal, SeparatorLiteral sampleNames (samplePlan "app.tags" ";") literal →
        value? literal.toList = some [59] := by
  have hparse : Directive.parse? dottedBody.toList
      = .ok (some (.config ⟨"app.tags", none, none, ";"⟩,
          .named [("key", ⟨.plain, "app.tags"⟩), ("sep", ⟨.plain, ";"⟩)])) := by
    decide +kernel
  have horigin : Aggregate.originOf? "[]string" (.config ⟨"app.tags", none, none, ";"⟩)
      = some (.ok (sampleField "app.tags" ";").origin) := rfl
  have hplan : ofField [] (sampleField "app.tags" ";") = .ok (samplePlan "app.tags" ";") := rfl
  have hlist : (TypeShape.classify [] (sampleField "app.tags" ";").type).IsList :=
    ⟨_, _, TypeShape.classify_stringList [] rfl⟩
  obtain ⟨hkey, hseparator⟩ := literals_denote_iff hparse horigin hplan sampleNames
  have hkeyMeaning : (⟨.plain, "app.tags"⟩ : Argument).meaning?
      = some (utf8 "app.tags".toList) := by
    decide +kernel
  have hseparatorMeaning : (⟨.plain, ";"⟩ : Argument).meaning? = some [59] := by
    decide +kernel
  refine ⟨hparse, horigin, hplan, ?_, ?_⟩
  · exact (hkey _ _ rfl hkeyMeaning).2.mpr (by decide)
  · exact (hseparator _ _ rfl hseparatorMeaning hlist).2.mpr (by decide)

def tabBody : String := "Config(key=\"a\\tb\", sep=\"\\t\")"

/-- A tab that is written with a backslash comes back as the backslash and the letter. -/
theorem not_denote_of_tab :
    Directive.parse? tabBody.toList
        = .ok (some (.config ⟨"a\\tb", none, none, "\\t"⟩,
            .named [("key", ⟨.plain, "a\\tb"⟩), ("sep", ⟨.plain, "\\t"⟩)]))
      ∧ Aggregate.originOf? "[]string" (.config ⟨"a\\tb", none, none, "\\t"⟩)
        = some (.ok (sampleField "a\\tb" "\\t").origin)
      ∧ ofField [] (sampleField "a\\tb" "\\t") = .ok (samplePlan "a\\tb" "\\t")
      ∧ (⟨.plain, "a\\tb"⟩ : Argument).meaning? = some [97, 9, 98]
      ∧ (⟨.plain, "\\t"⟩ : Argument).meaning? = some [9]
      ∧ KeyLiteral sampleNames (samplePlan "a\\tb" "\\t") "\"a\\\\tb\""
      ∧ value? "\"a\\\\tb\"".toList = some [97, 92, 116, 98]
      ∧ SeparatorLiteral sampleNames (samplePlan "a\\tb" "\\t") "\"\\\\t\""
      ∧ value? "\"\\\\t\"".toList = some [92, 116] := by
  have hkey : "\"a\\\\tb\"" = quote "a\\tb" := by
    decide +kernel
  have hseparator : "\"\\\\t\"" = quote "\\t" := by
    decide +kernel
  have hlist : (TypeShape.classify [] ⟨"[]string", []⟩).IsList :=
    ⟨_, _, TypeShape.classify_stringList [] rfl⟩
  refine ⟨by decide +kernel, rfl, rfl, by decide +kernel, by decide +kernel, ?_,
    by decide +kernel, ?_, by decide +kernel⟩
  · exact (keyLiteral_iff rfl).mpr hkey
  · exact (separatorLiteral_iff rfl).mpr ⟨hlist, hseparator⟩

end FieldPlan

end ServiceWiring
