import ServiceWiring.Proofs.PreservedBlock
import ServiceWiring.Proofs.ServiceText

/-!
# The texts of planned services

Planning a service turns its fields into the texts that its code is written from: rendered types,
default values and the names of imports.  All of them are on one line.

* `TypeText.flatMap_text_segments` — the segments of a type make up its text;
* `ImportEntry.Unmarked`, `ResolvedImports.unmarked_of_mem_renameFrom` — imports whose lines start
  no preserved block;
* `ResolvedImports.Unmarked.renderType` — types under resolved imports;
* `Duration.unit_of_parse`, `DefaultValue.unbroken_ofShape` — default values;
* `ServicePlan.Unbroken`, `Emission.unbroken_of_mem_planAll` — the plans of all services.
-/

namespace ServiceWiring

open Text

/-! ## Types under resolved imports -/

namespace TypeText

theorem qualified?_eq_append {cs qualifier member rest : List Char}
    (h : qualified? cs = some ((qualifier, member), rest)) :
    cs = qualifier ++ '.' :: member ++ rest := by
  unfold qualified? at h
  split at h
  · rename_i found behind hfound
    split at h
    · rename_i name rest' hname
      obtain ⟨hpair, rfl⟩ := Prod.mk.inj (Option.some.inj h)
      obtain ⟨rfl, rfl⟩ := Prod.mk.inj hpair
      rw [asciiName?_eq_append hfound, asciiName?_eq_append hname, List.append_assoc,
        List.cons_append]
    · cases h
  · cases h

/-- The segments of a text make up the text. -/
theorem flatMap_text_segmentsFrom (inWord : Bool) (cs : List Char) :
    (segmentsFrom inWord cs).flatMap Segment.text = cs := by
  fun_induction segmentsFrom inWord cs with
  | case1 => rfl
  | case2 inWord c rest qualifier member after h _ ih =>
      rw [List.flatMap_cons, ih]
      split at h
      · cases h
      · exact (qualified?_eq_append h).symm
  | case3 inWord c rest h ih =>
      rw [List.flatMap_cons, ih]
      rfl

theorem text_subset_of_mem_segments {cs : List Char} {segment : Segment}
    (h : segment ∈ segments cs) : segment.text ⊆ cs := by
  intro c hc
  rw [← flatMap_text_segmentsFrom false cs]
  exact List.mem_flatMap.mpr ⟨segment, h, hc⟩

end TypeText

/-- An import that is on one line, and whose name does not start a preserved block. -/
structure ImportEntry.Unmarked (entry : ImportEntry) : Prop where
  path : Unbroken entry.path.toList
  name : Unbroken entry.name.toList
  unmarked : PreservedBlock.markedName? PreservedBlock.beginMarker entry.name = none

theorem ImportEntry.Plain.unmarked {entry : ImportEntry} (h : entry.Plain) : entry.Unmarked :=
  ⟨h.path, h.name,
    PreservedBlock.markedName?_of_not_mem PreservedBlock.isMarker_begin (by decide) h.slash⟩

namespace ResolvedImports

/-- Imports that can all stand on import lines. -/
def Unmarked (imports : ResolvedImports) : Prop :=
  ∀ entry ∈ imports.entries, entry.Unmarked

variable {imports : ResolvedImports}

theorem Unmarked.nameOf? (h : imports.Unmarked) {path name : String}
    (hname : imports.nameOf? path = some name) : Unbroken name.toList := by
  obtain ⟨entry, hentry, rfl⟩ := Option.map_eq_some_iff.mp hname
  exact (h entry (List.mem_of_find?_eq_some hentry)).name

theorem Unmarked.nameOfStandard (h : imports.Unmarked) {path : String}
    (hpath : Unbroken path.toList) : Unbroken (imports.nameOfStandard path).toList := by
  unfold ResolvedImports.nameOfStandard
  cases hname : imports.nameOf? path with
  | none => exact hpath
  | some name => exact h.nameOf? hname

theorem Unmarked.renderType (h : imports.Unmarked) {type : TypeExpr} (htype : type.Unbroken) :
    Unbroken (imports.renderType type).toList := by
  unfold ResolvedImports.renderType TypeExpr.renderWith
  dsimp only
  rw [String.toList_ofList]
  intro hmem
  obtain ⟨segment, hsegment, hmem⟩ := List.mem_flatMap.mp hmem
  have hsub := htype.text.of_subset (TypeText.text_subset_of_mem_segments hsegment)
  cases segment with
  | char c => exact hsub hmem
  | qualified qualifier member =>
      rcases List.mem_append.mp hmem with hmem | hmem
      · -- the qualifier stands as it is, or it is the name of an import
        split at hmem
        · rename_i entry _
          cases hname : imports.nameOf? entry.path with
          | none =>
              rw [hname, Option.getD_none, String.toList_ofList] at hmem
              exact hsub (List.mem_append_left _ hmem)
          | some name =>
              rw [hname] at hmem
              exact h.nameOf? hname hmem
        · rw [String.toList_ofList] at hmem
          exact hsub (List.mem_append_left _ hmem)
      · exact hsub (List.mem_append_right _ hmem)

theorem mem_mergeInto {merged : List ImportEntry} {entry e : ImportEntry}
    (h : e ∈ mergeInto merged entry) : e ∈ merged ∨ e = entry := by
  unfold mergeInto at h
  split at h
  · obtain ⟨m, hm, rfl⟩ := List.mem_map.mp h
    split
    · exact Or.inr rfl
    · exact Or.inl hm
  · rcases List.mem_append.mp h with h | h
    · exact Or.inl h
    · exact Or.inr (List.mem_singleton.mp h)

theorem mem_of_mem_merge {entries : List ImportEntry} {e : ImportEntry} (h : e ∈ merge entries) :
    e ∈ entries := by
  refine @List.foldlRecOn _ _ (fun merged => e ∈ merged → e ∈ entries) entries mergeInto []
    (fun h => nomatch h) ?_ h
  intro merged ih entry hentry hmem
  rcases mem_mergeInto hmem with hmem | rfl
  · exact ih hmem
  · exact hentry

theorem finalName_cases (taken : List String) (name : String) :
    finalName taken name = name ∨ ∃ n, finalName taken name = numbered name n := by
  unfold finalName
  split
  · unfold freshName
    dsimp only
    cases hfound : (((List.range (taken.length + 1)).map fun i => numbered name (i + 1)).find?
        fun name => !taken.contains name) with
    | none => exact Or.inl rfl
    | some found =>
        obtain ⟨i, -, rfl⟩ := List.mem_map.mp (List.mem_of_find?_eq_some hfound)
        exact Or.inr ⟨i + 1, rfl⟩
  · exact Or.inl rfl

/-- No part of the marker starts with what numbers a name. -/
theorem unmarked_renamed {entry : ImportEntry} (h : entry.Unmarked) (taken : List String) :
    ImportEntry.Unmarked { entry with name := finalName taken entry.name } := by
  rcases finalName_cases taken entry.name with hname | ⟨n, hname⟩
  · rw [hname]
    exact h
  · have hnumbered : numbered entry.name n = entry.name ++ ("_" ++ toString n) :=
      String.append_assoc
    have hdigits : '/' ∉ ("_" ++ toString n).toList := by
      rw [String.toList_append, List.mem_append]
      exact not_or.mpr ⟨by decide, not_mem_toString rfl n⟩
    rw [hname]
    refine ⟨h.path, ?_, ?_⟩
    · show Unbroken (entry.name ++ "_" ++ toString n).toList
      simp +decide only [unbroken_append, unbroken_toString, h.name, and_self]
    · rw [hnumbered]
      exact PreservedBlock.markedName?_append PreservedBlock.isMarker_begin h.unmarked
        (PreservedBlock.markedName?_of_not_mem PreservedBlock.isMarker_begin (by decide) hdigits)
        (by decide)

/-- Renaming keeps imports fit for import lines. -/
theorem unmarked_of_mem_renameFrom {taken : List String} {entries : List ImportEntry}
    (h : ∀ entry ∈ entries, entry.Unmarked) {e : ImportEntry} (he : e ∈ renameFrom taken entries) :
    e.Unmarked := by
  induction entries generalizing taken with
  | nil => cases he
  | cons entry entries ih =>
      rcases List.mem_cons.mp he with rfl | he
      · exact unmarked_renamed (h entry (List.mem_cons_self ..)) taken
      · exact ih (fun other hother => h other (List.mem_cons_of_mem _ hother)) he

end ResolvedImports

/-! ## Default values -/

theorem Argument.unbroken_literal {a : Argument} (h : Unbroken a.text.toList) :
    Unbroken a.literal.toList := by
  unfold literal written
  cases a.quoting with
  | plain => simp +decide only [unbroken_append, h, and_self]
  | raw => simp +decide only [unbroken_append, h, and_self]
  | bare => exact unbroken_quote a.text

namespace Duration

/-- A term is a multiple of one of the units. -/
theorem unit_of_scale {units : List TimeUnit} {amount : Nat} {fraction : List Char}
    {term : DurationTerm} (h : scale units amount fraction = some term) : term.unit ∈ units := by
  induction units generalizing amount fraction with
  | nil => cases h
  | cons unit smaller ih =>
      unfold scale at h
      split at h
      · rw [← Option.some.inj h]
        exact List.mem_cons_self ..
      · split at h
        · cases h
        · obtain ⟨next, -, h⟩ := Option.bind_eq_some_iff.mp h
          exact List.mem_cons_of_mem _ (ih h)

theorem unit_of_term? {number unit : List Char} {term : DurationTerm}
    (h : term? number unit = some term) : term.unit ∈ TimeUnit.all := by
  unfold term? at h
  dsimp only at h
  split at h
  · cases h
  · split at h
    · exact (List.dropWhile_sublist _).subset (unit_of_scale h)
    · obtain ⟨amount, -, h⟩ := Option.bind_eq_some_iff.mp h
      exact (List.dropWhile_sublist _).subset (unit_of_scale h)

theorem unit_of_terms? {cs : List Char} {terms : List DurationTerm} (h : terms? cs = some terms) :
    ∀ term ∈ terms, term.unit ∈ TimeUnit.all := by
  fun_induction terms? cs generalizing terms with
  | case1 cs _ =>
      rw [← Option.some.inj h]
      exact fun term hterm => nomatch hterm
  | case2 cs _ _ => cases h
  | case3 cs _ c rest hrest _ ih =>
      obtain ⟨first, hfirst, h⟩ := Option.bind_eq_some_iff.mp h
      obtain ⟨more, hmore, h⟩ := Option.bind_eq_some_iff.mp h
      rw [← Option.some.inj h]
      intro term hterm
      rcases List.mem_cons.mp hterm with rfl | hterm
      · exact unit_of_term? hfirst
      · exact ih hmore term hterm

theorem unit_of_parse {text : String} {d : Duration} (h : parse text = .ok d) :
    ∀ term ∈ d.terms, term.unit ∈ TimeUnit.all := by
  unfold parse at h
  dsimp only at h
  split at h
  · rw [← Except.ok.inj h]
    exact fun term hterm => nomatch hterm
  · split at h
    · cases h
    · split at h
      · cases h
      · rename_i all hall
        split at h
        · cases h
        · rw [← Except.ok.inj h]
          intro term hterm
          exact unit_of_terms? hall term (List.mem_filter.mp hterm).1

theorem unbroken_expression {d : Duration} (h : ∀ term ∈ d.terms, term.unit ∈ TimeUnit.all)
    {timeName : String} (htime : Unbroken timeName.toList) :
    Unbroken (d.expression timeName).toList := by
  have hconstant : ∀ term ∈ d.terms, Unbroken term.unit.constant.toList := by
    have hall : ∀ unit ∈ TimeUnit.all, Unbroken unit.constant.toList := by decide
    exact fun term hterm => hall _ (h term hterm)
  unfold expression
  split
  · decide
  · rename_i term hterms
    have hterm := hconstant term (hterms ▸ List.mem_singleton_self term)
    split
    · simp +decide only [toString_string, unbroken_append, unbroken_toString, htime, hterm, and_self]
    · simp +decide only [toString_string, unbroken_append, unbroken_toString, htime, hterm, and_self]
  · have hsum : Unbroken (String.intercalate " + " (d.terms.map fun term =>
        s!"{term.amount}*{timeName}.{term.unit.constant}")).toList := by
      refine unbroken_intercalate (by decide) ?_
      intro part hpart
      obtain ⟨term, hterm, rfl⟩ := List.mem_map.mp hpart
      simp +decide only [toString_string, unbroken_append, unbroken_toString, htime,
        hconstant term hterm, and_self]
    dsimp only
    split
    · simp +decide only [unbroken_append, hsum, and_self]
    · exact hsum

end Duration

/-- A type shape of which generated code repeats nothing but texts on one line. -/
def TypeShape.Unbroken : TypeShape → Prop
  | .list _ element => element.Unbroken
  | .structured base _ _ => Text.Unbroken base.toList
  | _ => True

theorem TypeShape.unbroken_classify (hooks : List String) {type : TypeExpr} (h : type.Unbroken) :
    (classify hooks type).Unbroken := by
  have htext := h.text.trim
  have hstructured : (structuredOf hooks (trim type.text.toList)).Unbroken := by
    show Text.Unbroken (String.ofList _).toList
    rw [String.toList_ofList]
    exact htext.of_subset (trimStartWhere_subset _ _)
  unfold classify
  dsimp only
  split
  · trivial
  · split
    · trivial
    · split
      · rename_i rest hrest
        split
        · rw [hrest] at htext
          refine ⟨?_, h.imports⟩
          rw [String.toList_ofList]
          exact htext.tail.tail
        · exact hstructured
      · exact hstructured

namespace DefaultValue

/-- A default that is written on one line. -/
def Unbroken (d : DefaultValue) : Prop :=
  ∀ imports : ResolvedImports, imports.Unmarked → Text.Unbroken (d.render imports).toList

theorem unbroken_expression {text : String} (h : Text.Unbroken text.toList) :
    (expression text).Unbroken := by
  intro imports _
  rw [render]
  exact h

theorem unbroken_ofScalar {kind : ScalarKind} {value : Argument}
    (hvalue : Text.Unbroken value.text.toList) {d : DefaultValue}
    (h : ofScalar kind value = .ok d) : d.Unbroken := by
  -- numbers and Booleans are all written as they are, without a plus sign
  have hplain : ∀ {kind : ScalarKind} {d : DefaultValue},
      (if isLiteralOf (trim value.text.toList) kind then
        Except.ok (expression (String.ofList
          (trimStartWhere (· == '+') (trim value.text.toList))))
      else .error (DefaultError.invalid (String.ofList (trim value.text.toList)) kind)) = .ok d →
      d.Unbroken := by
    intro kind d h
    split at h
    · rw [← Except.ok.inj h]
      refine unbroken_expression ?_
      rw [String.toList_ofList]
      exact hvalue.of_subset (List.Subset.trans (trimStartWhere_subset _ _) (trim_subset _))
    · cases h
  cases kind with
  | string =>
      rw [← Except.ok.inj h]
      exact unbroken_expression (Argument.unbroken_literal hvalue)
  | duration =>
      unfold ofScalar at h
      dsimp only at h
      split at h
      · rename_i duration hduration
        rw [← Except.ok.inj h]
        intro imports himports
        rw [render]
        exact Duration.unbroken_expression (Duration.unit_of_parse hduration)
          (himports.nameOfStandard (by decide))
      · cases h
  | int bits => exact hplain h
  | uint bits => exact hplain h
  | float bits => exact hplain h
  | bool => exact hplain h

theorem unbroken_list {element : TypeExpr} (helement : element.Unbroken)
    {items : List DefaultValue} (hitems : ∀ item ∈ items, item.Unbroken) :
    (list element items).Unbroken := by
  intro imports himports
  have hjoined : Text.Unbroken (String.intercalate ", "
      (items.map fun item => item.render imports)).toList := by
    refine unbroken_intercalate (by decide) ?_
    intro part hpart
    obtain ⟨item, hitem, rfl⟩ := List.mem_map.mp hpart
    exact hitems item hitem imports himports
  rw [render]
  simp +decide only [unbroken_append, himports.renderType helement, hjoined, and_self]

/-- A default that fits its field is written on one line. -/
theorem unbroken_ofShape {shape : TypeShape} (hshape : shape.Unbroken) {separator : String}
    {value : Argument} (hvalue : Text.Unbroken value.text.toList) {d : DefaultValue}
    (h : ofShape shape separator value = .ok d) : d.Unbroken := by
  have hliteral := Argument.unbroken_literal hvalue
  cases shape with
  | scalar kind => exact unbroken_ofScalar hvalue h
  | list kind element =>
      -- an item is fitted to a trimmed part of the text
      obtain ⟨items, hitems, rfl⟩ := map_eq_ok h
      refine unbroken_list hshape ?_
      intro item hitem
      obtain ⟨part, hpart, hscalar⟩ := exists_of_mem_mapM hitems item hitem
      obtain ⟨text, htext, rfl⟩ := List.mem_map.mp hpart
      obtain ⟨piece, hpiece, rfl⟩ := List.mem_map.mp (List.mem_filter.mp htext).1
      refine unbroken_ofScalar ?_ hscalar
      show Text.Unbroken (String.ofList (trim piece)).toList
      rw [String.toList_ofList]
      exact hvalue.of_subset (List.Subset.trans (trim_subset piece) (subset_of_mem_splitOn hpiece))
  | bytes =>
      rw [← Except.ok.inj h]
      refine unbroken_expression ?_
      simp +decide only [toString_string, unbroken_append, hliteral, and_self]
  | structured base hook pointer =>
      cases hook with
      | true =>
          rw [← Except.ok.inj h]
          exact unbroken_expression hliteral
      | false => cases h

end DefaultValue

/-! ## Plans -/

/-- A field whose code repeats nothing but texts on one line. -/
structure FieldPlan.Unbroken (plan : FieldPlan) : Prop where
  name : Text.Unbroken plan.name.toList
  init : match plan.init with
    | .inject _ => True
    | .config _ shape default _ _ => shape.Unbroken ∧ ∀ d, default = some d → d.Unbroken

theorem FieldPlan.unbroken_ofField {hooks : List String} {field : WiredField}
    (hfield : field.Unbroken) {plan : FieldPlan} (h : ofField hooks field = .ok plan) :
    plan.Unbroken := by
  unfold ofField at h
  split at h
  · rw [← Except.ok.inj h]
    exact ⟨hfield.name, trivial⟩
  · rename_i lookup hlookup
    obtain ⟨default, hdefault, rfl⟩ := map_eq_ok h
    have hshape := TypeShape.unbroken_classify hooks hfield.type
    refine ⟨hfield.name, hshape, ?_⟩
    rintro d rfl
    unfold defaultOf at hdefault
    split at hdefault
    · exact nomatch Except.ok.inj hdefault
    · rename_i value hvalue
      split at hdefault
      · rename_i fitting hfitting
        rw [← Option.some.inj (Except.ok.inj hdefault)]
        refine DefaultValue.unbroken_ofShape hshape (hfield.default value ?_) hfitting
        rw [hlookup]
        exact hvalue
      · cases hdefault

/-- A planned service whose code repeats nothing but texts on one line. -/
structure ServicePlan.Unbroken (plan : ServicePlan) : Prop where
  service : plan.service.Unbroken
  fields : ∀ field ∈ plan.fields, field.Unbroken

theorem ServicePlan.unbroken_ofService {hooks : List String} {service : Service}
    (hservice : service.Unbroken) {plan : ServicePlan} (h : ofService hooks service = .ok plan) :
    plan.Unbroken := by
  obtain ⟨fields, hfields, rfl⟩ := map_eq_ok h
  refine ⟨hservice, ?_⟩
  intro field hfield
  obtain ⟨wired, hwired, hplan⟩ := exists_of_mem_mapM hfields field hfield
  exact FieldPlan.unbroken_ofField (hservice.fields wired hwired) hplan

theorem Emission.unbroken_of_mem_planAll {hooks : List String} {services : List Service}
    (h : ∀ s ∈ services, s.Unbroken) {plan : ServicePlan}
    (hplan : plan ∈ (planAll hooks services).1) : plan.Unbroken := by
  obtain ⟨s, hs, hplan⟩ := exists_of_mem_planAll hplan
  exact ServicePlan.unbroken_ofService (h s hs) hplan

end ServiceWiring
