import ServiceWiring.Proofs.DirectiveText
import ServiceWiring.Proofs.Generation

/-!
# The texts of services

What generated code repeats of a service comes from the index of a source or from the default of
a directive, so it is on one line, and every import that it needs can stand on an import line.

* `TypeExpr.Unbroken`, `TypeExpr.unbroken_resolve` — types and the imports they name;
* `Service.Unbroken` — what generated code repeats of a service;
* `Aggregate.unbroken_ofFiles` — the services of a folder, from the steps of aggregation.
-/

namespace ServiceWiring

open Text

/-! ## Types -/

/-- A type on one line, with imports that can stand on an import line. -/
structure TypeExpr.Unbroken (type : TypeExpr) : Prop where
  text : Text.Unbroken type.text.toList
  imports : ∀ entry ∈ type.imports, entry.Plain

theorem TypeExpr.unbroken_resolve {text : String} (htext : Text.Unbroken text.toList)
    {index : DeclarationIndex} (hindex : index.Unbroken) : (resolve text index).Unbroken := by
  refine ⟨htext, ?_⟩
  have hfound : ∀ pair ∈ (resolve text index).qualifiers, pair.2.Plain := by
    refine @List.foldlRecOn _ _ (fun found => ∀ pair ∈ found, pair.2.Plain) _
      (addQualifier index) [] (fun pair hpair => nomatch hpair) ?_
    intro found ih qualifier _ pair hpair
    unfold addQualifier at hpair
    split at hpair
    · exact ih pair hpair
    · split at hpair
      · rename_i entry hentry
        rcases List.mem_append.mp hpair with hpair | hpair
        · exact ih pair hpair
        · obtain ⟨i, hi, rfl⟩ := Option.map_eq_some_iff.mp hentry
          rw [List.mem_singleton.mp hpair]
          exact hindex.imports i (List.mem_of_find?_eq_some hi)
      · exact ih pair hpair
  intro entry hentry
  obtain ⟨pair, hpair, rfl⟩ := List.mem_map.mp hentry
  exact hfound pair hpair

/-! ## Services -/

/-- The default of a value that is looked up. -/
def FieldOrigin.default? : FieldOrigin → Option Argument
  | .inject _ => none
  | .config lookup => lookup.default

structure WiredField.Unbroken (field : WiredField) : Prop where
  name : Text.Unbroken field.name.toList
  type : field.type.Unbroken
  default : ∀ value, field.origin.default? = some value → Text.Unbroken value.text.toList

structure Endpoint.Unbroken (e : Endpoint) : Prop where
  handler : Text.Unbroken e.handler.toList
  params : ∀ param ∈ e.params, param.type.Unbroken
  results : ∀ type ∈ e.results, type.Unbroken

/-- A service of which generated code repeats nothing but texts on one line. -/
structure Service.Unbroken (service : Service) : Prop where
  structName : Text.Unbroken service.structName.toList
  fields : ∀ field ∈ service.fields, field.Unbroken
  endpoints : ∀ e ∈ service.endpoints, e.Unbroken
  imports : ∀ entry ∈ service.imports, entry.Plain

/-- A contribution whose texts are on one line each. -/
structure Contribution.Unbroken (c : Contribution) : Prop where
  index : c.file.index.Unbroken
  annotations : ∀ a ∈ c.annotations, a.Unbroken

namespace Aggregate

variable {agg agg' : Aggregate} {file : SourceFile} {a : Annotation}

theorem default_of_originOf? {type : String} {d : Directive} {origin : FieldOrigin}
    (h : originOf? type d = some (.ok origin)) {value : Argument}
    (hvalue : origin.default? = some value) : d.default? = some value := by
  unfold originOf? at h
  split at h
  · rw [← Except.ok.inj (Option.some.inj h)] at hvalue
    cases hvalue
  · split at h
    · exact nomatch Option.some.inj h
    · rw [← Except.ok.inj (Option.some.inj h)] at hvalue
      exact hvalue
  · cases h

theorem unbroken_endpointParam {index : DeclarationIndex} (hindex : index.Unbroken)
    (position : Nat) {param : Param} (h : Text.Unbroken param.type.toList) :
    (endpointParam index position param).type.Unbroken := by
  unfold endpointParam
  dsimp only
  split
  · rename_i element helement
    refine TypeExpr.unbroken_resolve ?_ hindex
    rw [String.toList_ofList]
    exact h.of_subset (after?_subset helement)
  · exact TypeExpr.unbroken_resolve h hindex

theorem unbroken_endpointOf (hfile : file.index.Unbroken) {d : Declaration} (hd : d.Unbroken)
    (service : Service) (spec : RouteSpec) (loc : Location) :
    (endpointOf file service spec d loc).Unbroken := by
  refine ⟨hd.name, ?_, ?_⟩
  · intro param hparam
    obtain ⟨⟨declared, i⟩, hdeclared, rfl⟩ := List.mem_map.mp hparam
    refine unbroken_endpointParam hfile i (hd _ (List.mem_append_left _ ?_))
    exact List.mem_cons_of_mem _ (List.mem_map_of_mem (List.fst_mem_of_mem_zipIdx hdeclared))
  · intro type htype
    obtain ⟨text, htext, rfl⟩ := List.mem_map.mp htype
    exact TypeExpr.unbroken_resolve (hd text (List.mem_append_right _ htext)) hfile

theorem mem_addImports_iff {known more : List ImportEntry} {entry : ImportEntry} :
    entry ∈ addImports known more ↔ entry ∈ known ∨ entry ∈ more := by
  induction more generalizing known with
  | nil => simp [addImports]
  | cons first more ih =>
      -- an entry that is known already is there, and any other one is added
      have hentered : entry ∈ (if known.contains first then known else known ++ [first]) ↔
          entry ∈ known ∨ entry = first := by
        split
        · rename_i hknown
          refine ⟨Or.inl, ?_⟩
          rintro (h | rfl)
          · exact h
          · exact List.contains_iff_mem.mp hknown
        · rw [List.mem_append, List.mem_singleton]
      show entry ∈ addImports _ more ↔ _
      rw [ih, hentered, List.mem_cons, or_assoc]

theorem plain_of_mem_endpointImports {e : Endpoint} (h : e.Unbroken) {entry : ImportEntry}
    (hentry : entry ∈ endpointImports e) : entry.Plain := by
  obtain ⟨type, htype, hentry⟩ := List.mem_flatMap.mp hentry
  rcases List.mem_append.mp htype with htype | htype
  · obtain ⟨param, hparam, rfl⟩ := List.mem_map.mp htype
    exact (h.params param hparam).imports entry hentry
  · exact (h.results type htype).imports entry hentry

/-! ### Aggregation -/

/-- All services are on single lines. -/
def Unbroken (agg : Aggregate) : Prop :=
  ∀ s ∈ agg.met, s.Unbroken

theorem Unbroken.modify (h : agg.Unbroken) {f : Service → Service}
    (hf : ∀ s, s.Unbroken → (f s).Unbroken) (structName : String) :
    (agg.modify structName f).Unbroken := by
  intro s hs
  obtain ⟨s', hs', rfl⟩ := List.mem_map.mp hs
  split
  · exact hf s' (h s' hs')
  · exact h s' hs'

theorem Unbroken.memberStep (h : agg.Unbroken) (hfile : file.index.Unbroken) (ha : a.Unbroken)
    (hstep : MemberStep file a agg agg') : agg'.Unbroken := by
  cases hstep with
  | stay => exact h
  | conflict _ _ _ => exact h
  | warning _ _ => exact h
  | field hfield hname _ horigin =>
      have hf := hfile.fields _ hfield
      refine h.modify ?_ _
      intro s hs
      refine ⟨hs.structName, ?_, hs.endpoints, hs.imports⟩
      intro field hmem
      rcases List.mem_append.mp hmem with hmem | hmem
      · exact hs.fields field hmem
      · rw [List.mem_singleton.mp hmem]
        refine ⟨hf _ (List.mem_cons_of_mem _ hname), ?_, ?_⟩
        · exact TypeExpr.unbroken_resolve (hf _ (List.mem_cons_self ..)) hfile
        · intro value hvalue
          exact ha.default value (default_of_originOf? horigin hvalue)
  | endpoint spec hd _ _ =>
      have he := unbroken_endpointOf hfile (hfile.declarations _ hd)
      refine h.modify ?_ _
      intro s hs
      refine ⟨hs.structName, hs.fields, ?_, ?_⟩
      · intro e hmem
        rcases List.mem_append.mp hmem with hmem | hmem
        · exact hs.endpoints e hmem
        · rw [List.mem_singleton.mp hmem]
          exact he _ _ _
      · intro entry hmem
        rcases mem_addImports_iff.mp hmem with hmem | hmem
        · exact hs.imports entry hmem
        · exact plain_of_mem_endpointImports (he _ _ _) hmem

theorem Unbroken.markerStep (h : agg.Unbroken) (ha : a.Unbroken)
    (hstep : MarkerStep file a agg agg') : agg'.Unbroken := by
  cases hstep with
  | stay => exact h
  | repeated _ _ _ => exact h
  | @enter structName service htarget hservice _ =>
      have hnew : service.Unbroken := by
        have hname := ha.target structName htarget
        unfold serviceOf? at hservice
        split at hservice
        · rw [← Option.some.inj hservice]
          exact ⟨hname, fun _ h => (nomatch h), fun _ h => (nomatch h), fun _ h => (nomatch h)⟩
        · rw [← Option.some.inj hservice]
          exact ⟨hname, fun _ h => (nomatch h), fun _ h => (nomatch h), fun _ h => (nomatch h)⟩
        · cases hservice
      have hmet : ∀ s ∈ agg.met ++ [service], s.Unbroken := by
        intro s hs
        rcases List.mem_append.mp hs with hs | hs
        · exact h s hs
        · rw [List.mem_singleton.mp hs]
          exact hnew
      unfold enter
      dsimp only
      split
      · exact hmet
      · exact hmet

theorem unbroken_ofFiles {contributions : List Contribution}
    (h : ∀ c ∈ contributions, c.Unbroken) : (ofFiles contributions).Unbroken := by
  refine ofFiles_induction contributions (fun s hs => nomatch hs) ?_ ?_
  · intro agg c a hc ha hagg
    exact hagg.markerStep ((h c hc).annotations a ha) (markerStep_addMarker agg c.file a)
  · intro agg c a hc ha hagg
    exact hagg.memberStep (h c hc).index ((h c hc).annotations a ha)
      (memberStep_addMember agg c.file a)

end Aggregate

theorem SourceFindings.unbroken_contribution {path : Path} {content : String}
    {f : SourceFindings} (h : ofSource? (.parse path content) content = some f) :
    f.contribution.Unbroken := by
  have hindex := SourceFile.unbroken_parse path content
  have hannotations : ∀ a ∈ (Collected.ofFile (.parse path content)).annotations, a.Unbroken :=
    fun a => Collected.unbroken_of_mem_ofFile
  unfold ofSource? at h
  generalize SourceFile.parse path content = file at h hindex hannotations
  split at h
  · rw [← Option.some.inj h]
    exact ⟨hindex, fun a ha => hannotations a (Placement.mem_of_mem_validate ha)⟩
  · cases h

/-- The services of a folder are on single lines, whatever its sources hold. -/
theorem FolderState.unbroken_services (state : FolderState) :
    ∀ s ∈ state.aggregate.services, s.Unbroken := by
  have hagg : state.aggregate.Unbroken := by
    unfold aggregate
    split
    · refine Aggregate.unbroken_ofFiles ?_
      intro c hc
      obtain ⟨f, hf, rfl⟩ := List.mem_map.mp hc
      obtain ⟨input, -, hfindings⟩ := List.mem_filterMap.mp hf
      exact SourceFindings.unbroken_contribution hfindings
    · exact fun s hs => nomatch hs
  exact fun s hs => hagg s (Aggregate.mem_met_of_mem_services hs)

end ServiceWiring
