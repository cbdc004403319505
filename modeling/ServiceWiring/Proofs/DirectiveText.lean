import ServiceWiring.Annotation
import ServiceWiring.Proofs.DirectiveReading
import ServiceWiring.Proofs.SourceText

/-!
# The texts of directives

The values of a directive stand on its line, so none of them holds a line feed.  Generated code
quotes all of them afresh but one: the default of a configuration value is written as it is.

* `Arguments.value_subset`, `Arguments.subset_of_items` — the reader of arguments adds no
  characters;
* `Directive.default_of_parse?` — where the default of a directive comes from;
* `Annotation.Unbroken`, `Collected.unbroken_ofFile` — the annotations of a file.
-/

namespace ServiceWiring

open Text

namespace Arguments

variable {cs text rest : List Char}

/-! ## Reading arguments -/

theorem enclosed_subset {state : Within} {depth : Nat} {inner : List Char}
    (h : enclosed state depth cs = .ok inner) : inner ⊆ cs := by
  fun_induction enclosed state depth cs generalizing inner with
  | case1 depth => cases h
  | case2 state depth _ => cases h
  | case3 cs =>
      rw [← Except.ok.inj h]
      exact List.nil_subset _
  | case4 depth c cs _ deeper =>
      rename_i ih
      obtain ⟨more, hmore, rfl⟩ := map_eq_ok h
      exact List.cons_subset_cons c (ih hmore)
  | case5 state depth c cs _ _ ih =>
      obtain ⟨more, hmore, rfl⟩ := map_eq_ok h
      exact List.cons_subset_cons c (ih hmore)

theorem plainText?_subset (h : plainText? cs = some (text, rest)) : text ⊆ cs ∧ rest ⊆ cs := by
  fun_induction plainText? cs generalizing text with
  | case1 => cases h
  | case2 => cases h
  | case3 c cs ih =>
      obtain ⟨⟨text', rest'⟩, hmore, heq⟩ := Option.map_eq_some_iff.mp h
      obtain ⟨rfl, rfl⟩ := Prod.mk.inj heq
      obtain ⟨htext, hrest⟩ := ih hmore
      refine ⟨List.cons_subset_cons _ (List.cons_subset_cons c htext), ?_⟩
      exact List.subset_cons_of_subset _ (List.subset_cons_of_subset c hrest)
  | case4 cs =>
      obtain ⟨rfl, rfl⟩ := Prod.mk.inj (Option.some.inj h)
      exact ⟨List.nil_subset _, List.subset_cons_self _ _⟩
  | case5 c cs _ _ _ ih =>
      obtain ⟨⟨text', rest'⟩, hmore, heq⟩ := Option.map_eq_some_iff.mp h
      obtain ⟨rfl, rfl⟩ := Prod.mk.inj heq
      obtain ⟨htext, hrest⟩ := ih hmore
      exact ⟨List.cons_subset_cons c htext, List.subset_cons_of_subset c hrest⟩

theorem rawText?_subset (h : rawText? cs = some (text, rest)) : text ⊆ cs ∧ rest ⊆ cs := by
  fun_induction rawText? cs generalizing text with
  | case1 => cases h
  | case2 cs =>
      obtain ⟨rfl, rfl⟩ := Prod.mk.inj (Option.some.inj h)
      exact ⟨List.nil_subset _, List.subset_cons_self _ _⟩
  | case3 c cs _ ih =>
      obtain ⟨⟨text', rest'⟩, hmore, heq⟩ := Option.map_eq_some_iff.mp h
      obtain ⟨rfl, rfl⟩ := Prod.mk.inj heq
      obtain ⟨htext, hrest⟩ := ih hmore
      exact ⟨List.cons_subset_cons c htext, List.subset_cons_of_subset c hrest⟩

/-- The text of a value stands in the text that it is read from. -/
theorem value_subset {a : Argument} (h : value cs = .ok (a, rest)) :
    a.text.toList ⊆ cs ∧ rest ⊆ cs := by
  unfold value at h
  split at h
  · split at h
    · rename_i text rest' htext
      obtain ⟨rfl, rfl⟩ := Prod.mk.inj (Except.ok.inj h)
      obtain ⟨htext, hrest⟩ := plainText?_subset htext
      rw [String.toList_ofList]
      exact ⟨List.subset_cons_of_subset _ htext, List.subset_cons_of_subset _ hrest⟩
    · cases h
  · split at h
    · rename_i text rest' htext
      obtain ⟨rfl, rfl⟩ := Prod.mk.inj (Except.ok.inj h)
      obtain ⟨htext, hrest⟩ := rawText?_subset htext
      rw [String.toList_ofList]
      exact ⟨List.subset_cons_of_subset _ htext, List.subset_cons_of_subset _ hrest⟩
    · cases h
  · unfold bareValue at h
    dsimp only at h
    split at h
    · cases h
    · split at h
      · cases h
      · obtain ⟨rfl, rfl⟩ := Prod.mk.inj (Except.ok.inj h)
        rw [String.toList_ofList]
        exact ⟨List.Subset.trans (trim_subset _) (List.takeWhile_sublist _).subset,
          (List.dropWhile_sublist _).subset⟩

theorem key?_subset {name : List Char} (h : key? cs = some (name, rest)) : rest ⊆ cs := by
  unfold key? at h
  dsimp only at h
  split at h
  · cases h
  · split at h
    · rename_i behind hbehind
      rw [← (Prod.mk.inj (Option.some.inj h)).2]
      have hsub := trimStart_subset (cs.dropWhile isNameChar)
      rw [hbehind] at hsub
      exact List.Subset.trans (List.subset_cons_self _ _)
        (List.Subset.trans hsub (List.dropWhile_sublist _).subset)
    · cases h

theorem item_subset {i : Option String × Argument} (h : item cs = .ok (i, rest)) :
    i.2.text.toList ⊆ cs ∧ rest ⊆ cs := by
  have hvalue : ∀ {start : List Char} {key : Option String}, start ⊆ cs →
      (value (trimStart start)).map (fun (v, rest) => ((key, v), rest)) = .ok (i, rest) →
      i.2.text.toList ⊆ cs ∧ rest ⊆ cs := by
    intro start key hstart h
    obtain ⟨⟨a, behind⟩, ha, heq⟩ := map_eq_ok h
    obtain ⟨rfl, rfl⟩ := Prod.mk.inj heq
    obtain ⟨htext, hrest⟩ := value_subset ha
    have hsub := List.Subset.trans (trimStart_subset start) hstart
    exact ⟨List.Subset.trans htext hsub, List.Subset.trans hrest hsub⟩
  unfold item at h
  cases hkey : key? cs with
  | none =>
      rw [hkey] at h
      exact hvalue (List.Subset.refl _) h
  | some found =>
      obtain ⟨name, behind⟩ := found
      rw [hkey] at h
      exact hvalue (key?_subset hkey) h

theorem subset_of_items {found : List (Option String × Argument)} (h : items cs = .ok found) :
    ∀ i ∈ found, i.2.text.toList ⊆ cs := by
  fun_induction items cs generalizing found with
  | case1 cs ht =>
      rw [← Except.ok.inj h]
      exact fun i hi => nomatch hi
  | case2 cs d ds ht e hi => cases h
  | case3 cs d ds ht first rest hi hr =>
      rw [← Except.ok.inj h]
      intro i hmem
      rw [List.mem_singleton.mp hmem]
      have hsub := trimStart_subset cs
      rw [ht] at hsub
      exact List.Subset.trans (item_subset hi).1 hsub
  | case4 cs d ds ht first rest hi more hr _ ih =>
      obtain ⟨others, hothers, rfl⟩ := map_eq_ok h
      have hsub := trimStart_subset cs
      rw [ht] at hsub
      have hmore := trimStart_subset rest
      rw [hr] at hmore
      intro i hmem
      rcases List.mem_cons.mp hmem with rfl | hmem
      · exact List.Subset.trans (item_subset hi).1 hsub
      · exact List.Subset.trans (ih hothers i hmem) (List.Subset.trans (List.subset_cons_self _ _)
          (List.Subset.trans hmore (List.Subset.trans (item_subset hi).2 hsub)))
  | case5 cs d ds ht first rest hi c more hr _ _ => cases h

theorem mem_of_get?_ofItems {found : List (Option String × Argument)} {args : Arguments}
    (h : ofItems found = .ok args) {key : String} {a : Argument} (ha : args.get? key = some a) :
    ∃ i ∈ found, i.2 = a := by
  unfold ofItems at h
  dsimp only at h
  split at h
  · rw [← Except.ok.inj h] at ha
    cases ha
  · split at h
    · rw [← Except.ok.inj h] at ha
      cases ha
    · split at h
      · split at h
        · cases h
        · rw [← Except.ok.inj h] at ha
          obtain ⟨pair, hpair, rfl⟩ := Option.map_eq_some_iff.mp ha
          obtain ⟨i, hi, hkey⟩ := List.mem_filterMap.mp (List.mem_of_find?_eq_some hpair)
          obtain ⟨name, -, rfl⟩ := Option.map_eq_some_iff.mp hkey
          exact ⟨i, hi, rfl⟩
      · cases h

/-- The values of an argument list stand in its text. -/
theorem subset_of_get? {args : Arguments} (h : parse cs = .ok args) {key : String} {a : Argument}
    (ha : args.get? key = some a) : a.text.toList ⊆ cs := by
  unfold parse at h
  split at h
  · obtain ⟨inner, hinner, h⟩ := bind_eq_ok h
    obtain ⟨found, hfound, h⟩ := bind_eq_ok h
    obtain ⟨i, hi, rfl⟩ := mem_of_get?_ofItems h ha
    exact List.Subset.trans (subset_of_items hfound i hi)
      (List.Subset.trans (enclosed_subset hinner) (List.subset_cons_self _ _))
  · rw [← Except.ok.inj h] at ha
    cases ha

end Arguments

/-! ## Defaults -/

namespace Directive

/-- The default that a directive gives. -/
def default? : Directive → Option Argument
  | .config spec => spec.default
  | _ => none

theorem default_of_configSpec {args : Arguments} {spec : ConfigSpec}
    (h : configSpec args = .ok spec) : spec.default = none ∨ spec.default = args.get? "default" := by
  cases args with
  | none => cases h
  | positional values =>
      obtain ⟨key, -, h⟩ := bind_eq_ok h
      rw [← Except.ok.inj h]
      exact Or.inl rfl
  | named pairs =>
      unfold configSpec at h
      dsimp only at h
      split at h
      · cases h
      · obtain ⟨required, -, h⟩ := bind_eq_ok h
        split at h
        · cases h
        · rw [← Except.ok.inj h]
          exact Or.inr rfl

theorem MadeFrom.default_eq {kind : DirectiveKind} {args : Arguments} {d : Directive}
    (h : MadeFrom args kind d) {a : Argument} (ha : d.default? = some a) :
    args.get? "default" = some a := by
  cases h with
  | service _ _ _ => cases ha
  | router _ _ _ _ => cases ha
  | inject _ _ => cases ha
  | config _ hspec _ =>
      change ConfigSpec.default _ = some a at ha
      rcases default_of_configSpec hspec with hnone | hdefault
      · rw [hnone] at ha
        cases ha
      · rw [← hdefault]
        exact ha
  | route _ _ _ => cases ha

/-- The default of a directive stands on its line. -/
theorem default_of_parse? {body : List Char} {d : Directive} {args : Arguments}
    (h : parse? body = .ok (some (d, args))) {a : Argument} (ha : d.default? = some a) :
    a.text.toList ⊆ body := by
  obtain ⟨-, hread, -⟩ := parse?_eq_some_iff.mp h
  exact List.Subset.trans
    (Arguments.subset_of_get? hread ((madeFrom_of_parse? h).default_eq ha))
    (List.dropWhile_sublist _).subset

end Directive

/-! ## Annotations -/

/-- An annotation whose target and default are on one line. -/
structure Annotation.Unbroken (a : Annotation) : Prop where
  target : ∀ name, a.target = some name → Text.Unbroken name.toList
  default : ∀ value, a.directive.default? = some value → Text.Unbroken value.text.toList

theorem Declaration.Unbroken.name {d : Declaration} (h : d.Unbroken) :
    Text.Unbroken d.name.toList :=
  h d.name (List.mem_append_left _ (List.mem_cons_self ..))

namespace DeclarationIndex.Unbroken

variable {index : DeclarationIndex}

theorem declarationAt? (h : index.Unbroken) {line : Nat} {d : Declaration}
    (hd : index.declarationAt? line = some d) : d.Unbroken :=
  h.declarations d (List.mem_of_find?_eq_some hd)

theorem fieldAt? (h : index.Unbroken) {line : Nat} {f : StructField}
    (hf : index.fieldAt? line = some f) : f.Unbroken :=
  h.fields f (List.mem_of_find?_eq_some hf)

theorem targetName? {file : SourceFile} (h : file.index.Unbroken) {line : Nat} {name : String}
    (hname : Collected.targetName? file line = some name) : Text.Unbroken name.toList := by
  unfold Collected.targetName? targetAt at hname
  cases hd : file.index.declarationAt? line with
  | some d =>
      rw [hd] at hname
      rw [← Option.some.inj hname]
      exact (h.declarationAt? hd).name
  | none =>
      rw [hd] at hname
      cases hf : file.index.fieldAt? line with
      | none =>
          rw [hf] at hname
          cases hname
      | some f =>
          rw [hf] at hname
          exact h.fieldAt? hf name (List.mem_cons_of_mem _ (List.mem_of_head? hname))

end DeclarationIndex.Unbroken

theorem LineClass.subset_of_directive {line body : List Char} (h : ofLine line = .directive body) :
    body ⊆ line := by
  have hsub := trimStart_subset line
  unfold ofLine at h
  split at h
  · rename_i content hcontent
    rw [hcontent] at hsub
    have hcontent : content ⊆ line :=
      List.Subset.trans (List.subset_cons_self _ _)
        (List.Subset.trans (List.subset_cons_self _ _) hsub)
    split at h
    · cases h
    · cases h
    · rw [← LineClass.directive.inj h]
      exact List.Subset.trans (List.subset_cons_self _ _)
        (List.Subset.trans (List.subset_cons_self _ _) hcontent)
    · rw [← LineClass.directive.inj h]
      exact List.Subset.trans (List.subset_cons_self _ _) hcontent
    · cases h
  · cases h

namespace Collected

theorem unbroken_of_mem_ofLine {file : SourceFile} (hfile : file.index.Unbroken) {line : Nat}
    {text : String} (htext : Text.Unbroken text.toList) {a : Annotation}
    (h : a ∈ (ofLine file line text).annotations) : a.Unbroken := by
  unfold ofLine at h
  split at h
  · rename_i body hbody
    split at h
    · cases h
    · rename_i d args hparse
      rw [List.mem_singleton.mp h]
      refine ⟨?_, ?_⟩
      · intro name hname
        obtain ⟨target, -, hname⟩ := Option.bind_eq_some_iff.mp hname
        exact hfile.targetName? hname
      · intro value hvalue
        exact htext.of_subset (List.Subset.trans (Directive.default_of_parse? hparse hvalue)
          (LineClass.subset_of_directive hbody))
    · cases h
  · cases h

/-- The annotations of a file are on one line each. -/
theorem unbroken_of_mem_ofFile {path : Path} {content : String} {a : Annotation}
    (h : a ∈ (ofFile (.parse path content)).annotations) : a.Unbroken := by
  obtain ⟨found, hfound, ha⟩ := List.mem_flatMap.mp h
  obtain ⟨⟨text, i⟩, hline, rfl⟩ := List.mem_map.mp hfound
  refine unbroken_of_mem_ofLine (SourceFile.unbroken_parse path content) ?_ ha
  obtain ⟨line, hmem, rfl⟩ := List.mem_map.mp (List.fst_mem_of_mem_zipIdx hline)
  rw [String.toList_ofList]
  exact unbroken_of_mem_lines hmem

end Collected

theorem Placement.mem_of_mem_validate {file : SourceFile} {annotations : List Annotation}
    {a : Annotation} (h : a ∈ (validate file annotations).annotations) : a ∈ annotations := by
  unfold validate at h
  dsimp only at h
  split at h
  · exact (List.mem_filter.mp h).1
  · cases h

end ServiceWiring
