import ServiceWiring.Proofs.SourceCode
import ServiceWiring.Source.File

/-!
# The texts of a source

Whatever is read from a source comes from its lines, and lines hold no line feeds.  So no name,
type or import of a declaration holds one either.

* `Declaration.texts`, `StructField.texts` — the texts that a declaration or a field carries into
  generated code;
* `parseFunction?_subset`, `parseField?_subset` — the readers add no characters;
* `ImportEntry.Plain` — imports that can stand on an import line;
* `DeclarationIndex.Unbroken`, `SourceFile.unbroken_parse` — the index of a file as a whole.
-/

namespace ServiceWiring

open Text

variable {cs inner rest : List Char} {line : Nat}

/-! ## Brackets and parameters -/

theorem closeBracket_subset {opening closing : Char} {depth : Nat}
    (h : closeBracket opening closing depth cs = some (inner, rest)) : inner ⊆ cs ∧ rest ⊆ cs := by
  -- whatever the depth becomes, the first character goes to the inner part
  have hstep : ∀ {c : Char} {cs : List Char} {depth : Nat} {inner : List Char},
      (∀ {inner}, closeBracket opening closing depth cs = some (inner, rest) →
        inner ⊆ cs ∧ rest ⊆ cs) →
      (closeBracket opening closing depth cs).map (fun found => (c :: found.1, found.2))
        = some (inner, rest) → inner ⊆ c :: cs ∧ rest ⊆ c :: cs := by
    intro c cs depth inner ih h
    obtain ⟨⟨inner', rest'⟩, hclose, heq⟩ := Option.map_eq_some_iff.mp h
    obtain ⟨rfl, rfl⟩ := Prod.mk.inj heq
    obtain ⟨hinner, hrest⟩ := ih hclose
    exact ⟨List.cons_subset_cons c hinner, List.subset_cons_of_subset c hrest⟩
  induction cs generalizing depth inner with
  | nil => cases h
  | cons c cs ih =>
      rw [closeBracket.eq_def] at h
      dsimp only at h
      split at h
      · exact hstep ih h
      · split at h
        · split at h
          · obtain ⟨rfl, rfl⟩ := Prod.mk.inj (Option.some.inj h)
            exact ⟨List.nil_subset _, List.subset_cons_self c cs⟩
          · exact hstep ih h
        · exact hstep ih h

theorem takeBracketed_subset {opening closing : Char}
    (h : takeBracketed opening closing cs = some (inner, rest)) : inner ⊆ cs ∧ rest ⊆ cs := by
  cases cs with
  | nil => cases h
  | cons c cs =>
      rw [takeBracketed] at h
      split at h
      · obtain ⟨hinner, hrest⟩ := closeBracket_subset h
        exact ⟨List.subset_cons_of_subset c hinner, List.subset_cons_of_subset c hrest⟩
      · cases h

theorem subset_of_mem_splitOutside {part : List Char} {depth : Int}
    (h : part ∈ splitOutside depth cs) : part ⊆ cs := by
  induction cs generalizing part depth with
  | nil =>
      rw [splitOutside, List.mem_singleton] at h
      rw [h]
      exact List.Subset.refl _
  | cons c cs ih =>
      rw [splitOutside] at h
      split at h
      · exact subset_of_mem_extendHead (fun other hother => ih hother) h
      · split at h
        · exact subset_of_mem_extendHead (fun other hother => ih hother) h
        · split at h
          · rcases List.mem_cons.mp h with rfl | h
            · exact List.nil_subset _
            · exact List.subset_cons_of_subset c (ih h)
          · exact subset_of_mem_extendHead (fun other hother => ih hother) h

theorem subset_of_mem_splitTopLevel {part : List Char} (h : part ∈ splitTopLevel cs) :
    part ⊆ cs := by
  obtain ⟨piece, hpiece, rfl⟩ := List.mem_map.mp (List.mem_filter.mp h).1
  exact List.Subset.trans (trim_subset piece) (subset_of_mem_splitOutside hpiece)

theorem namedPiece?_subset {name : List Char} (h : namedPiece? cs = some (name, rest)) :
    rest ⊆ cs := by
  unfold namedPiece? at h
  split at h
  · cases h
  · rename_i name' rest' hname
    split at h
    · rw [← (Prod.mk.inj (Option.some.inj h)).2]
      exact List.Subset.trans (trimStart_subset rest') (asciiName?_subset hname).2
    · cases h

theorem type_of_mem_namedParams {pieces : List (List Char)} {waiting : List String} {p : Param}
    (h : p ∈ namedParams waiting pieces) : ∃ piece ∈ pieces, p.type.toList ⊆ piece := by
  induction pieces generalizing waiting with
  | nil => cases h
  | cons piece pieces ih =>
      have hlater : ∀ {waiting : List String}, p ∈ namedParams waiting pieces →
          ∃ other ∈ piece :: pieces, p.type.toList ⊆ other := by
        intro waiting h
        obtain ⟨other, hother, hsub⟩ := ih h
        exact ⟨other, List.mem_cons_of_mem _ hother, hsub⟩
      rw [namedParams.eq_def] at h
      dsimp only at h
      split at h
      · rename_i name type hpiece
        rcases List.mem_append.mp h with h | h
        · obtain ⟨_, -, rfl⟩ := List.mem_map.mp h
          refine ⟨piece, List.mem_cons_self .., ?_⟩
          rw [String.toList_ofList]
          exact List.Subset.trans (trim_subset type) (namedPiece?_subset hpiece)
        · exact hlater h
      · exact hlater h

/-- The types of a parameter list stand in its text. -/
theorem type_of_mem_parseParams {p : Param} (h : p ∈ parseParams cs) : p.type.toList ⊆ cs := by
  unfold parseParams at h
  dsimp only at h
  split at h
  · obtain ⟨piece, hpiece, hsub⟩ := type_of_mem_namedParams h
    exact List.Subset.trans hsub (subset_of_mem_splitTopLevel hpiece)
  · obtain ⟨piece, hpiece, rfl⟩ := List.mem_map.mp h
    rw [String.toList_ofList]
    exact subset_of_mem_splitTopLevel hpiece

/-! ## Declarations -/

/-- The texts of a declaration that generated code repeats: its name and its types. -/
def Declaration.texts (d : Declaration) : List String :=
  d.name :: d.params.map (·.type) ++ d.results

/-- The texts of a field that generated code repeats. -/
def StructField.texts (f : StructField) : List String :=
  f.type :: f.names

theorem splitReceiver?_subset {receiver : Option String}
    (h : splitReceiver? cs = some (receiver, rest)) : rest ⊆ cs := by
  unfold splitReceiver? at h
  split at h
  · obtain ⟨⟨inner, behind⟩, htaken, h⟩ := Option.bind_eq_some_iff.mp h
    obtain ⟨receiver', -, h⟩ := Option.bind_eq_some_iff.mp h
    rw [← (Prod.mk.inj (Option.some.inj h)).2]
    exact List.Subset.trans (trimStart_subset behind) (takeBracketed_subset htaken).2
  · rw [(Prod.mk.inj (Option.some.inj h)).2]
    exact List.Subset.refl _

theorem skipTypeParams?_subset (h : skipTypeParams? cs = some rest) : rest ⊆ cs := by
  unfold skipTypeParams? at h
  split at h
  · obtain ⟨⟨inner, behind⟩, htaken, rfl⟩ := Option.map_eq_some_iff.mp h
    exact List.Subset.trans (trimStart_subset behind) (takeBracketed_subset htaken).2
  · rw [Option.some.inj h]
    exact List.Subset.refl _

theorem parseResults?_subset {results : List String} (h : parseResults? cs = some results) :
    ∀ type ∈ results, type.toList ⊆ cs := by
  have htext : trim (cs.takeWhile (· != '\x7b')) ⊆ cs :=
    List.Subset.trans (trim_subset _) (List.takeWhile_sublist _).subset
  unfold parseResults? at h
  dsimp only at h
  intro type htype
  split at h
  · obtain ⟨⟨inner, behind⟩, htaken, rfl⟩ := Option.map_eq_some_iff.mp h
    obtain ⟨p, hp, rfl⟩ := List.mem_map.mp htype
    exact List.Subset.trans (type_of_mem_parseParams hp)
      (List.Subset.trans (takeBracketed_subset htaken).1 htext)
  · split at h
    · rw [← Option.some.inj h] at htype
      cases htype
    · rw [← Option.some.inj h] at htype
      rw [List.mem_singleton.mp htype, String.toList_ofList]
      exact htext

/-- The texts of a function or method stand in its signature. -/
theorem parseFunction?_subset {d : Declaration} (h : parseFunction? cs line = some d) :
    ∀ text ∈ d.texts, text.toList ⊆ cs := by
  unfold parseFunction? at h
  obtain ⟨behind, hbehind, h⟩ := Option.bind_eq_some_iff.mp h
  obtain ⟨⟨receiver, signature⟩, hreceiver, h⟩ := Option.bind_eq_some_iff.mp h
  dsimp only at h
  have hsignature : signature ⊆ cs := List.Subset.trans (splitReceiver?_subset hreceiver)
    (List.Subset.trans (trimStart_subset behind) (after?_subset hbehind))
  split at h
  · cases h
  · obtain ⟨list, hlist, h⟩ := Option.bind_eq_some_iff.mp h
    obtain ⟨⟨params, tail⟩, hparams, h⟩ := Option.bind_eq_some_iff.mp h
    obtain ⟨results, hresults, h⟩ := Option.bind_eq_some_iff.mp h
    have hlist' : list ⊆ cs := List.Subset.trans (skipTypeParams?_subset hlist)
      (List.Subset.trans (trimStart_subset _)
        (List.Subset.trans (List.dropWhile_sublist _).subset hsignature))
    obtain ⟨hinner, htail⟩ := takeBracketed_subset hparams
    intro text htext
    rw [← Option.some.inj h] at htext
    rcases List.mem_append.mp htext with htext | htext
    · rcases List.mem_cons.mp htext with rfl | htext
      · rw [String.toList_ofList]
        exact List.Subset.trans (List.takeWhile_sublist _).subset hsignature
      · obtain ⟨p, hp, rfl⟩ := List.mem_map.mp htext
        exact List.Subset.trans (type_of_mem_parseParams hp) (List.Subset.trans hinner hlist')
    · exact List.Subset.trans (parseResults?_subset hresults text htext)
        (List.Subset.trans htail hlist')

/-- The name of a type stands in its specification, and there is nothing else. -/
theorem parseTypeSpec?_subset {d : Declaration} (h : parseTypeSpec? cs line = some d) :
    ∀ text ∈ d.texts, text.toList ⊆ cs := by
  unfold parseTypeSpec? at h
  split at h
  · cases h
  · rename_i name rest hname
    intro text htext
    rw [← Option.some.inj h] at htext
    rw [List.mem_singleton.mp htext, String.toList_ofList]
    exact (asciiName?_subset hname).1

/-! ## Fields and imports -/

theorem subset_of_mem_fieldSplitsFrom {first names : List (List Char)} {behind : List Char}
    (h : (names, behind) ∈ fieldSplitsFrom first rest) :
    behind ⊆ rest ∧ ∀ name ∈ names, name ∈ first ∨ name ⊆ rest := by
  fun_induction fieldSplitsFrom first rest with
  | case1 first rest ih =>
      rcases List.mem_cons.mp h with h | h
      · obtain ⟨rfl, rfl⟩ := Prod.mk.inj h
        exact ⟨List.Subset.refl _, fun name hname => Or.inl hname⟩
      · split at h
        · rename_i more ht
          split at h
          · rename_i name rest' hn
            obtain ⟨hbehind, hnames⟩ := ih more ht name rest' hn h
            obtain ⟨hname, hrest⟩ := asciiName?_subset hn
            have hmore : trimStart more ⊆ rest := by
              have hsub := trimStart_subset rest
              rw [ht] at hsub
              exact List.Subset.trans (trimStart_subset more)
                (List.Subset.trans (List.subset_cons_self _ _) hsub)
            refine ⟨List.Subset.trans hbehind (List.Subset.trans hrest hmore), ?_⟩
            intro other hother
            rcases hnames other hother with hother | hother
            · rcases List.mem_append.mp hother with hother | hother
              · exact Or.inl hother
              · rw [List.mem_singleton.mp hother]
                exact Or.inr (List.Subset.trans hname hmore)
            · exact Or.inr (List.Subset.trans hother (List.Subset.trans hrest hmore))
          · cases h
        · cases h

/-- The names and the type of a field stand in its line. -/
theorem parseField?_subset {f : StructField} {owner : String}
    (h : parseField? cs owner line = some f) : ∀ text ∈ f.texts, text.toList ⊆ cs := by
  have htext : trim (cs.takeWhile (· != '\x60')) ⊆ cs :=
    List.Subset.trans (trim_subset _) (List.takeWhile_sublist _).subset
  unfold parseField? at h
  dsimp only at h
  split at h
  · cases h
  · rename_i name rest hname
    obtain ⟨hfirst, hrest⟩ := asciiName?_subset hname
    obtain ⟨⟨names, behind⟩, hfound, rfl⟩ := Option.map_eq_some_iff.mp h
    obtain ⟨hbehind, hnames⟩ := subset_of_mem_fieldSplitsFrom
      (List.mem_reverse.mp (List.mem_of_find?_eq_some hfound))
    intro text hmem
    rcases List.mem_cons.mp hmem with rfl | hmem
    · rw [String.toList_ofList]
      exact List.Subset.trans (trim_subset behind) (List.Subset.trans hbehind
        (List.Subset.trans hrest htext))
    · obtain ⟨other, hother, rfl⟩ := List.mem_map.mp hmem
      rw [String.toList_ofList]
      rcases hnames other hother with hother | hother
      · rw [List.mem_singleton.mp hother]
        exact List.Subset.trans hfirst htext
      · exact List.Subset.trans hother (List.Subset.trans hrest htext)

/-- An import that can stand on an import line: everything is on one line, and the name does not
    look like a comment. -/
structure ImportEntry.Plain (entry : ImportEntry) : Prop where
  path : Unbroken entry.path.toList
  name : Unbroken entry.name.toList
  slash : '/' ∉ entry.name.toList

namespace ImportEntry

theorem lastSegment_subset (path : List Char) :
    lastSegment path ⊆ path ∧ '/' ∉ lastSegment path := by
  have hpart : ∀ part ∈ splitWhere (· == '/') path, part ⊆ path ∧ '/' ∉ part := by
    intro part hpart
    refine ⟨subset_of_mem_splitWhere hpart, fun hmem => ?_⟩
    have hslash := not_mem_splitWhere hpart _ hmem
    cases hslash
  unfold lastSegment
  split
  · rename_i last previous more hsegments
    have hlast : last ∈ splitWhere (· == '/') path :=
      List.mem_reverse.mp (hsegments ▸ List.mem_cons_self ..)
    have hprevious : previous ∈ splitWhere (· == '/') path :=
      List.mem_reverse.mp (hsegments ▸ List.mem_cons_of_mem _ (List.mem_cons_self ..))
    split
    · exact hpart previous hprevious
    · exact hpart last hlast
  · rename_i last hsegments
    exact hpart last (List.mem_reverse.mp (hsegments ▸ List.mem_singleton_self _))
  · exact ⟨List.nil_subset _, List.not_mem_nil⟩

theorem dropVersion_subset (segment : List Char) : dropVersion segment ⊆ segment := by
  unfold dropVersion
  dsimp only
  split
  · rename_i rest hback
    split
    · exact List.Subset.refl _
    · intro c hc
      have hmem : c ∈ segment.reverse.dropWhile Char.isDigit := by
        rw [hback]
        exact List.mem_cons_of_mem _ (List.mem_cons_of_mem _ (List.mem_reverse.mp hc))
      exact List.mem_reverse.mp ((List.dropWhile_sublist _).subset hmem)
  · exact List.Subset.refl _

/-- A conventional name has an underscore or a character of the last segment everywhere. -/
theorem mem_conventionalName {path : String} {c : Char} (h : c ∈ (conventionalName path).toList) :
    c = '_' ∨ c ∈ lastSegment path.toList := by
  unfold conventionalName at h
  dsimp only at h
  rw [String.toList_ofList] at h
  obtain ⟨d, hd, rfl⟩ := List.mem_map.mp h
  split
  · exact Or.inl rfl
  · refine Or.inr (dropVersion_subset _ ?_)
    cases hgo : after? "go-".toList (dropVersion (lastSegment path.toList)) with
    | none =>
        rw [hgo] at hd
        exact hd
    | some rest =>
        rw [hgo] at hd
        exact after?_subset hgo hd

theorem plain_conventional {path : String} (h : Unbroken path.toList) :
    (conventional path).Plain := by
  obtain ⟨hsub, hslash⟩ := lastSegment_subset path.toList
  refine ⟨h, ?_, ?_⟩
  · intro hmem
    rcases mem_conventionalName hmem with heq | hmem
    · exact absurd heq (by decide)
    · exact h (hsub hmem)
  · intro hmem
    rcases mem_conventionalName hmem with heq | hmem
    · exact absurd heq (by decide)
    · exact hslash hmem

end ImportEntry

theorem not_mem_of_asciiName? {name : List Char} (h : asciiName? cs = some (name, rest)) :
    '/' ∉ name := by
  have hall : ∀ c ∈ name, isAsciiNameStart c = true ∨ isAsciiNameChar c = true := by
    cases cs with
    | nil => cases h
    | cons c cs =>
        rw [asciiName?] at h
        split at h
        · rename_i hc
          obtain ⟨rfl, -⟩ := Prod.mk.inj (Option.some.inj h)
          intro d hd
          rcases List.mem_cons.mp hd with rfl | hd
          · exact Or.inl hc
          · exact Or.inr (List.all_eq_true.mp List.all_takeWhile d hd)
        · cases h
  intro hmem
  rcases hall _ hmem with hslash | hslash
  · exact absurd hslash (by decide)
  · exact absurd hslash (by decide)

/-- The name in front of an import path is one of the specification. -/
theorem importName_subset {written : Option (List Char)}
    (h : (match cs with
      | '.' :: rest => (some ['.'], rest)
      | _ =>
          match asciiName? cs with
          | some (name, rest) => (some name, rest)
          | none => (none, cs)) = (written, rest)) :
    rest ⊆ cs ∧ ∀ name ∈ written, name ⊆ cs ∧ '/' ∉ name := by
  split at h
  · obtain ⟨rfl, rfl⟩ := Prod.mk.inj h
    refine ⟨List.subset_cons_self _ _, ?_⟩
    intro name hname
    rw [← Option.some.inj hname]
    exact ⟨List.cons_subset_cons _ (List.nil_subset _), by decide⟩
  · split at h
    · rename_i found behind hfound
      obtain ⟨rfl, rfl⟩ := Prod.mk.inj h
      refine ⟨(asciiName?_subset hfound).2, ?_⟩
      intro name hname
      rw [← Option.some.inj hname]
      exact ⟨(asciiName?_subset hfound).1, not_mem_of_asciiName? hfound⟩
    · obtain ⟨rfl, rfl⟩ := Prod.mk.inj h
      exact ⟨List.Subset.refl _, fun name hname => nomatch hname⟩

/-- Import specifications give imports that can stand on an import line. -/
theorem plain_of_parseImport? {i : FileImport} (hcs : Unbroken cs)
    (h : parseImport? cs line = some i) : i.entry.Plain := by
  unfold parseImport? at h
  split at h
  rename_i written behind heq
  obtain ⟨hbehind, hnames⟩ := importName_subset heq
  split at h
  · rename_i quoted hquoted
    have hpath : Unbroken (quoted.takeWhile (· != '"')) := by
      refine hcs.of_subset (List.Subset.trans (List.takeWhile_sublist _).subset ?_)
      have hsub := trimStart_subset behind
      rw [hquoted] at hsub
      exact List.Subset.trans (List.subset_cons_self _ _) (List.Subset.trans hsub hbehind)
    dsimp only at h
    split at h
    · cases h
    · split at h
      · split at h
        · cases h
        · rw [← Option.some.inj h]
          refine ImportEntry.plain_conventional ?_
          rw [String.toList_ofList]
          exact hpath
      · split at h
        · cases h
        · obtain ⟨hname, hslash⟩ := hnames _ rfl
          rw [← Option.some.inj h]
          refine ⟨?_, ?_, ?_⟩
          · rw [String.toList_ofList]
            exact hpath
          · rw [String.toList_ofList]
            exact hcs.of_subset hname
          · rw [String.toList_ofList]
            exact hslash
  · cases h

/-! ## The code of lines -/

/-- A state whose delimiter is no line feed. -/
def Code.State.Sound : State → Prop
  | .literal quote => quote ≠ '\n'
  | .escape quote => quote ≠ '\n'
  | _ => True

/-- The code of a line is a text on one line: what is put in are blanks and delimiters. -/
theorem Code.unbroken_ofLine {state : State} (hstate : state.Sound) (hcs : Unbroken cs) :
    Unbroken (ofLine state cs).1 ∧ (ofLine state cs).2.Sound := by
  fun_induction ofLine state cs with
  | case1 q => exact ⟨Unbroken.cons hstate Unbroken.nil, trivial⟩
  | case2 q => exact ⟨Unbroken.cons hstate Unbroken.nil, trivial⟩
  | case3 state _ _ => exact ⟨Unbroken.nil, hstate⟩
  | case4 cs out state hout ih =>
      rw [hout] at ih
      obtain ⟨hline, hnext⟩ := ih trivial hcs.tail.tail
      exact ⟨Unbroken.cons (by decide) hline, hnext⟩
  | case5 c cs _ ih => exact ih trivial hcs.tail
  | case6 cs out state hout ih =>
      rw [hout] at ih
      obtain ⟨hline, hnext⟩ := ih trivial hcs.tail
      exact ⟨Unbroken.cons hcs.head_ne hline, hnext⟩
  | case7 c cs _ ih => exact ih trivial hcs.tail
  | case8 q c cs ih => exact ih hstate hcs.tail
  | case9 q cs ih => exact ih hstate hcs.tail
  | case10 c cs _ out state hout ih =>
      rw [hout] at ih
      obtain ⟨hline, hnext⟩ := ih trivial hcs.tail
      exact ⟨Unbroken.cons hcs.head_ne hline, hnext⟩
  | case11 q c cs _ _ ih => exact ih hstate hcs.tail
  | case12 tail => exact ⟨Unbroken.nil, trivial⟩
  | case13 cs ih => exact ih trivial hcs.tail.tail
  | case14 c cs _ _ next out state hout ih =>
      -- no literal is opened by a line feed
      have hsound : next.Sound := by
        show State.Sound (if c = '\x60' then .raw else if _ then .literal c else .code)
        split
        · trivial
        · split
          · exact hcs.head_ne
          · trivial
      rw [hout] at ih
      obtain ⟨hline, hnext⟩ := ih hsound hcs.tail
      exact ⟨Unbroken.cons hcs.head_ne hline, hnext⟩

theorem Code.unbroken_of_mem_ofLinesFrom {state : State} (hstate : state.Sound)
    {lines : List (List Char)} (hlines : ∀ l ∈ lines, Unbroken l) {code : List Char}
    (h : code ∈ ofLinesFrom state lines) : Unbroken code := by
  induction lines generalizing state with
  | nil => cases h
  | cons l lines ih =>
      obtain ⟨hline, hnext⟩ := unbroken_ofLine hstate (hlines l (List.mem_cons_self ..))
      rcases List.mem_cons.mp h with rfl | h
      · exact hline
      · exact ih hnext (fun m hm => hlines m (List.mem_cons_of_mem _ hm)) h

/-! ## The index -/

def Declaration.Unbroken (d : Declaration) : Prop :=
  ∀ text ∈ d.texts, Text.Unbroken text.toList

def StructField.Unbroken (f : StructField) : Prop :=
  ∀ text ∈ f.texts, Text.Unbroken text.toList

/-- What a line declares is on one line. -/
structure LineFacts.Unbroken (facts : LineFacts) : Prop where
  package : ∀ name, facts.package = some (some name) → Text.Unbroken name.toList
  importSpec : ∀ i, facts.importSpec = some i → i.entry.Plain
  declaration : ∀ d, facts.declaration = some d → d.Unbroken
  field : ∀ f, facts.field = some f → f.Unbroken

namespace LineFacts

theorem unbroken_empty : Unbroken {} :=
  ⟨fun _ h => (nomatch h), fun _ h => (nomatch h), fun _ h => (nomatch h), fun _ h => (nomatch h)⟩

theorem unbroken_import {i : Option FileImport} (h : ∀ j, i = some j → j.entry.Plain) :
    Unbroken { importSpec := i } :=
  ⟨fun _ h => (nomatch h), h, fun _ h => (nomatch h), fun _ h => (nomatch h)⟩

theorem unbroken_declaration {d : Option Declaration} (h : ∀ e, d = some e → e.Unbroken) :
    Unbroken { declaration := d } :=
  ⟨fun _ h => (nomatch h), fun _ h => (nomatch h), h, fun _ h => (nomatch h)⟩

end LineFacts

theorem unbroken_signatureText {limit : Nat} {parens : Int} {text : List Char}
    {lines : List (List Char)} (htext : Unbroken text) (hlines : ∀ l ∈ lines, Unbroken l) :
    Unbroken (signatureText limit parens text lines) := by
  induction lines generalizing limit parens text with
  | nil =>
      cases limit with
      | zero => exact htext
      | succ limit => exact htext
  | cons l lines ih =>
      cases limit with
      | zero => exact htext
      | succ limit =>
          have hl := (hlines l (List.mem_cons_self ..)).trim
          have hmore : Unbroken (if text.isEmpty then trim l else text ++ ' ' :: trim l) := by
            split
            · exact hl
            · exact htext.append (Unbroken.cons (by decide) hl)
          rw [signatureText]
          split
          · exact hmore
          · exact ih hmore fun m hm => hlines m (List.mem_cons_of_mem _ hm)

theorem dropLeadingFrom_subset (word : List Char) (skip : Nat) (cs : List Char) :
    dropLeadingFrom word skip cs ⊆ cs := by
  fun_induction dropLeadingFrom word skip cs with
  | case1 => exact List.Subset.refl _
  | case2 skip c cs ih => exact List.subset_cons_of_subset c ih
  | case3 c cs _ ih => exact List.subset_cons_of_subset c ih
  | case4 c cs _ => exact List.Subset.refl _

theorem importText_subset (raw : List Char) : importText raw ⊆ raw :=
  List.Subset.trans (trim_subset _)
    (List.Subset.trans (dropLeadingFrom_subset _ _ _) (trim_subset raw))

variable {raw code : List Char} {following : List (List Char)}

theorem unbroken_readTopLevel (hraw : Unbroken raw) (hcode : Unbroken code)
    (hfollowing : ∀ l ∈ following, Unbroken l) :
    (readTopLevel line raw code following).1.Unbroken := by
  have hrest : Unbroken (trimStart ((trim code).dropWhile isNameChar)) :=
    hcode.of_subset (List.Subset.trans (trimStart_subset _)
      (List.Subset.trans (List.dropWhile_sublist _).subset (trim_subset code)))
  unfold readTopLevel
  dsimp only
  split
  · refine ⟨?_, fun _ h => (nomatch h), fun _ h => (nomatch h), fun _ h => (nomatch h)⟩
    intro name hname
    obtain ⟨word, hword, rfl⟩ := Option.map_eq_some_iff.mp (Option.some.inj hname)
    rw [String.toList_ofList]
    exact hrest.of_subset (subset_of_mem_words (List.mem_of_head? hword))
  · split
    · split
      · exact LineFacts.unbroken_empty
      · refine LineFacts.unbroken_import fun i hi => ?_
        exact plain_of_parseImport? (hraw.of_subset (importText_subset raw)) hi
    · split
      · split
        · exact LineFacts.unbroken_empty
        · refine LineFacts.unbroken_declaration fun d hd text htext => ?_
          exact hrest.of_subset (parseTypeSpec?_subset hd text htext)
      · split
        · exact LineFacts.unbroken_empty
        · split
          · refine LineFacts.unbroken_declaration fun d hd text htext => ?_
            refine (unbroken_signatureText Unbroken.nil ?_).of_subset
              (parseFunction?_subset hd text htext)
            intro l hl
            rcases List.mem_cons.mp hl with rfl | hl
            · exact hcode
            · exact hfollowing l hl
          · exact LineFacts.unbroken_empty

theorem unbroken_readAtDepthZero (group : Option Group) (hraw : Unbroken raw)
    (hcode : Unbroken code) (hfollowing : ∀ l ∈ following, Unbroken l) :
    (readAtDepthZero group line raw code following).1.Unbroken := by
  unfold readAtDepthZero
  split
  · exact unbroken_readTopLevel hraw hcode hfollowing
  · split
    · exact LineFacts.unbroken_empty
    · split
      · refine LineFacts.unbroken_import fun i hi => ?_
        exact plain_of_parseImport? hraw.trim hi
      · refine LineFacts.unbroken_declaration fun d hd text htext => ?_
        exact hcode.trim.of_subset (parseTypeSpec?_subset hd text htext)
      · exact LineFacts.unbroken_empty

/-- What one line declares is on one line. -/
theorem Nesting.unbroken_read (nesting : Nesting) (hraw : Unbroken raw) (hcode : Unbroken code)
    (hfollowing : ∀ l ∈ following, Unbroken l) :
    (nesting.read line raw code following).1.Unbroken := by
  have hfacts : LineFacts.Unbroken (if nesting.depth = 0 && !(trim code).isEmpty then
      readAtDepthZero nesting.group line raw code following else ({}, nesting.group)).1 := by
    split
    · exact unbroken_readAtDepthZero nesting.group hraw hcode hfollowing
    · exact LineFacts.unbroken_empty
  refine ⟨hfacts.package, hfacts.importSpec, hfacts.declaration, ?_⟩
  intro f hf text htext
  change nesting.fieldOn line code = some f at hf
  unfold fieldOn at hf
  split at hf
  · cases hf
  · dsimp only at hf
    split at hf
    · exact hcode.trim.of_subset (parseField?_subset hf text htext)
    · cases hf

theorem Nesting.unbroken_of_mem_readAll (nesting : Nesting)
    {lines : List (List Char × List Char)} (hraw : ∀ l ∈ lines, Unbroken l.1)
    (hcode : ∀ l ∈ lines, Unbroken l.2) {facts : LineFacts}
    (h : facts ∈ nesting.readAll line lines) : facts.Unbroken := by
  induction lines generalizing nesting line with
  | nil => cases h
  | cons l lines ih =>
      have hfollowing : ∀ m ∈ lines.map (·.2), Unbroken m := by
        intro m hm
        obtain ⟨pair, hpair, rfl⟩ := List.mem_map.mp hm
        exact hcode pair (List.mem_cons_of_mem _ hpair)
      rcases List.mem_cons.mp h with rfl | h
      · exact nesting.unbroken_read (hraw l (List.mem_cons_self ..))
          (hcode l (List.mem_cons_self ..)) hfollowing
      · exact ih _ (fun m hm => hraw m (List.mem_cons_of_mem _ hm))
          (fun m hm => hcode m (List.mem_cons_of_mem _ hm)) h

/-- The index of a file on whose lines everything stands. -/
structure DeclarationIndex.Unbroken (index : DeclarationIndex) : Prop where
  package : ∀ name, index.package = some name → Text.Unbroken name.toList
  imports : ∀ i ∈ index.imports, i.entry.Plain
  declarations : ∀ d ∈ index.declarations, d.Unbroken
  fields : ∀ f ∈ index.fields, f.Unbroken

theorem DeclarationIndex.unbroken_ofCode {raw code : List (List Char)}
    (hraw : ∀ l ∈ raw, Text.Unbroken l) (hcode : ∀ l ∈ code, Text.Unbroken l) :
    (ofCode raw code).Unbroken := by
  have hfacts : ∀ facts ∈ ({} : Nesting).readAll 1 (raw.zip code), facts.Unbroken := by
    intro facts h
    refine Nesting.unbroken_of_mem_readAll {} ?_ ?_ h
    · exact fun l hl => hraw l.1 (List.of_mem_zip hl).1
    · exact fun l hl => hcode l.2 (List.of_mem_zip hl).2
  refine ⟨?_, ?_, ?_, ?_⟩
  · intro name hname
    have hlast := List.mem_of_getLast? (Option.join_eq_some_iff.mp hname)
    obtain ⟨facts, hmem, hpackage⟩ := List.mem_filterMap.mp hlast
    exact (hfacts facts hmem).package name hpackage
  · intro i hi
    obtain ⟨facts, hmem, hi⟩ := List.mem_filterMap.mp hi
    exact (hfacts facts hmem).importSpec i hi
  · intro d hd
    obtain ⟨facts, hmem, hd⟩ := List.mem_filterMap.mp hd
    exact (hfacts facts hmem).declaration d hd
  · intro f hf
    obtain ⟨facts, hmem, hf⟩ := List.mem_filterMap.mp hf
    exact (hfacts facts hmem).field f hf

/-- Everything that a file declares is on one line. -/
theorem SourceFile.unbroken_parse (path : Path) (content : String) :
    (parse path content).index.Unbroken := by
  refine DeclarationIndex.unbroken_ofCode (fun l hl => unbroken_of_mem_lines hl) ?_
  intro l hl
  have hstart : Code.State.Sound .code := trivial
  exact Code.unbroken_of_mem_ofLinesFrom hstart (fun m hm => unbroken_of_mem_lines hm) hl

end ServiceWiring
