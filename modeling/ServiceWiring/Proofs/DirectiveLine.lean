import ServiceWiring.Annotation
import ServiceWiring.Proofs.DirectiveReading

/-!
# Lines with a directive

A line with one of our directives is either malformed, which is an issue of that line, or it is
an annotation of the same kind on that line.  An annotation that passes the check of its place
stands in front of a declaration that names the struct it belongs to.

* `SourceFile.directiveAt?`, `SourceFile.structBehind?` — the directive of a line, and the struct
  that it belongs to;
* `Collected.malformed_or_read` — what a line with a directive gives;
* `Annotation.ReadFrom` — what an annotation has from the file it was read from;
* `Placement.struct_of_check`, `Placement.field_of_check`, `Placement.method_of_check` — what
  well-placed annotations stand in front of.
-/

namespace ServiceWiring

open Text

/-- The struct that a directive in front of a line belongs to: the one declared there, the receiver
    of the method, or the one that the field is in. -/
def LineTarget.struct? : LineTarget → Option String
  | .declaration d => if d.kind = .method then d.receiver else some d.name
  | .field f => some f.owner
  | .other => none

namespace SourceFile

/-- The directive on a line. -/
def directiveAt? (file : SourceFile) (line : Nat) : Option DirectiveKind :=
  (file.line? line).bind fun text => Directive.onLine? text.toList

/-- The name on a line that is looked for before the file is read. -/
def knownNameAt? (file : SourceFile) (line : Nat) : Option String :=
  (file.line? line).bind fun text => Directive.knownName? text.toList

theorem knownNameAt?_eq (file : SourceFile) (line : Nat) :
    file.knownNameAt? line = (file.directiveAt? line).map (·.label) := by
  unfold knownNameAt? directiveAt?
  cases file.line? line with
  | none => rfl
  | some text => exact Directive.knownName?_eq text.toList

/-- The struct that a directive on a line belongs to. -/
def structBehind? (file : SourceFile) (line : Nat) : Option String :=
  (file.nextCodeLine? line).bind fun target => (file.index.targetAt target).struct?

end SourceFile

/-! ## Directives keep their kind -/

theorem DirectiveKind.isFieldDirective_of_isMarker {kind : DirectiveKind}
    (h : kind.isMarker = true) : kind.isFieldDirective = false := by
  cases kind with
  | service => rfl
  | router => rfl
  | inject => cases h
  | config => cases h
  | route => cases h

theorem DirectiveKind.marker_or_field_or_route (kind : DirectiveKind) :
    kind.isMarker = true ∨ kind.isFieldDirective = true ∨ kind = .route := by
  cases kind with
  | service => exact Or.inl rfl
  | router => exact Or.inl rfl
  | inject => exact Or.inr (Or.inl rfl)
  | config => exact Or.inr (Or.inl rfl)
  | route => exact Or.inr (Or.inr rfl)

namespace Directive

theorem exists_of_kind_route {d : Directive} (h : d.kind = .route) : ∃ spec, d = .route spec := by
  cases d with
  | route spec => exact ⟨spec, rfl⟩
  | service name => cases h
  | router name mountPath => cases h
  | inject dependency => cases h
  | config spec => cases h

end Directive

/-! ## What a line gives -/

/-- What an annotation has from the file it was read from. -/
structure Annotation.ReadFrom (a : Annotation) (file : SourceFile) : Prop where
  kind : file.directiveAt? a.line = some a.directive.kind
  targetLine : a.targetLine = file.nextCodeLine? a.line
  target : a.target = a.targetLine.bind (Collected.targetName? file)

namespace Collected

variable {file : SourceFile} {line : Nat} {text : String} {kind : DirectiveKind} {a : Annotation}

theorem line?_eq_some_iff : file.line? line = some text ↔
    ∃ n, line = n + 1 ∧ (text, n) ∈ file.lines.zipIdx := by
  unfold SourceFile.line?
  constructor
  · intro h
    split at h
    · cases h
    · rename_i hline
      exact ⟨line - 1, by omega, List.mk_mem_zipIdx_iff_getElem?.mpr h⟩
  · rintro ⟨n, rfl, h⟩
    rw [if_neg (Nat.succ_ne_zero n)]
    exact List.mk_mem_zipIdx_iff_getElem?.mp h

/-- What a file gives is what its lines give. -/
theorem mem_found_iff {α : Type} {part : Collected → List α} {x : α} :
    x ∈ (file.lines.zipIdx.map fun (text, i) => ofLine file (i + 1) text).flatMap part ↔
      ∃ line text, file.line? line = some text ∧ x ∈ part (ofLine file line text) := by
  constructor
  · intro h
    obtain ⟨found, hfound, hx⟩ := List.mem_flatMap.mp h
    obtain ⟨⟨text, n⟩, hline, rfl⟩ := List.mem_map.mp hfound
    exact ⟨n + 1, text, line?_eq_some_iff.mpr ⟨n, rfl, hline⟩, hx⟩
  · rintro ⟨line, text, hline, hx⟩
    obtain ⟨n, rfl, hmem⟩ := line?_eq_some_iff.mp hline
    exact List.mem_flatMap.mpr ⟨_, List.mem_map.mpr ⟨(text, n), hmem, rfl⟩, hx⟩

/-- An annotation of a file is that of a directive that can be read on its line. -/
theorem exists_of_mem_annotations (h : a ∈ (ofFile file).annotations) :
    ∃ text body args, file.line? a.line = some text ∧
      LineClass.ofLine text.toList = .directive body ∧
      Directive.parse? body = .ok (some (a.directive, args)) ∧
      a = bind file a.line a.directive args := by
  obtain ⟨line, text, hline, ha⟩ := mem_found_iff.mp h
  unfold ofLine at ha
  split at ha
  · rename_i body hbody
    split at ha
    · cases ha
    · rename_i directive args hparse
      rw [List.mem_singleton.mp ha]
      exact ⟨text, body, args, hline, hbody, hparse, rfl⟩
    · cases ha
  · cases ha

theorem readFrom_of_mem (h : a ∈ (ofFile file).annotations) : a.ReadFrom file := by
  obtain ⟨text, body, args, hline, hbody, hparse, hbind⟩ := exists_of_mem_annotations h
  refine ⟨?_, ?_, ?_⟩
  · unfold SourceFile.directiveAt? Directive.onLine?
    rw [hline]
    dsimp only [Option.bind_some]
    rw [hbody]
    exact (Directive.parse?_eq_some_iff.mp hparse).1
  · rw [hbind]
    rfl
  · rw [hbind]
    rfl

/-- A line with a directive is malformed, or it is read. -/
theorem malformed_or_read (h : file.directiveAt? line = some kind) :
    (∃ error, Issue.malformed (file.locate line) kind.label error ∈ (ofFile file).issues) ∨
    ∃ a ∈ (ofFile file).annotations, a.line = line ∧ a.directive.kind = kind := by
  obtain ⟨text, hline, htext⟩ := Option.bind_eq_some_iff.mp h
  unfold Directive.onLine? at htext
  split at htext
  · rename_i body hbody
    cases hparse : Directive.parse? body with
    | error e =>
        refine Or.inl ⟨e.message, mem_found_iff.mpr ⟨line, text, hline, ?_⟩⟩
        unfold ofLine
        rw [hbody]
        dsimp only
        rw [hparse, Directive.nameOf_of_kindOf? htext]
        exact List.mem_singleton_self _
    | ok read =>
        cases read with
        -- only a line without a directive of ours is passed over
        | none => exact absurd hparse (Directive.parse?_ne_none htext)
        | some found =>
            obtain ⟨directive, args⟩ := found
            have hkind := (Directive.parse?_eq_some_iff.mp hparse).1.symm.trans htext
            refine Or.inr ⟨bind file line directive args, ?_, rfl, Option.some.inj hkind⟩
            refine mem_found_iff.mpr ⟨line, text, hline, ?_⟩
            unfold ofLine
            rw [hbody]
            dsimp only
            rw [hparse]
            exact List.mem_singleton_self _
  · cases htext

/-- A line whose directive is read is not malformed. -/
theorem location_ne_of_mem (h : a ∈ (ofFile file).annotations) {i : Issue}
    (hi : i ∈ (ofFile file).issues) :
    i.rule = .directiveText ∧ i.location? ≠ some (file.locate a.line) := by
  obtain ⟨text, body, args, hline, hbody, hparse, -⟩ := exists_of_mem_annotations h
  obtain ⟨line, text', hline', hi⟩ := mem_found_iff.mp hi
  unfold ofLine at hi
  split at hi
  · rename_i body' hbody'
    split at hi
    · cases hi
    · cases hi
    · rename_i e herror
      rw [List.mem_singleton.mp hi]
      refine ⟨rfl, ?_⟩
      intro hsame
      -- the issue is that of the line itself, which was read
      obtain rfl : line = a.line := congrArg Location.line (Option.some.inj hsame)
      obtain rfl := Option.some.inj (hline.symm.trans hline')
      obtain rfl := LineClass.directive.inj (hbody.symm.trans hbody')
      exact nomatch hparse.symm.trans herror
  · cases hi

end Collected

/-! ## Methods have a receiver -/

/-- A declaration that was read from a type or a signature. -/
def Declaration.Written (d : Declaration) : Prop :=
  (∃ spec line, parseTypeSpec? spec line = some d) ∨
    ∃ signature line, parseFunction? signature line = some d

theorem Declaration.Written.receiver {d : Declaration} (h : d.Written) (hkind : d.kind = .method) :
    d.receiver.isSome = true := by
  rcases h with ⟨spec, line, h⟩ | ⟨signature, line, h⟩
  · -- a type is no method
    exfalso
    unfold parseTypeSpec? at h
    split at h
    · cases h
    · rw [← Option.some.inj h] at hkind
      dsimp only at hkind
      split at hkind
      · cases hkind
      · split at hkind
        · cases hkind
        · split at hkind
          · cases hkind
          · cases hkind
  · -- a function is a method exactly if its receiver could be read
    obtain ⟨rest, -, h⟩ := Option.bind_eq_some_iff.mp h
    obtain ⟨⟨receiver, rest⟩, -, h⟩ := Option.bind_eq_some_iff.mp h
    dsimp only at h
    split at h
    · cases h
    · obtain ⟨rest, -, h⟩ := Option.bind_eq_some_iff.mp h
      obtain ⟨⟨params, rest⟩, -, h⟩ := Option.bind_eq_some_iff.mp h
      obtain ⟨results, -, h⟩ := Option.bind_eq_some_iff.mp h
      rw [← Option.some.inj h] at hkind ⊢
      dsimp only at hkind ⊢
      split at hkind
      · assumption
      · cases hkind

theorem written_of_readTopLevel {line : Nat} {raw code : List Char} {following : List (List Char)}
    {d : Declaration} (h : (readTopLevel line raw code following).1.declaration = some d) :
    d.Written := by
  unfold readTopLevel at h
  dsimp only at h
  split at h
  · cases h
  · split at h
    · split at h
      · cases h
      · cases h
    · split at h
      · split at h
        · cases h
        · exact Or.inl ⟨_, line, h⟩
      · split at h
        · cases h
        · split at h
          · exact Or.inr ⟨_, line, h⟩
          · cases h

theorem written_of_readAtDepthZero {group : Option Group} {line : Nat} {raw code : List Char}
    {following : List (List Char)} {d : Declaration}
    (h : (readAtDepthZero group line raw code following).1.declaration = some d) : d.Written := by
  unfold readAtDepthZero at h
  split at h
  · exact written_of_readTopLevel h
  · split at h
    · cases h
    · split at h
      · cases h
      · exact Or.inl ⟨_, line, h⟩
      · cases h

theorem Nesting.written_of_mem_readAll {nesting : Nesting} {line : Nat}
    {lines : List (List Char × List Char)} {facts : LineFacts} {d : Declaration}
    (h : facts ∈ nesting.readAll line lines) (hd : facts.declaration = some d) : d.Written := by
  induction lines generalizing nesting line with
  | nil => cases h
  | cons l lines ih =>
      rcases List.mem_cons.mp h with rfl | h
      · change LineFacts.declaration (if nesting.depth = 0 && !(trim l.2).isEmpty then
          readAtDepthZero nesting.group line l.1 l.2 (lines.map (·.2))
            else ({}, nesting.group)).1 = some d at hd
        split at hd
        · exact written_of_readAtDepthZero hd
        · cases hd
      · exact ih h

/-- The methods of a file have a receiver. -/
theorem SourceFile.receiver_of_method {path : Path} {content : String} {d : Declaration}
    (hd : d ∈ (parse path content).index.declarations) (hkind : d.kind = .method) :
    d.receiver.isSome = true := by
  obtain ⟨facts, hfacts, hd⟩ := List.mem_filterMap.mp hd
  exact (Nesting.written_of_mem_readAll hfacts hd).receiver hkind

/-! ## What well-placed annotations stand in front of -/

theorem DeclarationIndex.declarationAt?_of_targetAt {index : DeclarationIndex} {line : Nat}
    {d : Declaration} (h : index.targetAt line = .declaration d) :
    index.declarationAt? line = some d := by
  unfold targetAt at h
  split at h
  · rename_i found hfound
    rw [hfound, LineTarget.declaration.inj h]
  · split at h
    · cases h
    · cases h

theorem DeclarationIndex.fieldAt?_of_targetAt {index : DeclarationIndex} {line : Nat}
    {f : StructField} (h : index.targetAt line = .field f) : index.fieldAt? line = some f := by
  unfold targetAt at h
  split at h
  · cases h
  · split at h
    · rename_i found hfound
      rw [hfound, LineTarget.field.inj h]
    · cases h

namespace Placement

variable {file : SourceFile} {a : Annotation}

theorem fits_of_check (h : check file a = none) : ∃ line, a.targetLine = some line ∧
    fits a.directive.kind (file.index.targetAt line) = true := by
  unfold check at h
  dsimp only at h
  split at h
  · rename_i hfits
    exact (Option.any_eq_true _ _).mp hfits
  · cases h

theorem struct_of_fits {kind : DirectiveKind} {target : LineTarget} (h : fits kind target = true)
    (hmarker : kind.isMarker = true) : ∃ d, target = .declaration d ∧ d.kind = .struct := by
  unfold fits at h
  split at h
  · exact ⟨_, rfl, eq_of_beq h⟩
  · exact ⟨_, rfl, eq_of_beq h⟩
  · cases hmarker
  · cases hmarker
  · cases hmarker
  · cases h

theorem field_of_fits {kind : DirectiveKind} {target : LineTarget} (h : fits kind target = true)
    (hfield : kind.isFieldDirective = true) : ∃ f, target = .field f ∧ f.names.length = 1 := by
  unfold fits at h
  split at h
  · cases hfield
  · cases hfield
  · exact ⟨_, rfl, eq_of_beq h⟩
  · exact ⟨_, rfl, eq_of_beq h⟩
  · cases hfield
  · cases h

theorem method_of_fits {target : LineTarget} (h : fits .route target = true) :
    ∃ d, target = .declaration d ∧ d.kind = .method := by
  cases target with
  | declaration d => exact ⟨d, rfl, eq_of_beq h⟩
  | field f => cases h
  | other => cases h

theorem structBehind?_of_targetAt (hread : a.ReadFrom file) {line : Nat}
    (htarget : a.targetLine = some line) {target : LineTarget}
    (h : file.index.targetAt line = target) : file.structBehind? a.line = target.struct? := by
  unfold SourceFile.structBehind?
  rw [← hread.targetLine, htarget, ← h]
  rfl

/-- A well-placed marker names the struct behind it. -/
theorem struct_of_check (hread : a.ReadFrom file) (h : check file a = none)
    (hmarker : a.directive.isMarker = true) :
    ∃ name, a.target = some name ∧ file.structBehind? a.line = some name := by
  obtain ⟨line, htarget, hfits⟩ := fits_of_check h
  obtain ⟨d, hd, hkind⟩ := struct_of_fits hfits hmarker
  refine ⟨d.name, ?_, ?_⟩
  · rw [hread.target, htarget]
    show Collected.targetName? file line = _
    unfold Collected.targetName?
    rw [hd]
  · rw [structBehind?_of_targetAt hread htarget hd]
    show (if d.kind = .method then d.receiver else some d.name) = _
    rw [hkind]
    rfl

/-- A well-placed field directive stands in front of one field, and belongs to its struct. -/
theorem field_of_check (hread : a.ReadFrom file) (h : check file a = none)
    (hfield : a.directive.isFieldDirective = true) :
    ∃ f name, a.targetLine.bind file.index.fieldAt? = some f ∧ f.names.head? = some name ∧
      file.structBehind? a.line = some f.owner := by
  obtain ⟨line, htarget, hfits⟩ := fits_of_check h
  obtain ⟨f, hf, hlength⟩ := field_of_fits hfits hfield
  obtain ⟨name, hnames⟩ := List.length_eq_one_iff.mp hlength
  refine ⟨f, name, ?_, ?_, ?_⟩
  · rw [htarget]
    exact DeclarationIndex.fieldAt?_of_targetAt hf
  · rw [hnames]
    rfl
  · exact structBehind?_of_targetAt hread htarget hf

/-- A well-placed route stands in front of a method, and belongs to its receiver. -/
theorem method_of_check (hread : a.ReadFrom file) (h : check file a = none)
    (hroute : a.directive.kind = .route)
    (hmethods : ∀ d ∈ file.index.declarations, d.kind = .method → d.receiver.isSome = true) :
    ∃ d receiver, a.targetLine.bind file.index.declarationAt? = some d ∧
      d.receiver = some receiver ∧ file.structBehind? a.line = some receiver := by
  obtain ⟨line, htarget, hfits⟩ := fits_of_check h
  rw [hroute] at hfits
  obtain ⟨d, hd, hkind⟩ := method_of_fits hfits
  have hfound := DeclarationIndex.declarationAt?_of_targetAt hd
  obtain ⟨receiver, hreceiver⟩ :=
    Option.isSome_iff_exists.mp (hmethods d (List.mem_of_find?_eq_some hfound) hkind)
  refine ⟨d, receiver, ?_, hreceiver, ?_⟩
  · rw [htarget]
    exact hfound
  · rw [structBehind?_of_targetAt hread htarget hd]
    show (if d.kind = .method then d.receiver else some d.name) = _
    rw [if_pos hkind]
    exact hreceiver

/-! ## What a check of all annotations leaves -/

variable {annotations : List Annotation}

/-- A file that is taken out has an issue of a misplaced directive. -/
theorem misplaced_of_rejected (h : (validate file annotations).rejected = true) :
    ∃ loc directive expected found, loc.file = file.path.display ∧
      Issue.misplaced loc directive expected found ∈ (validate file annotations).issues := by
  unfold validate at h ⊢
  dsimp only at h ⊢
  split at h
  · cases h
  · rename_i hmisplaced
    rw [if_neg hmisplaced]
    obtain ⟨i, hi⟩ := List.exists_mem_of_ne_nil _ fun hnil => hmisplaced (List.isEmpty_iff.mpr hnil)
    obtain ⟨a, -, ha⟩ := List.mem_filterMap.mp hi
    unfold check at ha
    dsimp only at ha
    split at ha
    · cases ha
    · rw [← Option.some.inj ha] at hi
      exact ⟨_, _, _, _, rfl, hi⟩

/-- One misplaced directive takes the file out. -/
theorem rejected_iff : (validate file annotations).rejected = true ↔
    ∃ a ∈ annotations, (check file a).isSome = true := by
  have hsome : (∃ a ∈ annotations, (check file a).isSome = true) ↔
      annotations.filterMap (check file) ≠ [] := by
    rw [ne_eq, List.filterMap_eq_nil_iff]
    simp only [not_forall, Option.isSome_iff_ne_none, exists_prop, ne_eq]
  rw [hsome]
  unfold validate
  dsimp only
  split
  · rename_i hempty
    exact ⟨nofun, fun hne => absurd (List.isEmpty_iff.mp hempty) hne⟩
  · rename_i hne
    exact ⟨fun _ hnil => hne (List.isEmpty_iff.mpr hnil), fun _ => rfl⟩

/-- Nothing of a file that is taken out counts. -/
theorem annotations_of_rejected (h : (validate file annotations).rejected = true) :
    (validate file annotations).annotations = [] := by
  unfold validate at h ⊢
  dsimp only at h ⊢
  split at h
  · cases h
  · rename_i hmisplaced
    rw [if_neg hmisplaced]

/-- In a file that is not taken out every annotation is well placed, and those that do not count
    are ignored with a warning. -/
theorem validate_of_not_rejected (h : (validate file annotations).rejected = false) :
    (∀ a ∈ annotations, check file a = none) ∧
    (validate file annotations).annotations = (annotations.filter fun a =>
      (unmarkedOwner? file (markedStructs annotations) a).isNone) ∧
    (validate file annotations).issues = annotations.filterMap fun a =>
      (unmarkedOwner? file (markedStructs annotations) a).map (unmarkedIssue file a) := by
  unfold validate at h ⊢
  dsimp only at h ⊢
  split at h
  · rename_i hmisplaced
    rw [if_pos hmisplaced]
    exact ⟨List.filterMap_eq_nil_iff.mp (List.isEmpty_iff.mp hmisplaced), rfl, rfl⟩
  · cases h

/-- A well-placed annotation is ignored with a warning, or it counts. -/
theorem ignored_or_kept (h : (validate file annotations).rejected = false) (ha : a ∈ annotations) :
    (∃ reason, Issue.ignored (file.locate a.line) a.directive.label reason
      ∈ (validate file annotations).issues) ∨
    a ∈ (validate file annotations).annotations := by
  obtain ⟨-, hkept, hissues⟩ := validate_of_not_rejected h
  rw [hkept, hissues]
  cases howner : unmarkedOwner? file (markedStructs annotations) a with
  | some owner =>
      have hissue : (unmarkedOwner? file (markedStructs annotations) a).map (unmarkedIssue file a)
          = some (unmarkedIssue file a owner) := by
        rw [howner]
        rfl
      exact Or.inl ⟨_, List.mem_filterMap.mpr ⟨a, ha, hissue⟩⟩
  | none =>
      refine Or.inr (List.mem_filter.mpr ⟨ha, ?_⟩)
      rw [howner]
      rfl

theorem kept_of_not_field (h : (validate file annotations).rejected = false)
    (ha : a ∈ annotations) (hfield : a.directive.isFieldDirective = false) :
    a ∈ (validate file annotations).annotations := by
  rw [(validate_of_not_rejected h).2.1]
  refine List.mem_filter.mpr ⟨ha, ?_⟩
  unfold unmarkedOwner?
  rw [hfield]
  rfl

/-- A field directive that counts is that of a struct with a marker in the same file, which
    counts too. -/
theorem marker_of_kept_field {f : StructField} (h : (validate file annotations).rejected = false)
    (ha : a ∈ (validate file annotations).annotations)
    (hfield : a.directive.isFieldDirective = true)
    (hf : a.targetLine.bind file.index.fieldAt? = some f) :
    ∃ m ∈ annotations, m ∈ (validate file annotations).annotations ∧
      m.directive.isMarker = true ∧ m.target = some f.owner := by
  obtain ⟨-, hkept, -⟩ := validate_of_not_rejected h
  rw [hkept] at ha
  have hnone := (List.mem_filter.mp ha).2
  unfold unmarkedOwner? at hnone
  rw [hfield, if_pos rfl, hf] at hnone
  dsimp only at hnone
  split at hnone
  · rename_i hmarked
    obtain ⟨m, hm, htarget⟩ := List.mem_filterMap.mp (List.contains_iff_mem.mp hmarked)
    obtain ⟨hm, hmarker⟩ := List.mem_filter.mp hm
    -- a marker is no field directive, so it is never left out itself
    have hfield := DirectiveKind.isFieldDirective_of_isMarker hmarker
    exact ⟨m, hm, kept_of_not_field h hm hfield, hmarker, htarget⟩
  · cases hnone

end Placement

end ServiceWiring
