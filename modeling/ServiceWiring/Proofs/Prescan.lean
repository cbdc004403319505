import Mathlib.Order.Bounds.Basic
import ServiceWiring.Proofs.DirectiveLine

/-!
# The quick questions about a file

Two questions are asked of a file before it is read: whether it holds a directive, and whether it
holds a marker.  They look at the lines of its text, while annotations come out of the parsed file.
Both see the same lines: each line with a directive is an annotation or a malformed directive, and
not both.

* `SourceFile.HoldsCode`, `SourceFile.nextCodeLine?_eq_some_iff` — the line that an annotation is
  bound to is the least one behind it that holds code;
* `Collected.malformed_of_mem` — every issue of a file is a directive that cannot be read;
* `Collected.Covers`, `Collected.covers_ofFile` — what the annotations and issues of a file make up.
-/

namespace ServiceWiring

open Text

namespace SourceFile

variable {file : SourceFile} {line : Nat}

/-! ## Lines with code -/

/-- Something is left of a line when its comments are gone. -/
def HoldsCode (file : SourceFile) (line : Nat) : Prop :=
  ∃ n code, line = n + 1 ∧ file.code[n]? = some code ∧ trim code ≠ []

/-- The lines with code behind a line, counted from there. -/
theorem holdsCode_behind_iff (line i : Nat) : file.HoldsCode (line + i + 1) ↔
    ∃ h : i < (file.code.drop line).length, (!(trim (file.code.drop line)[i]).isEmpty) = true := by
  simp only [HoldsCode, Nat.add_right_cancel_iff, List.length_drop, List.getElem_drop,
    Bool.not_eq_true', List.isEmpty_eq_false_iff]
  constructor
  · rintro ⟨n, code, rfl, hcode, hvisible⟩
    obtain ⟨hn, rfl⟩ := List.getElem?_eq_some_iff.mp hcode
    exact ⟨by omega, hvisible⟩
  · rintro ⟨hi, hvisible⟩
    exact ⟨line + i, _, rfl, List.getElem?_eq_getElem (by omega), hvisible⟩

/-- An annotation is bound to the least line behind it that holds code. -/
theorem nextCodeLine?_eq_some_iff {target : Nat} : file.nextCodeLine? line = some target ↔
    IsLeast {n | line < n ∧ file.HoldsCode n} target := by
  simp only [nextCodeLine?, Option.map_eq_some_iff, List.findIdx?_eq_some_iff_getElem]
  constructor
  · rintro ⟨i, ⟨hi, hcode, hfirst⟩, rfl⟩
    refine ⟨⟨by omega, (holdsCode_behind_iff line i).mpr ⟨hi, hcode⟩⟩, ?_⟩
    rintro n ⟨hbehind, hn⟩
    by_contra hless
    obtain ⟨j, rfl⟩ : ∃ j, n = line + j + 1 := ⟨n - line - 1, by omega⟩
    obtain ⟨hj, hvisible⟩ := (holdsCode_behind_iff line j).mp hn
    exact hfirst j (by omega) hvisible
  · rintro ⟨⟨hbehind, hcode⟩, hleast⟩
    obtain ⟨i, rfl⟩ : ∃ i, target = line + i + 1 := ⟨target - line - 1, by omega⟩
    obtain ⟨hi, hvisible⟩ := (holdsCode_behind_iff line i).mp hcode
    refine ⟨i, ⟨hi, hvisible, ?_⟩, rfl⟩
    intro j hj hother
    have hle := hleast ⟨by omega, (holdsCode_behind_iff line j).mpr ⟨by omega, hother⟩⟩
    omega

theorem nextCodeLine?_eq_none_iff :
    file.nextCodeLine? line = none ↔ ∀ n, line < n → ¬ file.HoldsCode n := by
  simp only [nextCodeLine?, Option.map_eq_none_iff, List.findIdx?_eq_none_iff]
  constructor
  · intro h n hbehind hn
    obtain ⟨i, rfl⟩ : ∃ i, n = line + i + 1 := ⟨n - line - 1, by omega⟩
    obtain ⟨hi, hvisible⟩ := (holdsCode_behind_iff line i).mp hn
    rw [h _ (List.getElem_mem hi)] at hvisible
    cases hvisible
  · intro h code hcode
    obtain ⟨i, hi, rfl⟩ := List.getElem_of_mem hcode
    by_contra hvisible
    exact h (line + i + 1) (by omega)
      ((holdsCode_behind_iff line i).mpr ⟨hi, Bool.eq_true_of_not_eq_false hvisible⟩)

/-! ## Lines with a directive -/

/-- The lines of a parsed file are those of its text. -/
theorem exists_directiveAt?_iff (path : Path) (content : String) (p : DirectiveKind → Prop) :
    (∃ line kind, (parse path content).directiveAt? line = some kind ∧ p kind) ↔
      ∃ text ∈ Text.lines content.toList, ∃ kind, Directive.onLine? text = some kind ∧ p kind := by
  constructor
  · rintro ⟨line, kind, hkind, hp⟩
    obtain ⟨text, htext, hkind⟩ := Option.bind_eq_some_iff.mp hkind
    obtain ⟨n, rfl, hmem⟩ := Collected.line?_eq_some_iff.mp htext
    obtain ⟨raw, hraw, rfl⟩ := List.mem_map.mp (List.fst_mem_of_mem_zipIdx hmem)
    rw [String.toList_ofList] at hkind
    exact ⟨raw, hraw, kind, hkind, hp⟩
  · rintro ⟨raw, hraw, kind, hkind, hp⟩
    obtain ⟨n, hn, rfl⟩ := List.getElem_of_mem hraw
    have htext : (parse path content).line? (n + 1)
        = some (String.ofList (Text.lines content.toList)[n]) := by
      show ((Text.lines content.toList).map String.ofList)[n]? = _
      rw [List.getElem?_map, List.getElem?_eq_getElem hn]
      rfl
    refine ⟨n + 1, kind, ?_, hp⟩
    simp only [directiveAt?, htext, Option.bind_some, String.toList_ofList]
    exact hkind

theorem hasDirectives_iff (path : Path) (content : String) : hasDirectives content = true ↔
    ∃ line kind, (parse path content).directiveAt? line = some kind := by
  have h := exists_directiveAt?_iff path content fun _ => True
  simp only [and_true] at h
  rw [h]
  simp only [hasDirectives_eq, List.any_eq_true, Option.isSome_iff_exists]

theorem hasMarker_iff (path : Path) (content : String) : hasMarker content = true ↔
    ∃ line kind, (parse path content).directiveAt? line = some kind ∧ kind.isMarker = true := by
  rw [exists_directiveAt?_iff path content fun kind => kind.isMarker = true]
  simp only [hasMarker_eq, List.any_eq_true, Option.any_eq_true]

end SourceFile

theorem DirectiveKind.isMarker_iff_label {kind : DirectiveKind} :
    kind.isMarker = true ↔ kind.label = "Service" ∨ kind.label = "Router" := by
  cases kind <;> decide

namespace Collected

variable {file : SourceFile}

/-! ## What the lines of a file give -/

/-- A line gives nothing, one annotation, or one issue about a directive of ours. -/
theorem ofLine_cases (file : SourceFile) (line : Nat) (text : String) :
    ofLine file line text = {} ∨
    (∃ d args, ofLine file line text = { annotations := [bind file line d args] }) ∨
    ∃ kind error, Directive.onLine? text.toList = some kind ∧
      ofLine file line text = { issues := [.malformed (file.locate line) kind.label error] } := by
  unfold ofLine
  split
  · rename_i body hbody
    split
    · exact Or.inl rfl
    · exact Or.inr (Or.inl ⟨_, _, rfl⟩)
    · rename_i e herror
      refine Or.inr (Or.inr ?_)
      cases hkind : Directive.kindOf? body with
      | none =>
          -- a name that is not ours is no error
          simp [Directive.parse?, hkind] at herror
      | some kind =>
          rw [Directive.nameOf_of_kindOf? hkind]
          have hline : Directive.onLine? text.toList = some kind := by
            rw [Directive.onLine?, hbody]
            exact hkind
          exact ⟨kind, e.message, hline, rfl⟩
  · exact Or.inl rfl

/-- An issue of a file is that of a directive that cannot be read on its line. -/
theorem malformed_of_mem {i : Issue} (h : i ∈ (ofFile file).issues) :
    ∃ kind error, file.directiveAt? i.line = some kind ∧
      i = .malformed (file.locate i.line) kind.label error := by
  obtain ⟨line, text, hline, hi⟩ := mem_found_iff.mp h
  rcases ofLine_cases file line text with hfound | ⟨d, args, hfound⟩ | ⟨kind, error, hkind, hfound⟩
  · rw [hfound] at hi
    cases hi
  · rw [hfound] at hi
    cases hi
  · rw [hfound] at hi
    rw [List.mem_singleton.mp hi]
    refine ⟨kind, error, ?_, rfl⟩
    show (file.line? line).bind _ = some kind
    rw [hline]
    exact hkind

/-- Parts that each line gives at most once, and with its own number, are in line order. -/
theorem pairwise_found {α : Type} {part : Collected → List α} {number : α → Nat}
    (honce : ∀ line text, part (ofLine file line text) = [] ∨
      ∃ x, part (ofLine file line text) = [x] ∧ number x = line) :
    ((file.lines.zipIdx.map fun (text, i) => ofLine file (i + 1) text).flatMap part).Pairwise
      (number · < number ·) := by
  rw [List.pairwise_flatMap]
  constructor
  · intro found hfound
    obtain ⟨⟨text, i⟩, -, rfl⟩ := List.mem_map.mp hfound
    rcases honce (i + 1) text with hpart | ⟨x, hpart, -⟩
    · simp [hpart]
    · simp [hpart]
  · have hindices : file.lines.zipIdx.Pairwise (fun a b => a.2 < b.2) := by
      rw [← List.pairwise_map, List.zipIdx_map_snd]
      exact List.pairwise_lt_range'
    have hnumber : ∀ line text, ∀ x ∈ part (ofLine file line text), number x = line := by
      intro line text x hx
      rcases honce line text with hpart | ⟨y, hpart, hy⟩
      · simp [hpart] at hx
      · obtain rfl : x = y := by simpa [hpart] using hx
        exact hy
    rw [List.pairwise_map]
    refine hindices.imp ?_
    rintro ⟨text, i⟩ ⟨text', j⟩ hless x hx y hy
    rw [hnumber _ _ x hx, hnumber _ _ y hy]
    exact Nat.succ_lt_succ hless

theorem annotations_inOrder (file : SourceFile) :
    (ofFile file).annotations.Pairwise (·.line < ·.line) := by
  refine pairwise_found ?_
  intro line text
  rcases ofLine_cases file line text with hfound | ⟨d, args, hfound⟩ | ⟨kind, error, -, hfound⟩
  · simp [hfound]
  · exact Or.inr ⟨bind file line d args, by rw [hfound], rfl⟩
  · simp [hfound]

theorem issues_inOrder (file : SourceFile) : (ofFile file).issues.Pairwise (·.line < ·.line) := by
  refine pairwise_found ?_
  intro line text
  rcases ofLine_cases file line text with hfound | ⟨d, args, hfound⟩ | ⟨kind, error, -, hfound⟩
  · simp [hfound]
  · simp [hfound]
  · exact Or.inr ⟨.malformed (file.locate line) kind.label error, by rw [hfound], rfl⟩

/-- A line has a directive exactly if it is that of an annotation or of an issue. -/
theorem directiveAt?_isSome_iff {line : Nat} : (file.directiveAt? line).isSome = true ↔
    line ∈ (ofFile file).annotations.map (·.line) ∨ line ∈ (ofFile file).issues.map (·.line) := by
  constructor
  · intro h
    obtain ⟨kind, hkind⟩ := Option.isSome_iff_exists.mp h
    rcases malformed_or_read hkind with ⟨error, hi⟩ | ⟨a, ha, hline, -⟩
    · exact Or.inr (List.mem_map.mpr ⟨_, hi, rfl⟩)
    · exact Or.inl (List.mem_map.mpr ⟨a, ha, hline⟩)
  · rintro (h | h)
    · obtain ⟨a, ha, rfl⟩ := List.mem_map.mp h
      rw [(readFrom_of_mem ha).kind]
      rfl
    · obtain ⟨i, hi, rfl⟩ := List.mem_map.mp h
      obtain ⟨kind, error, hkind, -⟩ := malformed_of_mem hi
      rw [hkind]
      rfl

theorem disjoint_lines (file : SourceFile) :
    ((ofFile file).annotations.map (·.line)).Disjoint ((ofFile file).issues.map (·.line)) := by
  intro line hread hmalformed
  obtain ⟨a, ha, rfl⟩ := List.mem_map.mp hread
  obtain ⟨i, hi, hline⟩ := List.mem_map.mp hmalformed
  obtain ⟨kind, error, -, hissue⟩ := malformed_of_mem hi
  refine (location_ne_of_mem ha hi).2 ?_
  rw [hissue, hline]
  rfl

/-! ## The quick questions -/

/-- The annotations and issues of a file make up its lines with a directive, and the quick
    questions about its text are answered by them. -/
structure Covers (content : String) (file : SourceFile) (found : Collected) : Prop where
  directives : hasDirectives content = true ↔ found.annotations ≠ [] ∨ found.issues ≠ []
  markers : hasMarker content = true ↔
    (∃ a ∈ found.annotations, a.directive.isMarker = true) ∨
      ∃ loc name error, Issue.malformed loc name error ∈ found.issues ∧
        (name = "Service" ∨ name = "Router")
  /-- The issues are all of the text of a directive. -/
  malformed : ∀ i ∈ found.issues, i.rule = .directiveText
  annotationsInOrder : found.annotations.Pairwise (·.line < ·.line)
  issuesInOrder : found.issues.Pairwise (·.line < ·.line)
  /-- The lines with a known name are those of the annotations and of the issues. -/
  lines : ∀ line, (file.knownNameAt? line).isSome = true ↔
    line ∈ found.annotations.map (·.line) ∨ line ∈ found.issues.map (·.line)
  disjoint : (found.annotations.map (·.line)).Disjoint (found.issues.map (·.line))
  /-- An annotation is bound to the least line behind it that holds code, -/
  target : ∀ a ∈ found.annotations, ∀ target,
    a.targetLine = some target ↔ IsLeast {n | a.line < n ∧ file.HoldsCode n} target
  /-- and to none if there is no such line. -/
  noTarget : ∀ a ∈ found.annotations,
    a.targetLine = none ↔ ∀ n, a.line < n → ¬ file.HoldsCode n

theorem hasDirectives_iff_found (path : Path) (content : String) :
    hasDirectives content = true ↔
      (ofFile (.parse path content)).annotations ≠ [] ∨
        (ofFile (.parse path content)).issues ≠ [] := by
  rw [SourceFile.hasDirectives_iff path content]
  constructor
  · rintro ⟨line, kind, hkind⟩
    rcases malformed_or_read hkind with ⟨error, hi⟩ | ⟨a, ha, -, -⟩
    · exact Or.inr (List.ne_nil_of_mem hi)
    · exact Or.inl (List.ne_nil_of_mem ha)
  · rintro (h | h)
    · obtain ⟨a, ha⟩ := List.exists_mem_of_ne_nil _ h
      exact ⟨a.line, _, (readFrom_of_mem ha).kind⟩
    · obtain ⟨i, hi⟩ := List.exists_mem_of_ne_nil _ h
      obtain ⟨kind, error, hkind, -⟩ := malformed_of_mem hi
      exact ⟨i.line, kind, hkind⟩

theorem hasMarker_iff_found (path : Path) (content : String) :
    hasMarker content = true ↔
      (∃ a ∈ (ofFile (.parse path content)).annotations, a.directive.isMarker = true) ∨
        ∃ loc name error, Issue.malformed loc name error ∈ (ofFile (.parse path content)).issues ∧
          (name = "Service" ∨ name = "Router") := by
  rw [SourceFile.hasMarker_iff path content]
  constructor
  · rintro ⟨line, kind, hkind, hmarker⟩
    rcases malformed_or_read hkind with ⟨error, hi⟩ | ⟨a, ha, -, rfl⟩
    · exact Or.inr ⟨_, _, error, hi, DirectiveKind.isMarker_iff_label.mp hmarker⟩
    · exact Or.inl ⟨a, ha, hmarker⟩
  · rintro (⟨a, ha, hmarker⟩ | ⟨loc, name, error, hi, hname⟩)
    · exact ⟨a.line, _, (readFrom_of_mem ha).kind, hmarker⟩
    · obtain ⟨kind, error', hkind, hissue⟩ := malformed_of_mem hi
      obtain ⟨-, rfl, -⟩ := Issue.malformed.inj hissue
      exact ⟨_, kind, hkind, DirectiveKind.isMarker_iff_label.mpr hname⟩

/-- The quick questions about a text agree with what its lines give, on every text. -/
theorem covers_ofFile (path : Path) (content : String) :
    (ofFile (.parse path content)).Covers content (.parse path content) where
  directives := hasDirectives_iff_found path content
  markers := hasMarker_iff_found path content
  malformed := by
    intro i hi
    obtain ⟨kind, error, -, hissue⟩ := malformed_of_mem hi
    rw [hissue]
    rfl
  annotationsInOrder := annotations_inOrder _
  issuesInOrder := issues_inOrder _
  lines line := by
    rw [SourceFile.knownNameAt?_eq, Option.isSome_map]
    exact directiveAt?_isSome_iff
  disjoint := disjoint_lines _
  target := by
    intro a ha target
    rw [(readFrom_of_mem ha).targetLine]
    exact SourceFile.nextCodeLine?_eq_some_iff
  noTarget := by
    intro a ha
    rw [(readFrom_of_mem ha).targetLine]
    exact SourceFile.nextCodeLine?_eq_none_iff

end Collected

end ServiceWiring
