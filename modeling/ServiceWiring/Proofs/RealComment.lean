import ServiceWiring.Proofs.ArgumentItems
import ServiceWiring.Proofs.Prescan
import ServiceWiring.Proofs.SourceCode

/-!
# Which lines carry directives

Whether a line carries a directive is seen from its own text.  Whether it is a comment at all
depends on the lines in front of it as well: it may begin inside of a block comment or of a raw
string.  A directive on a line that begins in code stands in a line comment; one on a line that
begins inside of something is taken for a directive all the same.

* `SourceFile.stateAt`, `SourceFile.StartsInside` — where the reading of code stands at the start
  of a line;
* `SourceFile.HoldsOnlyComment` — the lines that are a line comment and nothing else;
* `Collected.not_silent_iff` — the lines that an annotation or an issue comes from.
-/

namespace ServiceWiring

open Text

theorem LineClass.slashes_of_onLine? {line : List Char} {kind : DirectiveKind}
    (h : Directive.onLine? line = some kind) :
    ∃ content, trimStart line = '/' :: '/' :: content := by
  unfold Directive.onLine? at h
  split at h
  · rename_i body hbody
    unfold LineClass.ofLine at hbody
    split at hbody
    · rename_i content hcontent
      exact ⟨content, hcontent⟩
    · cases hbody
  · cases h

namespace SourceFile

variable {file : SourceFile} {line : Nat}

/-- Where the reading of code stands at the start of a line. -/
def stateAt (file : SourceFile) (line : Nat) : Code.State :=
  Code.stateBehind .code ((file.lines.take (line - 1)).map String.toList)

/-- A block comment or a raw string of an earlier line is still open. -/
def StartsInside (file : SourceFile) (line : Nat) : Prop :=
  file.stateAt line = .comment ∨ file.stateAt line = .raw

instance (file : SourceFile) (line : Nat) : Decidable (file.StartsInside line) :=
  inferInstanceAs (Decidable (_ ∨ _))

/-- A line that begins in code and is a line comment: only the blanks in front of it are code. -/
def HoldsOnlyComment (file : SourceFile) (line : Nat) : Prop :=
  file.stateAt line = .code ∧ ∃ gap comment, AllBlank gap ∧
    file.line? line = some (String.ofList (gap ++ '/' :: '/' :: comment)) ∧
    file.code[line - 1]? = some gap

/-- A line begins in code or inside of something. -/
theorem code_or_startsInside (file : SourceFile) (line : Nat) :
    file.stateAt line = .code ∨ file.StartsInside line :=
  Code.stateBehind_cases _

/-- The code of a line of a parsed file. -/
theorem code_parse {path : Path} {content text : String}
    (h : (parse path content).line? line = some text) :
    (parse path content).code[line - 1]?
      = some (Code.ofLine ((parse path content).stateAt line) text.toList).1 := by
  obtain ⟨n, rfl, hmem⟩ := Collected.line?_eq_some_iff.mp h
  have htext : ((Text.lines content.toList).map String.ofList)[n]? = some text :=
    List.mk_mem_zipIdx_iff_getElem?.mp hmem
  rw [List.getElem?_map] at htext
  obtain ⟨raw, hraw, rfl⟩ := Option.map_eq_some_iff.mp htext
  show (Code.ofLinesFrom .code (Text.lines content.toList))[n]? = _
  have hfront : ((parse path content).lines.take n).map String.toList
      = (Text.lines content.toList).take n := by
    show (((Text.lines content.toList).map String.ofList).take n).map String.toList = _
    rw [← List.map_take, map_toList_map_ofList]
  rw [Code.getElem?_ofLinesFrom, hraw, stateAt, Nat.add_sub_cancel, hfront, String.toList_ofList]
  rfl

/-- A directive on a line that begins in code stands in a line comment. -/
theorem holdsOnlyComment_of_directiveAt? {path : Path} {content : String}
    (hstate : (parse path content).stateAt line = .code) {kind : DirectiveKind}
    (h : (parse path content).directiveAt? line = some kind) :
    (parse path content).HoldsOnlyComment line := by
  obtain ⟨text, htext, hkind⟩ := Option.bind_eq_some_iff.mp h
  obtain ⟨content, hslashes⟩ := LineClass.slashes_of_onLine? hkind
  obtain ⟨gap, hgap, hline⟩ := exists_gap_trimStart text.toList
  rw [hslashes] at hline
  refine ⟨hstate, gap, content, hgap, ?_, ?_⟩
  · rw [htext, ← hline, String.ofList_toList]
  · rw [code_parse htext, hstate, hline,
      Code.ofLine_plain fun c hc => Code.isPlain_of_isBlank (hgap c hc)]
    show some (gap ++ []) = some gap
    rw [List.append_nil]

end SourceFile

namespace Collected

variable {file : SourceFile}

/-- Nothing comes from a line: no annotation and no issue. -/
def Silent (found : Collected) (line : Nat) : Prop :=
  (∀ a ∈ found.annotations, a.line ≠ line) ∧ ∀ i ∈ found.issues, i.line ≠ line

theorem not_silent_iff_directiveAt? {line : Nat} :
    ¬ (ofFile file).Silent line ↔ (file.directiveAt? line).isSome = true := by
  rw [directiveAt?_isSome_iff]
  simp only [Silent, not_and_or, not_forall, not_not, exists_prop, List.mem_map]

/-- The lines that an annotation or an issue comes from are those with a directive that are a line
    comment, and those that only look like one inside of a block comment or of a raw string. -/
theorem not_silent_iff (path : Path) (content : String) (line : Nat) :
    ¬ (ofFile (.parse path content)).Silent line ↔
      ((SourceFile.parse path content).directiveAt? line).isSome = true ∧
        ((SourceFile.parse path content).HoldsOnlyComment line ∨
          (SourceFile.parse path content).StartsInside line) := by
  rw [not_silent_iff_directiveAt?]
  constructor
  · intro h
    refine ⟨h, ?_⟩
    obtain ⟨kind, hkind⟩ := Option.isSome_iff_exists.mp h
    rcases SourceFile.code_or_startsInside (.parse path content) line with hcode | hinside
    · exact .inl (SourceFile.holdsOnlyComment_of_directiveAt? hcode hkind)
    · exact .inr hinside
  · exact And.left

/-- A source whose only marker stands in a raw string. -/
def quotedMarker : SourceFile :=
  .parse ⟨"svc/a.go"⟩ "package svc\n\nvar doc = \x60\n// @Service\n\x60\n"

/-- A marker in a raw string is taken for one of the file. -/
theorem not_silent_in_rawString : ¬ ∀ (path : Path) (content : String) (line : Nat),
    (SourceFile.parse path content).StartsInside line →
      (ofFile (.parse path content)).Silent line := by
  intro h
  have hinside : quotedMarker.StartsInside 4 := by decide +kernel
  have hmarker : (quotedMarker.directiveAt? 4).isSome = true := by decide +kernel
  exact not_silent_iff_directiveAt?.mpr hmarker (h _ _ 4 hinside)

end Collected

end ServiceWiring
