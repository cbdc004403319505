import Mathlib.Data.List.Forall2
import ServiceWiring.Proofs.ArgumentItems
import ServiceWiring.Proofs.DeclaredByCode
import ServiceWiring.Proofs.DirectiveReading

/-!
# Directives without their sigil

A directive line is disarmed by a letter in place of its sigil: it is an ordinary comment from then
on.  The sigil stands inside of a comment or a raw string, whatever is open at the start of its
line, so the code of the file is the same and so is all that it declares.

* `DisarmedLine`, `Disarmed` — lines and texts after their directives are disarmed;
* `Disarmed.hasDirectives_eq_false` — no directive is left;
* `Disarmed.sameDeclarations` — what the file declares is the same.
-/

namespace ServiceWiring

open Text

/-- A line after its directive is disarmed.  A line without one of our directives may stay as it
    is. -/
inductive DisarmedLine : List Char → List Char → Prop where
  | kept {line : List Char} (h : Directive.onLine? line = none) : DisarmedLine line line
  /-- A letter, or another character of a name, in place of the sigil. -/
  | sigil {gap slashes body : List Char} {letter : Char} (hgap : AllBlank gap)
      (hslashes : slashes = ['/', '/'] ∨ slashes = ['/', '/', ' '])
      (hletter : isNameChar letter = true) :
      DisarmedLine (gap ++ slashes ++ '@' :: body) (gap ++ slashes ++ letter :: body)

/-- A text after all of its directives are disarmed. -/
def Disarmed (content content' : String) : Prop :=
  List.Forall₂ DisarmedLine (lines content.toList) (lines content'.toList)

/-! ## The line of a sigil -/

theorem Text.not_mem_of_isNameChar {c : Char} (h : isNameChar c = true) {others : List Char}
    (hothers : others.all (fun d => !isNameChar d) = true) : c ∉ others := by
  intro hc
  have hfalse := List.all_eq_true.mp hothers c hc
  rw [h] at hfalse
  cases hfalse

namespace Code

theorem isInert_of_isNameChar {c : Char} (h : isNameChar c = true) : IsInert c :=
  not_mem_of_isNameChar h (by decide)

open Region

/-- Blanks at the start of a line open nothing and end nothing. -/
theorem Region.behind_allBlank {state : State}
    (hstate : state = .code ∨ state = .comment ∨ state = .raw) {gap : List Char}
    (hgap : AllBlank gap) : (ofState state).behind gap = ofState state := by
  induction gap with
  | nil => rfl
  | cons c gap ih =>
      obtain ⟨hslash, hraw, hquote, hsingle⟩ := isPlain_of_isBlank (hgap c (List.mem_cons_self ..))
      have hstar : c ≠ '*' := by
        rintro rfl
        cases hgap '*' (List.mem_cons_self ..)
      have hnext : (ofState state).next c = ofState state := by
        rcases hstate with rfl | rfl | rfl
        · simp [ofState, next, opened, hslash, hraw, hquote, hsingle]
        · simp [ofState, next, hstar]
        · simp [ofState, next, hraw]
      rw [behind_cons, hnext]
      exact ih fun d hd => hgap d (List.mem_cons_of_mem c hd)

/-- Behind the slashes of a comment line nothing is code. -/
theorem Region.isInside_behind_slashes {state : State}
    (hstate : state = .code ∨ state = .comment ∨ state = .raw) {gap slashes : List Char}
    (hgap : AllBlank gap) (hslashes : slashes = ['/', '/'] ∨ slashes = ['/', '/', ' ']) :
    ((ofState state).behind (gap ++ slashes)).isInside = true := by
  rw [behind_append, behind_allBlank hstate hgap]
  rcases hstate with rfl | rfl | rfl
  · rcases hslashes with rfl | rfl
    · rfl
    · rfl
  · rcases hslashes with rfl | rfl
    · rfl
    · rfl
  · rcases hslashes with rfl | rfl
    · rfl
    · rfl

end Code

/-- A comment line that begins with a character of a name is prose. -/
theorem LineClass.ofLine_eq_prose {gap content body : List Char} {letter : Char}
    (hgap : AllBlank gap) (hletter : isNameChar letter = true)
    (hcontent : content = letter :: body ∨ content = ' ' :: letter :: body) :
    ofLine (gap ++ '/' :: '/' :: content) = .prose := by
  have hne : ∀ c ∈ ['@', ' ', '\t'], c ≠ letter := by
    rintro c hc rfl
    exact not_mem_of_isNameChar hletter (by decide) hc
  have hslashes : trimStart ('/' :: '/' :: content) = '/' :: '/' :: content := rfl
  unfold ofLine
  rw [hgap.trimStart_append, hslashes]
  split
  · rename_i found heq
    obtain rfl : content = found := (List.cons.inj (List.cons.inj heq).2).2
    -- a sample or a directive has a tab, a blank or a sigil where the letter stands
    split
    · rcases hcontent with h | h
      · exact absurd (List.cons.inj h).1 (hne _ (by decide))
      · exact absurd (List.cons.inj h).1 (by decide)
    · rcases hcontent with h | h
      · exact absurd (List.cons.inj h).1 (hne _ (by decide))
      · exact absurd (List.cons.inj (List.cons.inj h).2).1 (hne _ (by decide))
    · rcases hcontent with h | h
      · exact absurd (List.cons.inj h).1 (hne _ (by decide))
      · exact absurd (List.cons.inj (List.cons.inj h).2).1 (hne _ (by decide))
    · rcases hcontent with h | h
      · exact absurd (List.cons.inj h).1 (hne _ (by decide))
      · exact absurd (List.cons.inj h).1 (by decide)
    · rfl
  · rename_i hnone
    exact absurd rfl (hnone content)

namespace DisarmedLine

variable {line line' : List Char}

/-- No directive is left. -/
theorem onLine?_eq_none (h : DisarmedLine line line') : Directive.onLine? line' = none := by
  cases h with
  | kept h => exact h
  | @sigil gap slashes body letter hgap hslashes hletter =>
      obtain ⟨content, hslashed, hcontent⟩ : ∃ content,
          slashes ++ letter :: body = '/' :: '/' :: content ∧
            (content = letter :: body ∨ content = ' ' :: letter :: body) := by
        rcases hslashes with rfl | rfl
        · exact ⟨_, rfl, .inl rfl⟩
        · exact ⟨_, rfl, .inr rfl⟩
      unfold Directive.onLine?
      rw [List.append_assoc, hslashed, LineClass.ofLine_eq_prose hgap hletter hcontent]

/-- The code of the line is the same, whatever is open at its start. -/
theorem ofLine_eq (h : DisarmedLine line line') (hline : Unbroken line) {state : Code.State}
    (hstate : state = .code ∨ state = .comment ∨ state = .raw) :
    Code.ofLine state line' = Code.ofLine state line := by
  cases h with
  | kept h => rfl
  | @sigil gap slashes body letter hgap hslashes hletter =>
      have hfront : Unbroken (gap ++ slashes) := hline.of_subset (List.subset_append_left _ _)
      exact Code.ofLine_replace (Code.isInert_of_isNameChar hletter) (by decide) body
        (.of_start hstate) hfront
        (Code.Region.isInside_behind_slashes hstate hgap hslashes)

/-- Lines that are disarmed have the same code, from any state that a line can start in. -/
theorem ofLinesFrom_eq {all all' : List (List Char)}
    (h : List.Forall₂ DisarmedLine all all') (hall : ∀ line ∈ all, Unbroken line)
    {state : Code.State} (hstate : state = .code ∨ state = .comment ∨ state = .raw) :
    Code.ofLinesFrom state all' = Code.ofLinesFrom state all := by
  induction h generalizing state with
  | nil => rfl
  | @cons line line' rest rest' hline hrest ih =>
      show (Code.ofLine state line').1 :: Code.ofLinesFrom (Code.ofLine state line').2 rest' = _
      rw [hline.ofLine_eq (hall line (List.mem_cons_self ..)) hstate,
        ih (fun other hother => hall other (List.mem_cons_of_mem _ hother))
          (Code.state_ofLine state line)]
      rfl

end DisarmedLine

/-! ## Texts -/

namespace Disarmed

variable {content content' : String}

/-- No line holds a directive. -/
theorem onLine?_eq_none (h : Disarmed content content') :
    ∀ line ∈ lines content'.toList, Directive.onLine? line = none := by
  intro line' hline'
  obtain ⟨i, hi, rfl⟩ := List.getElem_of_mem hline'
  have hlength := List.Forall₂.length_eq h
  exact (h.get (hlength ▸ hi) hi).onLine?_eq_none

theorem hasDirectives_eq_false (h : Disarmed content content') :
    hasDirectives content' = false := by
  rw [hasDirectives_eq, List.any_eq_false]
  intro line hline
  rw [h.onLine?_eq_none line hline]
  exact Bool.false_ne_true

/-- The file declares the same on the same lines. -/
theorem sameDeclarations (h : Disarmed content content') (path : Path) :
    SourceFile.SameDeclarations (.parse path content) (.parse path content') :=
  SourceFile.sameDeclarations_of_code
    (DisarmedLine.ofLinesFrom_eq h (fun _ hline => unbroken_of_mem_lines hline) (.inl rfl))

end Disarmed

end ServiceWiring
