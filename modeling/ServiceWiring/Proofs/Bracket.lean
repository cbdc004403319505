import ServiceWiring.Proofs.ArgumentItems
import ServiceWiring.Proofs.SourceCode
import ServiceWiring.Source.Declaration

/-!
# Balanced code

Code whose brackets are closed in the order that they are opened in.  The readers of signatures
pass over it as a whole: the search for a closing parenthesis does not end inside of it, and a
list is not divided at its commas.

* `Code.Balanced`, `Code.Undivided` — balanced code, and balanced code with commas in brackets
  only;
* `Code.Balanced.parenChange_prefix` — no start of balanced code closes what it has not opened;
* `Code.Balanced.closeBracket_append`, `Code.closeBracket_eq_some` — the search for a closing
  parenthesis;
* `Code.splitTopLevel_intercalate` — a list of undivided parts is divided into them.
-/

namespace ServiceWiring.Code

open Text

variable {cs ds rest : List Char}

/-! ## Balanced code -/

/-- The brackets, each opening one with the one that closes it. -/
def brackets : List (Char × Char) :=
  [('(', ')'), ('[', ']'), ('\x7b', '\x7d')]

/-- An opening or a closing bracket. -/
def IsBracket (c : Char) : Prop :=
  c ∈ brackets.map Prod.fst ∨ c ∈ brackets.map Prod.snd

instance (c : Char) : Decidable (IsBracket c) :=
  inferInstanceAs (Decidable (_ ∨ _))

/-- Code whose brackets are closed in the order that they are opened in. -/
inductive Balanced : List Char → Prop where
  | nil : Balanced []
  | char {c : Char} (hc : ¬ IsBracket c) {cs : List Char} (h : Balanced cs) : Balanced (c :: cs)
  | nest {opening closing : Char} (hpair : (opening, closing) ∈ brackets) {cs ds : List Char}
      (h : Balanced cs) (h' : Balanced ds) : Balanced (opening :: (cs ++ closing :: ds))

/-- Balanced code with commas in its brackets only. -/
inductive Undivided : List Char → Prop where
  | nil : Undivided []
  | char {c : Char} (hc : ¬ IsBracket c) (hcomma : c ≠ ',') {cs : List Char} (h : Undivided cs) :
      Undivided (c :: cs)
  | nest {opening closing : Char} (hpair : (opening, closing) ∈ brackets) {cs ds : List Char}
      (h : Balanced cs) (h' : Undivided ds) : Undivided (opening :: (cs ++ closing :: ds))

theorem Undivided.balanced (h : Undivided cs) : Balanced cs := by
  induction h with
  | nil => exact .nil
  | char hc _ _ ih => exact .char hc ih
  | nest hpair h _ ih => exact .nest hpair h ih

theorem Balanced.append (h : Balanced cs) (h' : Balanced ds) : Balanced (cs ++ ds) := by
  induction h with
  | nil => exact h'
  | char hc _ ih => exact .char hc ih
  | nest hpair h _ _ ih =>
      rw [List.cons_append, List.append_assoc, List.cons_append]
      exact .nest hpair h ih

theorem Balanced.intercalate {sep : List Char} (hsep : Balanced sep) {parts : List (List Char)}
    (h : ∀ part ∈ parts, Balanced part) : Balanced (sep.intercalate parts) := by
  induction parts with
  | nil => exact .nil
  | cons part parts ih =>
      have hpart := h part (List.mem_cons_self ..)
      have hparts := ih fun other hother => h other (List.mem_cons_of_mem _ hother)
      cases parts with
      | nil =>
          rw [List.intercalate_singleton]
          exact hpart
      | cons next more =>
          rw [List.intercalate_cons_cons]
          exact (hpart.append hsep).append hparts

theorem Undivided.append (h : Undivided cs) (h' : Undivided ds) : Undivided (cs ++ ds) := by
  induction h with
  | nil => exact h'
  | char hc hcomma _ ih => exact .char hc hcomma ih
  | nest hpair h _ ih =>
      rw [List.cons_append, List.append_assoc, List.cons_append]
      exact .nest hpair h ih

theorem Undivided.plain (h : ∀ c ∈ cs, ¬ IsBracket c ∧ c ≠ ',') : Undivided cs := by
  induction cs with
  | nil => exact .nil
  | cons c cs ih =>
      obtain ⟨hc, hcomma⟩ := h c (List.mem_cons_self ..)
      exact .char hc hcomma (ih fun d hd => h d (List.mem_cons_of_mem _ hd))

theorem Undivided.of_all (h : cs.all (fun c => ¬ IsBracket c ∧ c ≠ ',') = true) : Undivided cs :=
  .plain (List.all_iff_forall_prop.mp h)

theorem of_isBracket {p : Char → Prop} [DecidablePred p]
    (hopen : (brackets.map Prod.fst).all (p ·) = true)
    (hclose : (brackets.map Prod.snd).all (p ·) = true) {c : Char} (h : IsBracket c) : p c :=
  h.elim (List.all_iff_forall_prop.mp hopen c) (List.all_iff_forall_prop.mp hclose c)

theorem Undivided.blank (h : AllBlank cs) : Undivided cs := by
  refine Undivided.plain fun c hc => ⟨?_, ?_⟩
  · intro hbracket
    have hvisible : isBlank c = false :=
      of_isBracket (p := (isBlank · = false)) (by decide) (by decide) hbracket
    rw [h c hc] at hvisible
    cases hvisible
  · rintro rfl
    cases h _ hc

theorem not_isBracket_of_isNameChar {c : Char} (h : isNameChar c = true) : ¬ IsBracket c := by
  intro hbracket
  have hother : isNameChar c = false :=
    of_isBracket (p := (isNameChar · = false)) (by decide) (by decide) hbracket
  rw [h] at hother
  cases hother

theorem Undivided.nameChars (h : ∀ c ∈ cs, isNameChar c = true) : Undivided cs := by
  refine Undivided.plain fun c hc => ⟨not_isBracket_of_isNameChar (h c hc), ?_⟩
  rintro rfl
  cases h _ hc

theorem cases_of_mem_brackets {opening closing : Char} (h : (opening, closing) ∈ brackets) :
    (opening = '(' ∧ closing = ')') ∨ (opening = '[' ∧ closing = ']')
      ∨ (opening = '\x7b' ∧ closing = '\x7d') := by
  simpa [brackets] using h

/-! ## Counting brackets -/

theorem Balanced.braceChange_eq_zero (h : Balanced cs) : braceChange cs = 0 := by
  induction h with
  | nil => rfl
  | @char c hc cs _ ih =>
      have hopen : c ≠ '\x7b' := by
        rintro rfl
        exact hc (by decide)
      have hclose : c ≠ '\x7d' := by
        rintro rfl
        exact hc (by decide)
      rw [braceChange, if_neg hopen, if_neg hclose, ih]
      rfl
  | nest hpair _ _ ih ih' =>
      rw [braceChange, braceChange_append, braceChange, ih, ih']
      rcases cases_of_mem_brackets hpair with ⟨rfl, rfl⟩ | ⟨rfl, rfl⟩ | ⟨rfl, rfl⟩ <;> rfl

theorem parenChange_char {c : Char} (hc : ¬ IsBracket c) (cs : List Char) :
    parenChange (c :: cs) = parenChange cs := by
  have hopen : c ≠ '(' := by
    rintro rfl
    exact hc (by decide)
  have hclose : c ≠ ')' := by
    rintro rfl
    exact hc (by decide)
  rw [parenChange, if_neg hopen, if_neg hclose, Int.zero_add]

/-- A pair of brackets opens at most one parenthesis, and closes it again. -/
theorem parenChange_pair {opening closing : Char} (h : (opening, closing) ∈ brackets) :
    ∃ opened : Int, 0 ≤ opened ∧ ∀ cs, parenChange (opening :: cs) = opened + parenChange cs
      ∧ parenChange (closing :: cs) = -opened + parenChange cs := by
  rcases cases_of_mem_brackets h with ⟨rfl, rfl⟩ | ⟨rfl, rfl⟩ | ⟨rfl, rfl⟩
  · exact ⟨1, by decide, fun cs => ⟨rfl, rfl⟩⟩
  · exact ⟨0, by decide, fun cs => ⟨rfl, rfl⟩⟩
  · exact ⟨0, by decide, fun cs => ⟨rfl, rfl⟩⟩

theorem Balanced.parenChange_eq_zero (h : Balanced cs) : parenChange cs = 0 := by
  induction h with
  | nil => rfl
  | char hc _ ih => rw [parenChange_char hc, ih]
  | nest hpair _ _ ih ih' =>
      obtain ⟨opened, -, hpair⟩ := parenChange_pair hpair
      rw [(hpair _).1, parenChange_append, (hpair _).2, ih, ih']
      omega

/-- No start of balanced code closes parentheses that it has not opened. -/
theorem Balanced.parenChange_prefix (h : Balanced cs) {front : List Char} (hfront : front <+: cs) :
    0 ≤ parenChange front := by
  induction h generalizing front with
  | nil =>
      rw [List.prefix_nil.mp hfront]
      exact Int.le_refl 0
  | @char c hc cs _ ih =>
      rcases List.prefix_cons_iff.mp hfront with rfl | ⟨front, rfl, hbehind⟩
      · exact Int.le_refl 0
      · rw [parenChange_char hc]
        exact ih hbehind
  | @nest opening closing hpair cs ds h _ ih ih' =>
      obtain ⟨opened, hopened, hpair⟩ := parenChange_pair hpair
      rcases List.prefix_cons_iff.mp hfront with rfl | ⟨front, rfl, hbehind⟩
      · exact Int.le_refl 0
      · rw [(hpair _).1]
        -- the start ends inside of the brackets or behind them
        rcases List.prefix_or_prefix_of_prefix hbehind (List.prefix_append cs _)
          with hinside | ⟨tail, rfl⟩
        · have := ih hinside
          omega
        · rw [List.prefix_append_right_inj] at hbehind
          rw [parenChange_append, h.parenChange_eq_zero]
          rcases List.prefix_cons_iff.mp hbehind with rfl | ⟨behind, rfl, hlast⟩
          · simpa [parenChange] using hopened
          · have := ih' hlast
            rw [(hpair _).2]
            omega

/-! ## Closing parentheses -/

theorem closeBracket_char {c : Char} (hopen : c ≠ '(') (hclose : c ≠ ')') (depth : Nat)
    (cs : List Char) : closeBracket '(' ')' depth (c :: cs)
      = (closeBracket '(' ')' depth cs).map fun (inner, rest) => (c :: inner, rest) := by
  rw [closeBracket.eq_def]
  dsimp only
  rw [if_neg hopen, if_neg hclose]

theorem closeBracket_opening (depth : Nat) (cs : List Char) :
    closeBracket '(' ')' depth ('(' :: cs)
      = (closeBracket '(' ')' (depth + 1) cs).map fun (inner, rest) => ('(' :: inner, rest) := by
  rw [closeBracket.eq_def]
  rfl

theorem closeBracket_closing (cs : List Char) :
    closeBracket '(' ')' 0 (')' :: cs) = some ([], cs) :=
  rfl

theorem closeBracket_closing_succ (depth : Nat) (cs : List Char) :
    closeBracket '(' ')' (depth + 1) (')' :: cs)
      = (closeBracket '(' ')' depth cs).map fun (inner, rest) => (')' :: inner, rest) :=
  rfl

/-- The search for a closing parenthesis passes over balanced code. -/
theorem Balanced.closeBracket_append (h : Balanced cs) (depth : Nat) (rest : List Char) :
    closeBracket '(' ')' depth (cs ++ rest)
      = (closeBracket '(' ')' depth rest).map fun (inner, behind) => (cs ++ inner, behind) := by
  induction h generalizing depth rest with
  | nil => exact Option.map_id'.symm
  | @char c hc cs _ ih =>
      have hopen : c ≠ '(' := by
        rintro rfl
        exact hc (by decide)
      have hclose : c ≠ ')' := by
        rintro rfl
        exact hc (by decide)
      rw [List.cons_append, closeBracket_char hopen hclose, ih, Option.map_map]
      rfl
  | @nest opening closing hpair cs ds _ _ ih ih' =>
      rw [List.cons_append, List.append_assoc, List.cons_append]
      rcases cases_of_mem_brackets hpair with ⟨rfl, rfl⟩ | hother
      · rw [closeBracket_opening, ih, closeBracket_closing_succ, ih']
        simp only [Option.map_map]
        refine congrArg (Option.map · _) (funext fun found => ?_)
        simp
      · -- brackets of another kind are characters like any other
        have hopening : opening ≠ '(' ∧ opening ≠ ')' := by
          rcases hother with ⟨rfl, rfl⟩ | ⟨rfl, rfl⟩ <;> decide
        have hclosing : closing ≠ '(' ∧ closing ≠ ')' := by
          rcases hother with ⟨rfl, rfl⟩ | ⟨rfl, rfl⟩ <;> decide
        rw [closeBracket_char hopening.1 hopening.2, ih,
          closeBracket_char hclosing.1 hclosing.2, ih']
        simp only [Option.map_map]
        refine congrArg (Option.map · _) (funext fun found => ?_)
        simp

/-- What is found in front of a closing parenthesis closes the parentheses still open. -/
theorem closeBracket_eq_some {depth : Nat} {inner : List Char}
    (h : closeBracket '(' ')' depth cs = some (inner, rest)) :
    cs = inner ++ ')' :: rest ∧ parenChange inner = -depth := by
  induction cs generalizing depth inner with
  | nil => cases h
  | cons c cs ih =>
      -- whatever the first character does to the depth, it goes to the inner part
      have hstep : ∀ {depth' : Nat},
          ((closeBracket '(' ')' depth' cs).map fun (inner, behind) => (c :: inner, behind))
            = some (inner, rest) →
          ∃ inner', inner = c :: inner' ∧ cs = inner' ++ ')' :: rest ∧
            parenChange inner' = -depth' := by
        intro depth' hmap
        obtain ⟨⟨inner', rest'⟩, hfound, heq⟩ := Option.map_eq_some_iff.mp hmap
        obtain ⟨rfl, rfl⟩ := Prod.mk.inj heq
        exact ⟨inner', rfl, ih hfound⟩
      rw [closeBracket.eq_def] at h
      dsimp only at h
      by_cases hopen : c = '('
      · rw [if_pos hopen] at h
        obtain ⟨inner', rfl, rfl, hcount⟩ := hstep h
        refine ⟨rfl, ?_⟩
        rw [parenChange, if_pos hopen]
        omega
      · rw [if_neg hopen] at h
        by_cases hclose : c = ')'
        · rw [if_pos hclose] at h
          cases depth with
          | zero =>
              obtain ⟨rfl, rfl⟩ := Prod.mk.inj (Option.some.inj h)
              exact ⟨by rw [hclose]; rfl, rfl⟩
          | succ depth =>
              obtain ⟨inner', rfl, rfl, hcount⟩ := hstep h
              refine ⟨rfl, ?_⟩
              rw [parenChange, if_neg hopen, if_pos hclose]
              omega
        · rw [if_neg hclose] at h
          obtain ⟨inner', rfl, rfl, hcount⟩ := hstep h
          refine ⟨rfl, ?_⟩
          rw [parenChange, if_neg hopen, if_neg hclose]
          omega

/-- The parenthesis that closes a balanced text is found behind it. -/
theorem Balanced.takeBracketed (h : Balanced cs) (rest : List Char) :
    takeBracketed '(' ')' ('(' :: (cs ++ ')' :: rest)) = some (cs, rest) := by
  rw [ServiceWiring.takeBracketed, if_pos rfl, h.closeBracket_append, closeBracket_closing]
  simp

/-- A start of balanced code has no parenthesis that closes one in front of it. -/
theorem Balanced.takeBracketed_prefix (h : Balanced cs) {front : List Char}
    (hfront : front <+: cs) :
    ServiceWiring.takeBracketed '(' ')' ('(' :: front) = none := by
  rw [ServiceWiring.takeBracketed, if_pos rfl]
  cases hfound : closeBracket '(' ')' 0 front with
  | none => rfl
  | some found =>
      obtain ⟨rfl, hcount⟩ := closeBracket_eq_some hfound
      have hstart : found.1 ++ [')'] <+: cs := by
        refine List.IsPrefix.trans ?_ hfront
        exact (List.prefix_append_right_inj _).mpr (List.prefix_append [')'] _)
      have hclosed := h.parenChange_prefix hstart
      rw [parenChange_append, hcount] at hclosed
      exact absurd hclosed (by decide)

/-! ## Lists -/

theorem foldr_extendHead (cs part : List Char) (parts : List (List Char)) :
    cs.foldr extendHead (part :: parts) = (cs ++ part) :: parts := by
  induction cs with
  | nil => rfl
  | cons c cs ih =>
      rw [List.foldr_cons, ih]
      rfl

theorem splitOutside_opening {opening closing : Char} (h : (opening, closing) ∈ brackets)
    (depth : Int) (cs : List Char) :
    splitOutside depth (opening :: cs) = extendHead opening (splitOutside (depth + 1) cs) := by
  rcases cases_of_mem_brackets h with ⟨rfl, rfl⟩ | ⟨rfl, rfl⟩ | ⟨rfl, rfl⟩ <;> rfl

theorem splitOutside_closing {opening closing : Char} (h : (opening, closing) ∈ brackets)
    (depth : Int) (cs : List Char) :
    splitOutside depth (closing :: cs) = extendHead closing (splitOutside (depth - 1) cs) := by
  rcases cases_of_mem_brackets h with ⟨rfl, rfl⟩ | ⟨rfl, rfl⟩ | ⟨rfl, rfl⟩ <;> rfl

theorem splitOutside_char {c : Char} (hc : ¬ IsBracket c) {depth : Int}
    (hcomma : c = ',' → depth ≠ 0) (cs : List Char) :
    splitOutside depth (c :: cs) = extendHead c (splitOutside depth cs) := by
  have hopen : ¬ (decide (c = '(') || decide (c = '[') || decide (c = '\x7b')) = true := by
    intro h
    refine hc (.inl ?_)
    simpa [brackets, or_assoc] using h
  have hclose : ¬ (decide (c = ')') || decide (c = ']') || decide (c = '\x7d')) = true := by
    intro h
    refine hc (.inr ?_)
    simpa [brackets, or_assoc] using h
  have hsplit : ¬ (decide (c = ',') && decide (depth = 0)) = true := by
    simpa using hcomma
  rw [splitOutside, if_neg hopen, if_neg hclose, if_neg hsplit]

/-- Balanced code in brackets is not divided. -/
theorem Balanced.splitOutside_append (h : Balanced cs) {depth : Int} (hdepth : 0 < depth)
    (rest : List Char) :
    splitOutside depth (cs ++ rest) = cs.foldr extendHead (splitOutside depth rest) := by
  induction h generalizing depth rest with
  | nil => rfl
  | char hc _ ih =>
      rw [List.cons_append, splitOutside_char hc fun _ => by omega, ih hdepth]
      rfl
  | nest hpair _ _ ih ih' =>
      rw [List.cons_append, List.append_assoc, List.cons_append, splitOutside_opening hpair,
        ih (by omega), splitOutside_closing hpair, Int.add_sub_cancel, ih' hdepth, List.foldr_cons,
        List.foldr_append, List.foldr_cons]

theorem Undivided.splitOutside_append (h : Undivided cs) (rest : List Char) :
    splitOutside 0 (cs ++ rest) = cs.foldr extendHead (splitOutside 0 rest) := by
  induction h with
  | nil => rfl
  | char hc hcomma _ ih =>
      rw [List.cons_append, splitOutside_char hc fun h => absurd h hcomma, ih]
      rfl
  | nest hpair h _ ih =>
      rw [List.cons_append, List.append_assoc, List.cons_append, splitOutside_opening hpair,
        h.splitOutside_append (by decide), splitOutside_closing hpair, Int.add_sub_cancel, ih,
        List.foldr_cons, List.foldr_append, List.foldr_cons]

/-- A list of undivided parts is divided into them. -/
theorem splitOutside_intercalate {parts : List (List Char)} (hne : parts ≠ [])
    (h : ∀ part ∈ parts, Undivided part) : splitOutside 0 ([','].intercalate parts) = parts := by
  induction parts with
  | nil => exact absurd rfl hne
  | cons part parts ih =>
      have hpart := h part (List.mem_cons_self ..)
      cases parts with
      | nil =>
          have hsplit := hpart.splitOutside_append []
          rw [List.append_nil] at hsplit
          rw [List.intercalate_singleton, hsplit, splitOutside, foldr_extendHead, List.append_nil]
      | cons next more =>
          have hmore := ih (List.cons_ne_nil _ _) fun other hother =>
            h other (List.mem_cons_of_mem _ hother)
          rw [List.intercalate_cons_cons, List.append_assoc, hpart.splitOutside_append,
            List.singleton_append]
          show part.foldr extendHead ([] :: splitOutside 0 ([','].intercalate (next :: more))) = _
          rw [hmore, foldr_extendHead, List.append_nil]

/-- The parts of a list are read without the blanks around them. -/
theorem splitTopLevel_intercalate {parts : List (List Char)}
    (h : ∀ part ∈ parts, Undivided part) :
    splitTopLevel ([','].intercalate parts)
      = (parts.map trim).filter fun part => !part.isEmpty := by
  cases parts with
  | nil => rfl
  | cons part parts =>
      rw [splitTopLevel, splitOutside_intercalate (List.cons_ne_nil _ _) h]

end ServiceWiring.Code
