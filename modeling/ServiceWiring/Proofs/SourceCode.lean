import Mathlib.Data.Bool.AllAny
import ServiceWiring.Proofs.Text
import ServiceWiring.Source.Code

/-!
# Reading the code of a line

The code of a line depends on the lines in front of it only through the state that they end in,
and the code of a piece of a line only on the piece, as long as no literal or comment runs on
behind it.

* `Code.ofLine_code` and its kin — the code of plain characters, identifiers and literals;
* `Code.ofText`, `Code.ReadsAs`, `Code.IsWhole` — the code of a piece, and the pieces that it
  does not matter what follows;
* `Code.stateBehind`, `Code.ofLinesFrom_append` — the state behind lines, and the code of lines
  that follow others;
* `Code.state_ofLine` — a line starts in code, in a comment or in a raw string;
* `Code.braceDepth`, `Code.parenDepth` — what lines of code leave open.
-/

namespace ServiceWiring.Code

open Text

/-! ## Characters and literals -/

/-- The contents of a literal that ends with its line leave nothing behind. -/
theorem ofLine_literal {cs : List Char} (h : '"' ∉ cs) :
    ofLine (.literal '"') (cs ++ ['"']) = (['"'], .code)
      ∧ ofLine (.escape '"') (cs ++ ['"']) = (['"'], .code) := by
  induction cs with
  | nil => exact ⟨rfl, rfl⟩
  | cons c cs ih =>
      obtain ⟨hliteral, hescape⟩ := ih fun hmem => h (List.mem_cons_of_mem _ hmem)
      have hquote : c ≠ '"' := by
        rintro rfl
        exact h (List.mem_cons_self ..)
      constructor
      · rw [List.cons_append, ofLine]
        by_cases hback : c = '\\'
        · rw [if_pos hback]
          exact hescape
        · rw [if_neg hback, if_neg hquote]
          exact hliteral
      · rw [List.cons_append, ofLine]
        exact hliteral

/-- Starts neither a comment nor a literal. -/
def IsPlain (c : Char) : Prop :=
  c ≠ '/' ∧ c ≠ '\x60' ∧ c ≠ '"' ∧ c ≠ '\''

instance (c : Char) : Decidable (IsPlain c) :=
  inferInstanceAs (Decidable (_ ∧ _))

/-- A character that starts neither a comment nor a literal is code. -/
theorem ofLine_code {c : Char} {rest : List Char} (h : IsPlain c) :
    ofLine .code (c :: rest) = (c :: (ofLine .code rest).1, (ofLine .code rest).2) := by
  obtain ⟨hslash, hraw, hquote, hsingle⟩ := h
  have hnot : ¬ (decide (c = '"') || decide (c = '\'')) = true := by
    simp [hquote, hsingle]
  rw [ofLine]
  · rw [if_neg hraw, if_neg hnot]
  · exact fun _ hc _ => hslash hc
  · exact fun _ hc _ => hslash hc

/-- Characters that start neither a comment nor a literal are code. -/
theorem ofLine_plain {piece : List Char} (h : ∀ c ∈ piece, IsPlain c) (rest : List Char) :
    ofLine .code (piece ++ rest) = (piece ++ (ofLine .code rest).1, (ofLine .code rest).2) := by
  induction piece with
  | nil => rfl
  | cons c piece ih =>
      rw [List.cons_append, ofLine_code (h c (List.mem_cons_self ..)),
        ih fun d hd => h d (List.mem_cons_of_mem _ hd)]
      rfl

theorem isPlain_of_isNameChar {c : Char} (h : isNameChar c = true) : IsPlain c := by
  refine ⟨?_, ?_, ?_, ?_⟩ <;> rintro rfl <;> cases h

theorem isPlain_of_isAsciiNameChar {c : Char} (h : isAsciiNameChar c = true) : IsPlain c := by
  refine ⟨?_, ?_, ?_, ?_⟩ <;> rintro rfl <;> cases h

theorem isPlain_of_isBlank {c : Char} (h : isBlank c = true) : IsPlain c := by
  refine ⟨?_, ?_, ?_, ?_⟩ <;> rintro rfl <;> cases h

/-- Identifiers are code. -/
theorem ofLine_nameChars {name : List Char} (hname : ∀ c ∈ name, isAsciiNameChar c = true)
    (rest : List Char) :
    ofLine .code (name ++ rest) = (name ++ (ofLine .code rest).1, (ofLine .code rest).2) :=
  ofLine_plain (fun c hc => isPlain_of_isAsciiNameChar (hname c hc)) rest

/-- A literal without quotes in it leaves its delimiters behind. -/
theorem ofLine_quoted {path : List Char} (h : '"' ∉ path) :
    ofLine .code ('"' :: path ++ ['"']) = (['"', '"'], .code) := by
  rw [List.cons_append, ofLine]
  · rw [if_neg (by decide), if_pos (by decide), (ofLine_literal h).1]
  · exact fun _ hc _ => absurd hc (by decide)
  · exact fun _ hc _ => absurd hc (by decide)

/-- The characters of code are those of its line, but for the blank that a comment leaves behind
    and the quote that ends an open literal. -/
theorem mem_of_mem_ofLine {state : State} {cs : List Char} {c : Char}
    (h : c ∈ (ofLine state cs).1) :
    c ∈ cs ∨ c = ' ' ∨ state = .literal c ∨ state = .escape c := by
  fun_induction ofLine state cs with
  | case1 q =>
      rw [List.mem_singleton.mp h]
      exact .inr (.inr (.inl rfl))
  | case2 q =>
      rw [List.mem_singleton.mp h]
      exact .inr (.inr (.inr rfl))
  | case3 => cases h
  | case12 => cases h
  -- what is read behind a character comes from there; a literal starts with its own quote
  | case4 | case5 | case6 | case7 | case8 | case9 | case10 | case11 | case13 | case14 => grind

/-- Nothing but blanks and quotes is in code that is not in its line. -/
theorem countP_ofLine_le {p : Char → Bool} (hblank : p ' ' = false)
    (hquotes : ∀ c, c = '"' ∨ c = '\'' → p c = false) {state : State} {cs : List Char}
    (hstate : ∀ q, state = .literal q ∨ state = .escape q → p q = false) :
    (ofLine state cs).1.countP p ≤ cs.countP p := by
  fun_induction ofLine state cs with
  | case1 q | case2 q => simp [hstate q]
  | case3 | case12 => exact Nat.zero_le _
  | case4 cs out state hout ih | case6 cs out state hout ih | case10 c cs _ out state hout ih =>
      have hle := ih (by simp)
      grind
  | case5 | case7 | case8 | case9 | case11 | case13 | case14 => grind

/-! ## Pieces of a line -/

/-- The code of a piece of a line that is read as code from its start. -/
def ofText (piece : List Char) : List Char :=
  (ofLine .code piece).1

/-- A piece of a line is read as some code, whatever follows it. -/
def ReadsAs (piece code : List Char) : Prop :=
  ∀ rest, ofLine .code (piece ++ rest) = (code ++ (ofLine .code rest).1, (ofLine .code rest).2)

/-- No literal or comment of a piece runs on behind it, whatever follows. -/
def IsWhole (piece : List Char) : Prop :=
  ReadsAs piece (ofText piece)

theorem mem_of_mem_ofText {piece : List Char} {c : Char} (h : c ∈ ofText piece) :
    c ∈ piece ∨ c = ' ' := by
  rcases mem_of_mem_ofLine h with hmem | hblank | hliteral | hescape
  · exact .inl hmem
  · exact .inr hblank
  · cases hliteral
  · cases hescape

theorem countP_ofText_le (piece : List Char) :
    (ofText piece).countP isAsciiNameChar ≤ piece.countP isAsciiNameChar := by
  refine countP_ofLine_le rfl ?_ ?_
  · rintro c (rfl | rfl) <;> rfl
  · rintro q (h | h) <;> cases h

namespace ReadsAs

variable {piece code : List Char}

theorem plain (h : ∀ c ∈ piece, IsPlain c) : ReadsAs piece piece :=
  ofLine_plain h

theorem of_all (h : piece.all (IsPlain ·) = true) : ReadsAs piece piece :=
  .plain (List.all_iff_forall_prop.mp h)

theorem append {piece' code' : List Char} (h : ReadsAs piece code) (h' : ReadsAs piece' code') :
    ReadsAs (piece ++ piece') (code ++ code') := by
  intro rest
  rw [List.append_assoc, h, h', List.append_assoc]

theorem intercalate {α : Type} {sep : List Char} (hsep : ReadsAs sep sep)
    {text code : α → List Char} {items : List α}
    (h : ∀ item ∈ items, ReadsAs (text item) (code item)) :
    ReadsAs (sep.intercalate (items.map text)) (sep.intercalate (items.map code)) := by
  induction items with
  | nil => exact fun rest => rfl
  | cons item items ih =>
      have hitem := h item (List.mem_cons_self ..)
      have hitems := ih fun other hother => h other (List.mem_cons_of_mem _ hother)
      cases items with
      | nil =>
          rw [List.map_singleton, List.map_singleton, List.intercalate_singleton,
            List.intercalate_singleton]
          exact hitem
      | cons next more =>
          rw [List.map_cons, List.map_cons, List.map_cons, List.map_cons,
            List.intercalate_cons_cons, List.intercalate_cons_cons]
          exact (hitem.append hsep).append hitems

/-- What a piece is read as is its code. -/
theorem ofText_eq (h : ReadsAs piece code) : ofText piece = code := by
  have hread := h []
  rw [List.append_nil] at hread
  rw [ofText, hread]
  exact List.append_nil code

theorem isWhole (h : ReadsAs piece code) : IsWhole piece := by
  rw [IsWhole, h.ofText_eq]
  exact h

end ReadsAs

/-! ## The state between lines -/

/-- The state behind consecutive lines. -/
def stateBehind (state : State) (lines : List (List Char)) : State :=
  lines.foldl (fun state line => (ofLine state line).2) state

/-- A line starts in code, in a comment or in a raw string: other literals end with their line. -/
theorem state_ofLine (state : State) (cs : List Char) :
    (ofLine state cs).2 = .code ∨ (ofLine state cs).2 = .comment ∨ (ofLine state cs).2 = .raw := by
  fun_induction ofLine state cs with
  | case1 | case2 | case12 => exact .inl rfl
  | case3 state hliteral hescape =>
      cases state with
      | code => exact .inl rfl
      | comment => exact .inr (.inl rfl)
      | raw => exact .inr (.inr rfl)
      | literal q => exact absurd rfl (hliteral q)
      | escape q => exact absurd rfl (hescape q)
  | case4 cs out state hout ih | case6 cs out state hout ih | case10 c cs _ out state hout ih
  | case14 c cs _ _ next out state hout ih =>
      rw [hout] at ih
      exact ih
  | case5 c cs _ ih | case7 c cs _ ih | case8 q c cs ih | case9 q cs ih | case11 q c cs _ _ ih
  | case13 cs ih => exact ih

theorem stateBehind_cases (lines : List (List Char)) : stateBehind .code lines = .code
    ∨ stateBehind .code lines = .comment ∨ stateBehind .code lines = .raw := by
  rcases List.eq_nil_or_concat lines with rfl | ⟨front, line, rfl⟩
  · exact .inl rfl
  · rw [stateBehind, List.concat_eq_append, List.foldl_append]
    exact state_ofLine _ line

theorem ofLinesFrom_append (state : State) (front behind : List (List Char)) :
    ofLinesFrom state (front ++ behind)
      = ofLinesFrom state front ++ ofLinesFrom (stateBehind state front) behind := by
  induction front generalizing state with
  | nil => rfl
  | cons line front ih =>
      show _ :: ofLinesFrom (ofLine state line).2 (front ++ behind) = _
      rw [ih]
      rfl

theorem length_ofLinesFrom (state : State) (lines : List (List Char)) :
    (ofLinesFrom state lines).length = lines.length := by
  induction lines generalizing state with
  | nil => rfl
  | cons line lines ih => exact congrArg Nat.succ (ih _)

/-- The code of a line, read in the state behind the lines in front of it. -/
theorem getElem?_ofLinesFrom (state : State) (lines : List (List Char)) (n : Nat) :
    (ofLinesFrom state lines)[n]?
      = lines[n]?.map fun line => (ofLine (stateBehind state (lines.take n)) line).1 := by
  induction lines generalizing state n with
  | nil => rfl
  | cons line lines ih =>
      cases n with
      | zero => rfl
      | succ n => exact ih _ n

/-! ## What lines leave open -/

theorem braceChange_append (front behind : List Char) :
    braceChange (front ++ behind) = braceChange front + braceChange behind := by
  induction front with
  | nil => exact (Int.zero_add _).symm
  | cons c front ih =>
      rw [List.cons_append, braceChange, braceChange, ih, Int.add_assoc]

theorem parenChange_append (front behind : List Char) :
    parenChange (front ++ behind) = parenChange front + parenChange behind := by
  induction front with
  | nil => exact (Int.zero_add _).symm
  | cons c front ih =>
      rw [List.cons_append, parenChange, parenChange, ih, Int.add_assoc]

theorem braceChange_nameChars {name : List Char} (hname : ∀ c ∈ name, isAsciiNameChar c = true) :
    braceChange name = 0 := by
  induction name with
  | nil => rfl
  | cons c name ih =>
      have hopen : c ≠ '\x7b' := by
        rintro rfl
        cases hname _ (List.mem_cons_self ..)
      have hclose : c ≠ '\x7d' := by
        rintro rfl
        cases hname _ (List.mem_cons_self ..)
      rw [braceChange, if_neg hopen, if_neg hclose,
        ih fun d hd => hname d (List.mem_cons_of_mem _ hd)]
      rfl

/-- The braces that lines of code open and do not close. -/
def braceDepth (code : List (List Char)) : Int :=
  code.foldr (fun line depth => braceChange line + depth) 0

/-- The parentheses that lines of code open and do not close. -/
def parenDepth (code : List (List Char)) : Int :=
  code.foldr (fun line depth => parenChange line + depth) 0

end ServiceWiring.Code
