import ServiceWiring.Proofs.StringLiteral

/-!
# Quoting undone

A text that is quoted afresh is one literal, and reading the literal gives the text back.  Such a
literal also ends where it is seen to end: in a longer text it can be told, with what it quotes,
from what stands behind it, and behind a comma and a blank from what stands in front of it.

* `StringLiteral.text?` — the text that a literal stands for;
* `StringLiteral.Undoes`, `StringLiteral.undoes_quote` — a literal of one line and its text;
* `StringLiteral.quote_injective` — different texts are quoted in different ways;
* `StringLiteral.quote_append_inj`, `StringLiteral.append_quote_inj` — the same in a longer text.
-/

namespace ServiceWiring.StringLiteral

open Text Arguments

variable {cs ds front front' behind behind' text : List Char} {s t : String} {c : Char}

/-! ## One literal -/

/-- The text that a literal stands for, if its bytes are those of a text. -/
def text? (cs : List Char) : Option String :=
  (value? cs).bind fun bytes => String.fromUTF8? bytes.toByteArray

/-- A literal of one line that stands for the text `s`: between its double quotes every other one
    is escaped. -/
structure Undoes (s literal : String) : Prop where
  delimited : ∃ inner, literal.toList = '"' :: (inner ++ ['"']) ∧ '\n' ∉ inner ∧ IsPlainText inner
  text : text? literal.toList = some s

theorem isPlainText_escapeChar (c : Char) (h : IsPlainText text) :
    IsPlainText (escapeChar c ++ text) := by
  unfold escapeChar
  split
  · exact .escape '"' h
  · rename_i hquote
    split
    · exact .escape '\\' h
    · rename_i hescape
      split
      · exact .escape 'n' h
      · split
        · exact .escape 't' h
        · exact .char hescape hquote h

/-- An escaped text does not close the literal that it stands in. -/
theorem isPlainText_escaped (cs : List Char) : IsPlainText (cs.flatMap escapeChar) := by
  induction cs with
  | nil => exact .nil
  | cons c cs ih => exact isPlainText_escapeChar c ih

theorem fromUTF8?_utf8 (s : String) : String.fromUTF8? (utf8 s.toList).toByteArray = some s := by
  have hbytes : (utf8 s.toList).toByteArray = s.toByteArray := by
    show s.toList.utf8Encode = s.toByteArray
    rw [← String.toByteArray_ofList, String.ofList_toList]
  rw [hbytes, String.fromUTF8?, dif_pos s.isValidUTF8]
  rfl

theorem text?_quote (s : String) : text? (quote s).toList = some s := by
  rw [text?, quote, String.toList_ofList, value?_quoteChars, Option.bind_some, fromUTF8?_utf8]

/-- A text that is quoted afresh is one literal, which stands for the text. -/
theorem undoes_quote (s : String) : Undoes s (quote s) where
  delimited := by
    have hline : '\n' ∉ quoteChars s.toList := Unbroken.quoteChars s.toList
    refine ⟨s.toList.flatMap escapeChar, ?_, ?_, isPlainText_escaped s.toList⟩
    · rw [quote, String.toList_ofList, quoteChars]
    · intro hmem
      exact hline (List.mem_cons_of_mem _ (List.mem_append_left _ hmem))
  text := text?_quote s

/-- Two texts that are quoted alike are the same text. -/
theorem quote_injective : Function.Injective quote := by
  intro s t h
  have htext := text?_quote s
  rw [h, text?_quote t] at htext
  exact (Option.some.inj htext).symm

/-! ## Literals in longer texts -/

theorem toList_quote_append (s behind : String) :
    (quote s ++ behind).toList = '"' :: (s.toList.flatMap escapeChar ++ '"' :: behind.toList) := by
  rw [String.toList_append, quote, String.toList_ofList, quoteChars, List.cons_append,
    List.append_assoc, List.singleton_append]

/-- Whoever reads a quoted text up to its closing quote knows the text and what is left. -/
theorem quote_append_inj {behind behind' : String} (h : quote s ++ behind = quote t ++ behind') :
    s = t ∧ behind = behind' := by
  have hchars := congrArg String.toList h
  rw [toList_quote_append, toList_quote_append] at hchars
  have hread := congrArg plainText? (List.cons.inj hchars).2
  rw [plainText?_of_isPlainText (isPlainText_escaped _),
    plainText?_of_isPlainText (isPlainText_escaped _)] at hread
  obtain ⟨hescaped, hbehind⟩ := Prod.mk.inj (Option.some.inj hread)
  refine ⟨quote_injective ?_, String.toList_inj.mp hbehind⟩
  rw [quote, quote, quoteChars, quoteChars, hescaped]

/-- In the text of a literal a double quote stands behind a backslash. -/
theorem eq_backslash_of_isPlainText (h : IsPlainText (front ++ c :: '"' :: behind)) : c = '\\' := by
  have hcut : IsPlainText ((front ++ [c]) ++ '"' :: behind) := by
    rwa [List.append_assoc, List.singleton_append]
  rcases hcut.cut with ⟨-, hquote, -⟩ | ⟨hlast, -⟩
  · -- a cut in front of the quote would leave it to close the literal
    cases hquote with
    | char _ hne _ => exact absurd rfl hne
  · rw [List.getLast?_concat] at hlast
    exact Option.some.inj hlast

/-- Behind a blank a literal at the end of a text does not start earlier than another one. -/
theorem eq_nil_of_blank_quoteChars (h : ' ' :: quoteChars cs = front ++ ' ' :: quoteChars ds) :
    front = [] := by
  cases front with
  | nil => rfl
  | cons e front =>
      have hquoted := (List.cons.inj h).2
      cases front with
      | nil => exact absurd (List.cons.inj hquoted).1 (by decide)
      | cons e front =>
          -- the opening quote of the shorter literal would stand in the text of the longer one
          have hinner : cs.flatMap escapeChar ++ ['"']
              = front ++ ' ' :: '"' :: ds.flatMap escapeChar ++ ['"'] := by
            rw [(List.cons.inj hquoted).2, List.append_assoc]
            rfl
          have hplain := isPlainText_escaped cs
          rw [List.append_cancel_right hinner] at hplain
          exact absurd (eq_backslash_of_isPlainText hplain) (by decide)

/-- Behind a comma and a blank, a quoted text at the end can be told from what stands in front of
    it. -/
theorem append_quote_inj {a b : String} (h : a ++ ", " ++ quote s = b ++ ", " ++ quote t) :
    a = b ∧ s = t := by
  have hchars : (a.toList ++ [',']) ++ ' ' :: quoteChars s.toList
      = (b.toList ++ [',']) ++ ' ' :: quoteChars t.toList := by
    have hchars := congrArg String.toList h
    simpa [quote] using hchars
  have hfront : a.toList ++ [','] = b.toList ++ [','] := by
    rcases List.append_eq_append_iff.mp hchars with ⟨between, hb, hbehind⟩ | ⟨between, ha, hbehind⟩
    · rw [hb, eq_nil_of_blank_quoteChars hbehind, List.append_nil]
    · rw [ha, eq_nil_of_blank_quoteChars hbehind, List.append_nil]
  rw [hfront] at hchars
  have hquoted := (List.cons.inj (List.append_cancel_left hchars)).2
  refine ⟨String.toList_inj.mp (List.append_cancel_right hfront), quote_injective ?_⟩
  rw [quote, quote, hquoted]

end ServiceWiring.StringLiteral
