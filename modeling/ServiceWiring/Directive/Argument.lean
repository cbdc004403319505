import ServiceWiring.Text.Blank
import ServiceWiring.Text.Alphanumeric
import ServiceWiring.Text.Quoted
import ServiceWiring.Directive.Error

/-!
# Directive arguments

The argument list of a directive, from its text to its shape:

```text
Args  := Value ("," Value)* | Key "=" Value ("," Key "=" Value)*
Value := "..." | `...` | bare text up to the next comma
```

* `Argument` — one value, remembering how it was quoted.  The text of a plain-quoted value
  keeps its backslash escapes as written, a raw-quoted one is verbatim.
* `Arguments` — the whole list: nothing, positional values or named values.
* `Arguments.parse` — reads the text behind a directive's name.
* `Arguments.written` — the canonical way to write a list down.

Text behind the name that does not start with a parenthesis is prose and is not read.
-/

namespace ServiceWiring

/-- How a value was written. -/
inductive Quoting where
  /-- Between double quotes, escapes kept as written. -/
  | plain
  /-- Between backticks, verbatim. -/
  | raw
  /-- Without quotes. -/
  | bare
  deriving DecidableEq, Repr

/-- One argument value of a directive. -/
structure Argument where
  quoting : Quoting
  text : String
  deriving DecidableEq, Repr

namespace Argument

/-- The value in the quotes it was written in. -/
def written (a : Argument) : String :=
  match a.quoting with
  | .plain => "\"" ++ a.text ++ "\""
  | .raw => "`" ++ a.text ++ "`"
  | .bare => a.text

/-- The value as a Go string literal.  Quoted values keep their quotes, a bare value is
    quoted afresh. -/
def literal (a : Argument) : String :=
  match a.quoting with
  | .bare => Text.quote a.text
  | _ => a.written

/-- Another text in the same quotes. -/
def withText (a : Argument) (text : String) : Argument :=
  { a with text }

end Argument

/-- The arguments of a directive as written. -/
inductive Arguments where
  | none
  | positional (values : List Argument)
  | named (pairs : List (String × Argument))
  deriving DecidableEq, Repr

namespace Arguments

open Text

/-- The value given for a key. -/
def get? (args : Arguments) (key : String) : Option Argument :=
  match args with
  | .named pairs => (pairs.find? fun pair => pair.1 == key).map (·.2)
  | _ => Option.none

/-- The arguments in parentheses, separated by a comma and a blank. -/
def written : Arguments → String
  | .none => "()"
  | .positional values => "(" ++ String.intercalate ", " (values.map (·.written)) ++ ")"
  | .named pairs =>
      "(" ++ String.intercalate ", " (pairs.map fun pair => pair.1 ++ "=" ++ pair.2.written) ++ ")"

/-! ## The closing parenthesis -/

/-- Where the search for the closing parenthesis stands. -/
inductive Within where
  /-- Outside of quotes. -/
  | list
  /-- Between double quotes. -/
  | plain
  /-- Right behind a backslash between double quotes. -/
  | escape
  /-- Between backticks. -/
  | raw
  deriving DecidableEq, Repr

/-- The state behind a character. -/
def Within.next : Within → Char → Within
  | .list, c => if c = '"' then .plain else if c = '\x60' then .raw else .list
  | .plain, c => if c = '\\' then .escape else if c = '"' then .list else .plain
  | .escape, _ => .plain
  | .raw, c => if c = '\x60' then .list else .raw

/-- The text up to the parenthesis that closes the list, with `depth` parentheses open inside
    of it.  Parentheses in quotes do not count. -/
def enclosed : Within → Nat → List Char → Except DirectiveError (List Char)
  | .list, _, [] => .error .missingParenthesis
  | _, _, [] => .error .unterminatedString
  | .list, 0, ')' :: _ => .ok []
  | .list, depth, c :: cs =>
      let inner := if c = '(' then depth + 1 else if c = ')' then depth - 1 else depth
      (c :: ·) <$> enclosed (Within.next .list c) inner cs
  | state, depth, c :: cs => (c :: ·) <$> enclosed (state.next c) depth cs

/-! ## Items -/

/-- The key of an item: a name that does not start with an ASCII digit, followed by an equals
    sign.  Gives the key and what follows the sign. -/
def key? (cs : List Char) : Option (List Char × List Char) :=
  let name := cs.takeWhile isNameChar
  if name.isEmpty || name.head?.any Char.isDigit then Option.none
  else
    match trimStart (cs.dropWhile isNameChar) with
    | '=' :: rest => some (name, rest)
    | _ => Option.none

/-- The text of a plain-quoted value behind its opening quote, and what follows the closing
    quote.  A backslash takes the next character with it. -/
def plainText? : List Char → Option (List Char × List Char)
  | [] => Option.none
  | ['\\'] => Option.none
  | '\\' :: c :: cs => (plainText? cs).map fun (text, rest) => ('\\' :: c :: text, rest)
  | '"' :: cs => some ([], cs)
  | c :: cs => (plainText? cs).map fun (text, rest) => (c :: text, rest)

/-- The text of a raw-quoted value behind its opening backtick, and what follows the closing
    one. -/
def rawText? : List Char → Option (List Char × List Char)
  | [] => Option.none
  | '\x60' :: cs => some ([], cs)
  | c :: cs => (rawText? cs).map fun (text, rest) => (c :: text, rest)

/-- An unquoted value: the text up to the next comma, trimmed. -/
def bareValue (cs : List Char) : Except DirectiveError (Argument × List Char) :=
  let text := trim (cs.takeWhile (· != ','))
  if text.isEmpty then .error .missingValue
  else if text.any (fun c => c == '"' || c == '\x60') then
    .error (.unbalancedQuoting (String.ofList text))
  else .ok (⟨.bare, String.ofList text⟩, cs.dropWhile (· != ','))

/-- The value at the start of a text and what follows it. -/
def value (cs : List Char) : Except DirectiveError (Argument × List Char) :=
  match cs with
  | '"' :: rest =>
      match plainText? rest with
      | some (text, rest) => .ok (⟨.plain, String.ofList text⟩, rest)
      | Option.none => .error .unterminatedString
  | '\x60' :: rest =>
      match rawText? rest with
      | some (text, rest) => .ok (⟨.raw, String.ofList text⟩, rest)
      | Option.none => .error .unterminatedRawString
  | _ => bareValue cs

/-- One item: its key, if it has one, its value, and what follows. -/
def item (cs : List Char) : Except DirectiveError ((Option String × Argument) × List Char) :=
  let (key, rest) :=
    match key? cs with
    | some (key, rest) => (some (String.ofList key), rest)
    | Option.none => (Option.none, cs)
  (value (trimStart rest)).map fun (v, rest) => ((key, v), rest)

/-! ### Every item shortens the text -/

theorem length_trimStart (cs : List Char) : (trimStart cs).length ≤ cs.length :=
  (List.dropWhile_sublist _).length_le

theorem length_plainText? {cs text rest : List Char} (h : plainText? cs = some (text, rest)) :
    rest.length ≤ cs.length := by
  fun_induction plainText? cs generalizing text with
  | case1 => simp at h
  | case2 => simp at h
  | case3 c cs ih =>
      obtain ⟨⟨t, r⟩, htr, he⟩ := Option.map_eq_some_iff.mp h
      simp only [Prod.mk.injEq] at he
      rw [he.2] at htr
      exact Nat.le_trans (ih htr) (by simp only [List.length_cons]; omega)
  | case4 cs =>
      simp only [Option.some.injEq, Prod.mk.injEq] at h
      rw [← h.2]
      exact Nat.le_succ _
  | case5 c cs _ _ _ ih =>
      obtain ⟨⟨t, r⟩, htr, he⟩ := Option.map_eq_some_iff.mp h
      simp only [Prod.mk.injEq] at he
      rw [he.2] at htr
      exact Nat.le_trans (ih htr) (by simp)

theorem length_rawText? {cs text rest : List Char} (h : rawText? cs = some (text, rest)) :
    rest.length ≤ cs.length := by
  fun_induction rawText? cs generalizing text with
  | case1 => simp at h
  | case2 cs =>
      simp only [Option.some.injEq, Prod.mk.injEq] at h
      rw [← h.2]
      exact Nat.le_succ _
  | case3 c cs _ ih =>
      obtain ⟨⟨t, r⟩, htr, he⟩ := Option.map_eq_some_iff.mp h
      simp only [Prod.mk.injEq] at he
      rw [he.2] at htr
      exact Nat.le_trans (ih htr) (by simp)

theorem length_value {cs rest : List Char} {a : Argument} (h : value cs = .ok (a, rest)) :
    rest.length ≤ cs.length := by
  unfold value at h
  split at h
  · split at h
    · rename_i hp
      simp only [Except.ok.injEq, Prod.mk.injEq] at h
      rw [← h.2]
      exact Nat.le_trans (length_plainText? hp) (Nat.le_succ _)
    · simp at h
  · split at h
    · rename_i hp
      simp only [Except.ok.injEq, Prod.mk.injEq] at h
      rw [← h.2]
      exact Nat.le_trans (length_rawText? hp) (Nat.le_succ _)
    · simp at h
  · unfold bareValue at h
    dsimp only at h
    split at h
    · simp at h
    · split at h
      · simp at h
      · simp only [Except.ok.injEq, Prod.mk.injEq] at h
        rw [← h.2]
        exact (List.dropWhile_sublist _).length_le

theorem length_key? {cs name rest : List Char} (h : key? cs = some (name, rest)) :
    rest.length ≤ cs.length := by
  unfold key? at h
  dsimp only at h
  split at h
  · simp at h
  · split at h
    · rename_i r hr
      simp only [Option.some.injEq, Prod.mk.injEq] at h
      have h1 := length_trimStart (cs.dropWhile isNameChar)
      have h2 := (List.dropWhile_sublist (l := cs) isNameChar).length_le
      rw [hr, List.length_cons] at h1
      rw [← h.2]
      omega
    · simp at h

theorem length_item {cs rest : List Char} {i : Option String × Argument}
    (h : item cs = .ok (i, rest)) : rest.length ≤ cs.length := by
  unfold item at h
  have hval : ∀ {start : List Char} {k : Option String}, start.length ≤ cs.length →
      (value (trimStart start)).map (fun (v, rest) => ((k, v), rest)) = .ok (i, rest) →
      rest.length ≤ cs.length := by
    intro start k hs hm
    cases hv : value (trimStart start) with
    | error e => rw [hv] at hm; simp [Except.map] at hm
    | ok vr =>
        rw [hv] at hm
        simp only [Except.map, Except.ok.injEq, Prod.mk.injEq] at hm
        have h1 : vr.2.length ≤ (trimStart start).length := length_value hv
        have h2 := length_trimStart start
        rw [← hm.2]
        omega
  cases hk : key? cs with
  | none =>
      rw [hk] at h
      exact hval (Nat.le_refl _) h
  | some nr =>
      obtain ⟨name, r⟩ := nr
      rw [hk] at h
      exact hval (length_key? hk) h

theorem length_item_rest {cs start rest more : List Char} {c : Char}
    {i : Option String × Argument} (ht : trimStart cs = start) (hi : item start = .ok (i, rest))
    (hr : trimStart rest = c :: more) : more.length < cs.length := by
  have h1 := length_trimStart cs
  have h2 := length_item hi
  have h3 := length_trimStart rest
  rw [ht] at h1
  rw [hr, List.length_cons] at h3
  omega

/-- The items of an argument list.  A comma may stand behind the last one. -/
def items (cs : List Char) : Except DirectiveError (List (Option String × Argument)) :=
  match ht : trimStart cs with
  | [] => .ok []
  | d :: ds =>
      match hi : item (d :: ds) with
      | .error e => .error e
      | .ok (first, rest) =>
          match hr : trimStart rest with
          | [] => .ok [first]
          | c :: more =>
              have := length_item_rest ht hi hr
              if c = ',' then (first :: ·) <$> items more
              else .error (.unexpectedCharacter c)
termination_by cs.length

/-! ## Shape of the list -/

/-- The first key that stands twice in a list, seen from the left. -/
def repeatedKey? (seen : List String) : List (String × Argument) → Option String
  | [] => Option.none
  | (key, _) :: rest =>
      if key ∈ seen then some key else repeatedKey? (key :: seen) rest

/-- Items as arguments: either all have a key or none has, and no key stands twice. -/
def ofItems (items : List (Option String × Argument)) : Except DirectiveError Arguments :=
  let pairs := items.filterMap fun (key, value) => key.map (·, value)
  if items.isEmpty then .ok .none
  else if pairs.isEmpty then .ok (.positional (items.map (·.2)))
  else if pairs.length = items.length then
    match repeatedKey? [] pairs with
    | some key => .error (.duplicateArgument key)
    | Option.none => .ok (.named pairs)
  else .error .mixedForms

/-- Reads the text behind the name of a directive. -/
def parse : List Char → Except DirectiveError Arguments
  | '(' :: rest => do
      let inner ← enclosed .list 0 rest
      ofItems (← items inner)
  | _ => .ok .none

end Arguments

end ServiceWiring
