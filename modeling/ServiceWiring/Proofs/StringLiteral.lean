import ServiceWiring.Proofs.ArgumentItems
import ServiceWiring.Proofs.NumberLiteral

/-!
# The string literals of Go

Which texts are string literals, and the bytes that they stand for.  Inside double quotes escapes
stand for single bytes or for code points; between backticks everything stands for itself.

* `Arguments.escaped`, `Arguments.IsPlainText.cut` — the escaped characters of a text, and what a
  cut in front of another character keeps;
* `StringLiteral.IsToken` — one complete literal, whatever stands behind its backslashes;
* `StringLiteral.escape?`, `StringLiteral.value?` — the bytes of an escape and of a literal;
* `StringLiteral.value?_quoteChars` — a text that is quoted afresh stands for itself;
* `StringLiteral.unescape?_self_iff` — texts that stand for themselves between double quotes.
-/

namespace ServiceWiring

open Text Number Arguments

namespace Arguments

variable {front behind text : List Char}

/-! ## Cuts in the text of a literal -/

/-- The characters of a text that stand behind a backslash which escapes them. -/
def escaped : List Char → List Char
  | '\\' :: c :: cs => c :: escaped cs
  | _ :: cs => escaped cs
  | [] => []

theorem escaped_char {c : Char} (hc : c ≠ '\\') (cs : List Char) :
    escaped (c :: cs) = escaped cs := by
  rw [escaped]
  intro d ds hcons
  exact absurd hcons hc

/-- A cut either keeps both sides, or stands between a backslash and the character behind it. -/
theorem IsPlainText.cut (h : IsPlainText (front ++ behind)) :
    IsPlainText front ∧ IsPlainText behind ∧ escaped behind ⊆ escaped (front ++ behind)
      ∨ front.getLast? = some '\\' ∧ ∃ c more, behind = c :: more
          ∧ c ∈ escaped (front ++ behind) := by
  generalize htext : front ++ behind = text at h
  induction h generalizing front with
  | nil =>
      obtain ⟨rfl, rfl⟩ := List.append_eq_nil_iff.mp htext
      exact .inl ⟨.nil, .nil, List.Subset.refl _⟩
  | @escape c cs h ih =>
      match front with
      | [] =>
          obtain rfl : behind = '\\' :: c :: cs := htext
          exact .inl ⟨.nil, .escape c h, List.Subset.refl _⟩
      | [d] =>
          -- the cut stands between the backslash and what it escapes
          obtain ⟨rfl, rfl⟩ := List.cons.inj htext
          exact .inr ⟨rfl, c, cs, rfl, List.mem_cons_self ..⟩
      | d :: e :: front =>
          obtain ⟨rfl, hbehind⟩ := List.cons.inj htext
          obtain ⟨rfl, hrest⟩ := List.cons.inj hbehind
          rcases ih hrest with ⟨hfront, hbehind, hsub⟩ | ⟨hlast, d, more, hmore, hd⟩
          · exact .inl ⟨.escape _ hfront, hbehind, List.subset_cons_of_subset _ hsub⟩
          · refine .inr ⟨?_, d, more, hmore, List.mem_cons_of_mem _ hd⟩
            rw [List.getLast?_cons, List.getLast?_cons, hlast]
            rfl
  | @char c hescape hquote cs h ih =>
      cases front with
      | nil =>
          obtain rfl : behind = c :: cs := htext
          exact .inl ⟨.nil, .char hescape hquote h, List.Subset.refl _⟩
      | cons d front =>
          obtain ⟨rfl, hrest⟩ := List.cons.inj htext
          rw [escaped_char hescape]
          rcases ih hrest with ⟨hfront, hbehind, hsub⟩ | ⟨hlast, hmore⟩
          · exact .inl ⟨.char hescape hquote hfront, hbehind, hsub⟩
          · refine .inr ⟨?_, hmore⟩
            rw [List.getLast?_cons, hlast]
            rfl

/-- Between two cuts that separate no backslash from its character stands a plain text. -/
theorem IsPlainText.between (h : IsPlainText (front ++ (text ++ behind)))
    (hfront : front.getLast? ≠ some '\\')
    (hbehind : ∀ c ∈ behind.head?, c ∉ escaped (front ++ (text ++ behind))) :
    IsPlainText text := by
  rcases h.cut with ⟨-, h, hsub⟩ | ⟨hlast, -⟩
  · rcases h.cut with ⟨h, -, -⟩ | ⟨-, c, more, rfl, hc⟩
    · exact h
    · exact absurd (hsub hc) (hbehind c rfl)
  · exact absurd hlast hfront

end Arguments

namespace StringLiteral

variable {cs text : List Char} {bytes : List UInt8} {c : Char} {n skip : ℕ}

/-! ## Complete literals -/

/-- A complete literal: the first closing quote that is not escaped is the last character. -/
inductive IsToken : List Char → Prop where
  | interpreted {text : List Char} (h : IsPlainText text) : IsToken ('"' :: (text ++ ['"']))
  | raw {text : List Char} (h : '\x60' ∉ text) : IsToken ('\x60' :: (text ++ ['\x60']))

theorem isToken_plain_iff : IsToken ('"' :: (text ++ ['"'])) ↔ IsPlainText text := by
  constructor
  · intro h
    generalize hcs : '"' :: (text ++ ['"']) = cs at h
    cases h with
    | interpreted h =>
        have htext := (List.append_inj_left' (List.cons.inj hcs).2 rfl)
        rwa [htext]
    | raw _ => exact absurd (List.cons.inj hcs).1 (by decide)
  · exact .interpreted

/-! ## Values -/

/-- The bytes of a text. -/
def utf8 (cs : List Char) : List UInt8 :=
  cs.flatMap String.utf8EncodeChar

/-- The escapes of one letter, with the bytes that they stand for. -/
def simpleEscapes : List (Char × UInt8) :=
  [('a', 7), ('b', 8), ('f', 12), ('n', 10), ('r', 13), ('t', 9), ('v', 11), ('\\', 92), ('"', 34)]

/-- The number that the first digits of a text stand for. -/
def number? (base width : ℕ) (cs : List Char) : Option ℕ :=
  if width ≤ cs.length then
    (cs.take width).foldlM (fun n c => do
      let d ← digitOf c
      if d < base then some (base * n + d) else none) 0
  else none

/-- The byte of a number. -/
def byte? (n : ℕ) : Option (List UInt8) :=
  if n < 256 then some [UInt8.ofNat n] else none

/-- The bytes of a code point. -/
def codePoint? (n : ℕ) : Option (List UInt8) :=
  if n.isValidChar then some (String.utf8EncodeChar (Char.ofNat n)) else none

/-- The bytes of the escape behind a backslash, and how many characters it has. -/
def escape? : List Char → Option (List UInt8 × ℕ)
  | [] => none
  | c :: cs =>
      match simpleEscapes.lookup c with
      | some byte => some ([byte], 1)
      | Option.none =>
          if c = 'x' then ((number? 16 2 cs).bind byte?).map (·, 3)
          else if c = 'u' then ((number? 16 4 cs).bind codePoint?).map (·, 5)
          else if c = 'U' then ((number? 16 8 cs).bind codePoint?).map (·, 9)
          else ((number? 8 3 (c :: cs)).bind byte?).map (·, 3)

/-- The bytes of a text between double quotes; `skip` characters still belong to the escape just
    met. -/
def unescapeFrom : ℕ → List Char → Option (List UInt8)
  | 0, [] => some []
  | _ + 1, [] => none
  | skip + 1, _ :: cs => unescapeFrom skip cs
  | 0, c :: cs =>
      if c = '\\' then
        match escape? cs with
        | some (bytes, length) => (unescapeFrom length cs).map (bytes ++ ·)
        | Option.none => none
      else if c = '"' ∨ c = '\n' then none
      else (unescapeFrom 0 cs).map (String.utf8EncodeChar c ++ ·)

/-- The bytes of a text between double quotes. -/
def unescape? (text : List Char) : Option (List UInt8) :=
  unescapeFrom 0 text

/-- The bytes that a literal stands for.  Between backticks, carriage returns are left out. -/
def value? : List Char → Option (List UInt8)
  | '"' :: rest => if rest.getLast? = some '"' then unescape? rest.dropLast else none
  | '\x60' :: rest =>
      if rest.getLast? = some '\x60' ∧ '\x60' ∉ rest.dropLast then
        some (utf8 (rest.dropLast.filter (· ≠ '\r')))
      else none
  | _ => none

theorem value?_plain (text : List Char) : value? ('"' :: (text ++ ['"'])) = unescape? text := by
  rw [value?, List.getLast?_concat, if_pos rfl, List.dropLast_concat]

/-! ## Quoting afresh -/

theorem unescapeFrom_escapeChar (c : Char) (cs : List Char) :
    unescapeFrom 0 (escapeChar c ++ cs)
      = (unescapeFrom 0 cs).map (String.utf8EncodeChar c ++ ·) := by
  by_cases hquote : c = '"'
  · subst hquote
    rfl
  by_cases hescape : c = '\\'
  · subst hescape
    rfl
  by_cases hline : c = '\n'
  · subst hline
    rfl
  by_cases htab : c = '\t'
  · subst htab
    rfl
  have hplain : escapeChar c = [c] := by
    rw [escapeChar, if_neg hquote, if_neg hescape, if_neg hline, if_neg htab]
  rw [hplain, List.singleton_append, unescapeFrom, if_neg hescape, if_neg (by simp [hquote, hline])]

/-- A text that is quoted afresh stands for itself. -/
theorem value?_quoteChars (cs : List Char) : value? (quoteChars cs) = some (utf8 cs) := by
  rw [quoteChars, value?_plain, unescape?]
  induction cs with
  | nil => rfl
  | cons c cs ih =>
      rw [List.flatMap_cons, unescapeFrom_escapeChar, ih]
      rfl

/-! ## Lengths -/

theorem length_byte? (h : byte? n = some bytes) : bytes.length = 1 := by
  unfold byte? at h
  split at h
  · rw [← Option.some.inj h]
    rfl
  · cases h

theorem length_codePoint? (h : codePoint? n = some bytes) : bytes.length ≤ 4 := by
  unfold codePoint? at h
  split at h
  · rw [← Option.some.inj h, String.length_utf8EncodeChar]
    exact Char.utf8Size_le_four _
  · cases h

/-- An escape of some digits behind `front` characters. -/
theorem length_of_number? (front : ℕ) {base width : ℕ} {f : ℕ → Option (List UInt8)}
    (hf : ∀ n bytes, f n = some bytes → bytes.length ≤ width)
    (h : ((number? base width cs).bind f).map (·, front + width) = some (bytes, n)) :
    bytes.length ≤ n ∧ n ≤ front + cs.length := by
  obtain ⟨bytes', hbytes, hpair⟩ := Option.map_eq_some_iff.mp h
  obtain ⟨rfl, rfl⟩ := Prod.mk.inj hpair
  obtain ⟨value, hvalue, hbytes⟩ := Option.bind_eq_some_iff.mp hbytes
  have hlength := hf value _ hbytes
  unfold number? at hvalue
  split at hvalue
  · omega
  · cases hvalue

/-- An escape has at least as many characters behind its backslash as it stands for bytes. -/
theorem length_escape? (h : escape? cs = some (bytes, n)) :
    bytes.length ≤ n ∧ n ≤ cs.length := by
  have hbyte : ∀ {width : ℕ}, 1 ≤ width → ∀ n bytes, byte? n = some bytes →
      bytes.length ≤ width := by
    intro width hwidth n bytes hbytes
    exact (length_byte? hbytes).trans_le hwidth
  have hpoint : ∀ {width : ℕ}, 4 ≤ width → ∀ n bytes, codePoint? n = some bytes →
      bytes.length ≤ width := by
    intro width hwidth n bytes hbytes
    exact (length_codePoint? hbytes).trans hwidth
  cases cs with
  | nil => cases h
  | cons c cs =>
      rw [List.length_cons, Nat.add_comm]
      rw [escape?] at h
      split at h
      · obtain ⟨rfl, rfl⟩ := Prod.mk.inj (Option.some.inj h)
        exact ⟨Nat.le_refl 1, Nat.le_add_right 1 _⟩
      · split at h
        · exact length_of_number? 1 (hbyte (by decide)) h
        · split at h
          · exact length_of_number? 1 (hpoint (by decide)) h
          · split at h
            · exact length_of_number? 1 (hpoint (by decide)) h
            · have hoctal := length_of_number? 0 (hbyte (by decide)) h
              rw [List.length_cons] at hoctal
              omega

theorem utf8_append (cs ds : List Char) : utf8 (cs ++ ds) = utf8 cs ++ utf8 ds :=
  List.flatMap_append

theorem length_utf8_cons (c : Char) (cs : List Char) :
    (utf8 (c :: cs)).length = c.utf8Size + (utf8 cs).length := by
  rw [utf8, List.flatMap_cons, List.length_append, String.length_utf8EncodeChar]
  rfl

theorem length_le_length_utf8 (cs : List Char) : cs.length ≤ (utf8 cs).length := by
  induction cs with
  | nil => exact Nat.le_refl 0
  | cons c cs ih =>
      have hpos := Char.utf8Size_pos c
      rw [length_utf8_cons, List.length_cons]
      omega

/-- Every escape is longer than what it stands for. -/
theorem length_unescapeFrom (h : unescapeFrom skip cs = some bytes) :
    bytes.length ≤ (utf8 (cs.drop skip)).length
      ∧ ('\\' ∈ cs.drop skip → bytes.length < (utf8 (cs.drop skip)).length) := by
  induction cs generalizing skip bytes with
  | nil =>
      cases skip with
      | zero =>
          obtain rfl := Option.some.inj h
          exact ⟨Nat.zero_le _, fun hmem => nomatch hmem⟩
      | succ skip => cases h
  | cons c cs ih =>
      cases skip with
      | succ skip => exact ih h
      | zero =>
          rw [List.drop_zero, length_utf8_cons]
          have hpos := Char.utf8Size_pos c
          rw [unescapeFrom] at h
          split at h
          · split at h
            · rename_i escaped length hescape
              obtain ⟨more, hmore, rfl⟩ := Option.map_eq_some_iff.mp h
              obtain ⟨hescaped, hlength⟩ := length_escape? hescape
              have hbehind := (ih hmore).1
              have hsplit : (utf8 cs).length
                  = (utf8 (cs.take length)).length + (utf8 (cs.drop length)).length := by
                rw [← List.length_append, ← utf8_append, List.take_append_drop]
              -- the backslash is what the escape is longer by
              have htake := length_le_length_utf8 (cs.take length)
              rw [List.length_take, Nat.min_eq_left hlength] at htake
              rw [List.length_append]
              exact ⟨by omega, fun _ => by omega⟩
            · cases h
          · rename_i hne
            split at h
            · cases h
            · obtain ⟨more, hmore, rfl⟩ := Option.map_eq_some_iff.mp h
              obtain ⟨hle, hlt⟩ := ih hmore
              rw [List.drop_zero] at hle hlt
              rw [List.length_append, String.length_utf8EncodeChar]
              refine ⟨by omega, fun hmem => ?_⟩
              have hbehind := hlt ((List.mem_cons.mp hmem).resolve_left (Ne.symm hne))
              omega

theorem unescapeFrom_of_not_mem (hnone : '\\' ∉ cs) (h : unescapeFrom 0 cs = some bytes) :
    bytes = utf8 cs := by
  induction cs generalizing bytes with
  | nil => exact (Option.some.inj h).symm
  | cons c cs ih =>
      obtain ⟨hne, hcs⟩ := not_or.mp fun hmem => hnone (List.mem_cons.mpr hmem)
      rw [unescapeFrom, if_neg (Ne.symm hne)] at h
      split at h
      · cases h
      · obtain ⟨more, hmore, rfl⟩ := Option.map_eq_some_iff.mp h
        rw [ih hcs hmore]
        rfl

/-- A text between double quotes stands for itself exactly if it has no backslash. -/
theorem unescape?_self_iff (h : unescape? text = some bytes) :
    bytes = utf8 text ↔ '\\' ∉ text := by
  constructor
  · rintro rfl hmem
    exact absurd ((length_unescapeFrom h).2 hmem) (Nat.lt_irrefl _)
  · intro hnone
    exact unescapeFrom_of_not_mem hnone h

end StringLiteral

end ServiceWiring
