import ServiceWiring.Json.Parser
import ServiceWiring.Json.Printer
import ServiceWiring.Proofs.Text

/-!
# JSON texts are read back

What is written as JSON is read back as it was.  The reader works token by token, so the proof
follows the text from the left: `JsonReader.read` is the reader in the middle of a text, and every
piece that the writer puts down moves it from one state to the next.

* `JsonToken.next?_quoted`, `JsonToken.next?_decimal` — strings and numbers;
* `JsonReader.read_token` — one token, behind any gap;
* `JsonReader.read_write` — a whole value, by induction on it;
* `JsonValue.parse?_pretty` — the text of a value is read back.
-/

namespace ServiceWiring

/-! ## Strings -/

namespace JsonToken

/-- The unit that a character is written as. -/
def unitOf (c : Char) : StringUnit :=
  if c.toNat < 0x20 ∧ c ∉ ['\x08', '\x0c', '\n', '\r', '\t'] then .unit c.toNat else .char c

theorem hexDigit?_hexDigit {n : Nat} (h : n < 16) : hexDigit? (JsonValue.hexDigit n) = some n := by
  revert n
  decide

theorem stringUnits?_short {e c : Char} (he : e ≠ 'u') (h : shortEscape? e = some c)
    (rest : List Char) :
    stringUnits? ('\\' :: e :: rest) = (stringUnits? rest).map fun p => (.char c :: p.1, p.2) := by
  rw [stringUnits?]
  · rw [h]
    cases stringUnits? rest with
    | none => rfl
    | some p => rfl
  · intro a b c d cs hu
    exact absurd hu he

theorem stringUnits?_unit {a b c d : Char} {n : Nat} (h : hexUnit? a b c d = some n)
    (rest : List Char) :
    stringUnits? ('\\' :: 'u' :: a :: b :: c :: d :: rest)
      = (stringUnits? rest).map fun p => (.unit n :: p.1, p.2) := by
  rw [stringUnits?, h]
  cases stringUnits? rest with
  | none => rfl
  | some p => rfl

theorem stringUnits?_plain {c : Char} (hquote : c ≠ '"') (hslash : c ≠ '\\')
    (hplain : ¬ c.toNat < 0x20) (rest : List Char) :
    stringUnits? (c :: rest) = (stringUnits? rest).map fun p => (.char c :: p.1, p.2) := by
  rw [stringUnits?]
  · simp [hslash, hplain]
  · exact hquote
  · intro a b c d cs hc
    exact absurd hc hslash
  · intro e cs hc
    exact absurd hc hslash

/-- Every character is read back as the unit it is written as. -/
theorem stringUnits?_escapeChar (c : Char) (rest : List Char) :
    stringUnits? (JsonValue.escapeChar c ++ rest)
      = (stringUnits? rest).map fun p => (unitOf c :: p.1, p.2) := by
  unfold JsonValue.escapeChar
  by_cases hquote : c = '"'
  · subst hquote
    exact stringUnits?_short (by decide) rfl rest
  by_cases hslash : c = '\\'
  · subst hslash
    exact stringUnits?_short (by decide) rfl rest
  by_cases hb : c = '\x08'
  · subst hb
    exact stringUnits?_short (by decide) rfl rest
  by_cases hf : c = '\x0c'
  · subst hf
    exact stringUnits?_short (by decide) rfl rest
  by_cases hn : c = '\n'
  · subst hn
    exact stringUnits?_short (by decide) rfl rest
  by_cases hr : c = '\r'
  · subst hr
    exact stringUnits?_short (by decide) rfl rest
  by_cases ht : c = '\t'
  · subst ht
    exact stringUnits?_short (by decide) rfl rest
  simp only [hquote, hslash, hb, hf, hn, hr, ht, if_false]
  by_cases hcontrol : c.toNat < 0x20
  · have hunit : unitOf c = .unit c.toNat := by
      simp [unitOf, hcontrol, hb, hf, hn, hr, ht]
    have hhex : hexUnit? '0' '0' (JsonValue.hexDigit (c.toNat / 16))
        (JsonValue.hexDigit (c.toNat % 16)) = some c.toNat := by
      have hhigh : c.toNat / 16 < 16 := by omega
      have hlow : c.toNat % 16 < 16 := by omega
      have hsum : c.toNat / 16 * 16 + c.toNat % 16 = c.toNat := by omega
      simp [hexUnit?, hexDigit?_hexDigit hhigh, hexDigit?_hexDigit hlow,
        show hexDigit? '0' = some 0 from rfl, hsum]
    rw [if_pos hcontrol, hunit]
    exact stringUnits?_unit hhex rest
  · have hunit : unitOf c = .char c := by
      simp [unitOf, hcontrol]
    rw [if_neg hcontrol, hunit]
    exact stringUnits?_plain hquote hslash hcontrol rest

theorem stringUnits?_escaped (cs rest : List Char) :
    stringUnits? (cs.flatMap JsonValue.escapeChar ++ '"' :: rest)
      = some (cs.map unitOf, rest) := by
  induction cs with
  | nil => rfl
  | cons c cs ih =>
      rw [List.flatMap_cons, List.append_assoc, stringUnits?_escapeChar, ih]
      rfl

theorem unitsText?_map_unitOf (cs : List Char) : unitsText? (cs.map unitOf) = some cs := by
  induction cs with
  | nil => rfl
  | cons c cs ih =>
      rw [List.map_cons]
      by_cases hc : c.toNat < 0x20 ∧ c ∉ ['\x08', '\x0c', '\n', '\r', '\t']
      · -- a control character stands for itself: it is no surrogate
        have hhigh : ¬ (0xD800 ≤ c.toNat) := by omega
        have hlow : ¬ (0xDC00 ≤ c.toNat) := by omega
        rw [unitOf, if_pos hc]
        cases cs with
        | nil => simp [unitsText?, hhigh, Char.ofNat_toNat]
        | cons d cs =>
            rw [List.map_cons] at ih ⊢
            cases hd : unitOf d with
            | char e =>
                rw [hd] at ih
                simp [unitsText?, hhigh, Char.ofNat_toNat] at ih ⊢
                exact ih
            | unit n =>
                rw [hd] at ih
                rw [unitsText?]
                simp [hhigh, hlow, ih, Char.ofNat_toNat]
      · rw [unitOf, if_neg hc, unitsText?, ih]
        rfl

/-- A written string is read as one token. -/
theorem next?_quoted (text : String) (rest : List Char) :
    next? (JsonValue.quoted text ++ rest) = some (.string (some text), rest) := by
  show next? ('"' :: (text.toList.flatMap JsonValue.escapeChar ++ ['"'] ++ rest)) = _
  rw [List.append_assoc, List.singleton_append, next?, stringUnits?_escaped]
  simp [unitsText?_map_unitOf]

/-! ## Numbers -/

/-- A natural number in decimal: a zero, or digits that do not start with one. -/
def IsDecimal (text : List Char) : Prop :=
  text = ['0'] ∨ (text ≠ [] ∧ text.head? ≠ some '0' ∧ ∀ c ∈ text, c.isDigit = true)

/-- Whether a number ends in front of a text. -/
def Stops (rest : List Char) : Prop :=
  ∀ c, rest.head? = some c → c.isDigit = false ∧ c ≠ '.' ∧ c ≠ 'e' ∧ c ≠ 'E'

theorem stops_cons {c : Char} {rest : List Char}
    (h : c.isDigit = false ∧ c ≠ '.' ∧ c ≠ 'e' ∧ c ≠ 'E') : Stops (c :: rest) := by
  intro d hd
  rw [← Option.some.inj hd]
  exact h

theorem Stops.not_digit {rest : List Char} (h : Stops rest) :
    rest.head?.all (!Char.isDigit ·) = true := by
  cases rest with
  | nil => rfl
  | cons c rest =>
      show (!c.isDigit) = true
      rw [(h c rfl).1]
      rfl

theorem unsignedNumber?_decimal {text rest : List Char} (h : IsDecimal text)
    (hrest : Stops rest) : unsignedNumber? (text ++ rest) = some (text, rest) := by
  have hwhole : integerPart? (text ++ rest) = some (text, rest) := by
    rcases h with rfl | ⟨hne, hzero, hdigits⟩
    · rfl
    · cases text with
      | nil => exact absurd rfl hne
      | cons c text =>
          have hc : c ≠ '0' := fun hc => hzero (congrArg some hc)
          rw [integerPart?]
          · rw [digits?, Text.takeWhile_run hdigits hrest.not_digit,
              Text.dropWhile_run hdigits hrest.not_digit]
            rfl
          · intro cs hcs
            exact absurd (List.cons.inj hcs).1 hc
  have hfraction : fraction? rest = some ([], rest) := by
    cases rest with
    | nil => rfl
    | cons c rest =>
        have hc := (hrest c rfl).2.1
        rw [fraction?]
        intro cs hcs
        exact absurd (List.cons.inj hcs).1 hc
  have hexponent : exponent? rest = some ([], rest) := by
    cases rest with
    | nil => rfl
    | cons c rest =>
        have hc := (hrest c rfl).2.2
        simp [exponent?, hc.1, hc.2]
  simp [unsignedNumber?, hwhole, hfraction, hexponent]

theorem IsDecimal.exists_cons {text : List Char} (h : IsDecimal text) :
    ∃ c more, text = c :: more ∧ c.isDigit = true := by
  rcases h with rfl | ⟨hne, -, hdigits⟩
  · exact ⟨'0', [], rfl, rfl⟩
  · cases text with
    | nil => exact absurd rfl hne
    | cons c more => exact ⟨c, more, rfl, hdigits c (List.mem_cons_self ..)⟩

/-- A written number is read as one token. -/
theorem next?_decimal {text rest : List Char} (h : IsDecimal text) (hrest : Stops rest) :
    next? (text ++ rest) = some (.number text, rest) := by
  have hnumber := unsignedNumber?_decimal h hrest
  obtain ⟨c, more, rfl, hdigit⟩ := h.exists_cons
  have hne : ∀ d : Char, d.isDigit = false → c ≠ d := by
    rintro d hd rfl
    rw [hd] at hdigit
    cases hdigit
  rw [List.cons_append] at hnumber ⊢
  have hpunctuation : punctuation? c = none := by
    simp [punctuation?, List.lookup_eq_none_iff, hne _ _]
  -- a digit starts neither a word nor a string
  rw [next?]
  · rw [hpunctuation]
    dsimp only
    rw [number?]
    · rw [hnumber]
      rfl
    · intro cs hcs
      exact absurd (List.cons.inj hcs).1 (hne '-' rfl)
  · intro cs hc
    exact absurd hc (hne 'n' rfl)
  · intro cs hc
    exact absurd hc (hne 't' rfl)
  · intro cs hc
    exact absurd hc (hne 'f' rfl)
  · exact hne '"' rfl

end JsonToken

/-! ## Values -/

namespace JsonValue

mutual

/-- Whether a value is one that the writer keeps: its strings and keys have a value, and its
    numbers are natural. -/
def IsWritable : JsonValue → Prop
  | .null => True
  | .bool _ => True
  | .number text => JsonToken.IsDecimal text
  | .string text => text.isSome
  | .array items => AreWritable items
  | .object fields => AreWritableFields fields

/-- Whether all items of an array are writable. -/
def AreWritable : List JsonValue → Prop
  | [] => True
  | item :: items => item.IsWritable ∧ AreWritable items

/-- Whether all fields of an object are writable. -/
def AreWritableFields : List (Option String × JsonValue) → Prop
  | [] => True
  | (key, v) :: fields => key.isSome ∧ v.IsWritable ∧ AreWritableFields fields

end

/-- Entries that are written behind the first one. -/
def writeMore (depth : Nat) (entries : List (List Char)) : List Char :=
  entries.flatMap fun entry => ',' :: (newLine depth ++ entry)

theorem bracketed_cons (opening closing : Char) (depth : Nat) (entry : List Char)
    (entries : List (List Char)) :
    bracketed opening closing depth (entry :: entries)
      = opening :: (newLine (depth + 1) ++ (entry
        ++ (writeMore (depth + 1) entries ++ (newLine depth ++ [closing])))) := by
  simp [bracketed, Text.intercalate_eq_append, writeMore, List.flatMap_map]

theorem isGap_newLine (depth : Nat) : ∀ c ∈ newLine depth, JsonToken.isGap c = true := by
  intro c hc
  rcases List.mem_cons.mp hc with rfl | hc
  · rfl
  · rw [List.eq_of_mem_replicate hc]
    rfl

theorem stops_newLine (depth : Nat) (rest : List Char) :
    JsonToken.Stops (newLine depth ++ rest) :=
  JsonToken.stops_cons (by decide)

/-- What follows an entry ends a number. -/
theorem stops_writeMore (depth : Nat) (entries : List (List Char)) (more : Nat)
    (rest : List Char) :
    JsonToken.Stops (writeMore depth entries ++ (newLine more ++ rest)) := by
  cases entries with
  | nil => exact stops_newLine more rest
  | cons entry entries => exact JsonToken.stops_cons (by decide)

end JsonValue

namespace JsonReader

open JsonToken JsonValue

/-- The reader in the middle of a text. -/
def read (due : Due) (frames : List Frame) (cs : List Char) : Option JsonValue :=
  (scan? cs).bind (run due frames)

/-- One token, behind any gap, moves the reader on. -/
theorem read_token {due due' : Due} {frames frames' : List Frame} {gap body rest : List Char}
    {token : JsonToken} (hgap : ∀ c ∈ gap, isGap c = true)
    (hstart : body.dropWhile isGap = body) (hnext : next? body = some (token, rest))
    (hshort : rest.length < body.length) (hstep : step due frames token = some (due', frames')) :
    read due frames (gap ++ body) = read due' frames' rest := by
  have hdrop : (gap ++ body).dropWhile isGap = body := by
    rw [List.dropWhile_append_of_pos hgap, hstart]
  have hne : body.isEmpty = false := by
    cases body with
    | nil => exact absurd hshort (Nat.not_lt_zero _)
    | cons c body => rfl
  have hlength : rest.length < (gap ++ body).length := by
    rw [List.length_append]
    omega
  have hscan : scan? (gap ++ body) = (scan? rest).map (token :: ·) := by
    rw [scan?]
    simp only [hdrop, hne, hnext, dif_pos hlength, Bool.false_eq_true, if_false]
  rw [read, hscan, read]
  cases scan? rest with
  | none => rfl
  | some tokens =>
      show run due frames (token :: tokens) = run due' frames' tokens
      rw [run, hstep]

/-- A punctuation character moves the reader on. -/
theorem read_punctuation {due due' : Due} {frames frames' : List Frame} {gap rest : List Char}
    {c : Char} {token : JsonToken} (hgap : ∀ c ∈ gap, isGap c = true) (hc : isGap c = false)
    (hnext : next? (c :: rest) = some (token, rest))
    (hstep : step due frames token = some (due', frames')) :
    read due frames (gap ++ c :: rest) = read due' frames' rest := by
  refine read_token hgap ?_ hnext ?_ hstep
  · rw [List.dropWhile_cons, hc]
    rfl
  · exact Nat.lt_succ_self _

theorem read_punctuation_here {due due' : Due} {frames frames' : List Frame} {rest : List Char}
    {c : Char} {token : JsonToken} (hc : isGap c = false)
    (hnext : next? (c :: rest) = some (token, rest))
    (hstep : step due frames token = some (due', frames')) :
    read due frames (c :: rest) = read due' frames' rest := by
  have hgap : ∀ d ∈ ([] : List Char), isGap d = true := fun _ hd => nomatch hd
  exact read_punctuation hgap hc hnext hstep

/-- Whether a value is due, to become part of the given open arrays and objects. -/
def Awaits (due : Due) (frames base : List Frame) : Prop :=
  ∀ token, token ≠ .closeBracket → step due frames token = (startValue token).map (·, base)

theorem awaits_value (frames : List Frame) : Awaits .value frames frames :=
  fun _ _ => rfl

theorem awaits_firstItem (frames : List Frame) :
    Awaits .firstItem frames (.array [] :: frames) := by
  intro token h
  cases token with
  | closeBracket => exact absurd rfl h
  | _ => rfl

/-- A number moves the reader on. -/
theorem read_decimal {due due' : Due} {frames frames' : List Frame} {gap text rest : List Char}
    (hgap : ∀ c ∈ gap, isGap c = true) (h : IsDecimal text) (hrest : Stops rest)
    (hstep : step due frames (.number text) = some (due', frames')) :
    read due frames (gap ++ (text ++ rest)) = read due' frames' rest := by
  have hnext := next?_decimal h hrest
  obtain ⟨c, more, rfl, hdigit⟩ := h.exists_cons
  refine read_token hgap ?_ hnext ?_ hstep
  · have hc : isGap c = false := by
      rw [Bool.eq_false_iff]
      intro hc
      simp only [isGap, Bool.or_eq_true, beq_iff_eq] at hc
      rcases hc with ((rfl | rfl) | rfl) | rfl <;> cases hdigit
    rw [List.cons_append, List.dropWhile_cons, hc]
    rfl
  · rw [List.length_append]
    exact Nat.lt_add_of_pos_left (Nat.succ_pos _)

/-- A string moves the reader on. -/
theorem read_quoted {due due' : Due} {frames frames' : List Frame} {gap rest : List Char}
    (hgap : ∀ c ∈ gap, isGap c = true) (text : String)
    (hstep : step due frames (.string (some text)) = some (due', frames')) :
    read due frames (gap ++ (quoted text ++ rest)) = read due' frames' rest := by
  refine read_token hgap rfl (next?_quoted text rest) ?_ hstep
  rw [List.length_append]
  exact Nat.lt_add_of_pos_left (Nat.succ_pos _)

/-- A key with its colon moves the reader to the value. -/
theorem read_key {first : Bool} {done : Fields} {frames : List Frame} {gap rest : List Char}
    (hgap : ∀ c ∈ gap, isGap c = true) (key : String) :
    read (.key done first) frames (gap ++ (quoted key ++ ':' :: rest))
      = read .value (.object done (some key) :: frames) rest := by
  have hkey : read (.key done first) frames (gap ++ (quoted key ++ ':' :: rest))
      = read (.colon done (some key)) frames (':' :: rest) := read_quoted hgap key rfl
  rw [hkey]
  exact read_punctuation_here rfl rfl rfl

mutual

/-- A written value is read back, behind any gap and in front of anything that ends a number. -/
theorem read_write {due : Due} {frames base : List Frame} {rest : List Char} (v : JsonValue)
    (depth : Nat) (hv : v.IsWritable) (hdue : Awaits due frames base) (gap : List Char)
    (hgap : ∀ c ∈ gap, isGap c = true) (hrest : Stops rest) :
    read due frames (gap ++ (v.write depth ++ rest)) = read (.behind v) base rest := by
  match v with
  | .null =>
      refine read_token hgap rfl rfl ?_ (hdue .null (by decide))
      show rest.length < rest.length + 4
      omega
  | .bool true =>
      refine read_token hgap rfl rfl ?_ (hdue (.bool true) (by decide))
      show rest.length < rest.length + 4
      omega
  | .bool false =>
      refine read_token hgap rfl rfl ?_ (hdue (.bool false) (by decide))
      show rest.length < rest.length + 5
      omega
  | .number text =>
      rw [write]
      rw [IsWritable] at hv
      exact read_decimal hgap hv hrest (hdue _ (by simp))
  | .string none => cases hv
  | .string (some text) =>
      exact read_quoted hgap text (hdue (.string (some text)) (by simp))
  | .array [] =>
      have hopen : read due frames (gap ++ '[' :: ']' :: rest) = read .firstItem base (']' :: rest) :=
        read_punctuation hgap rfl rfl (hdue .openBracket (by decide))
      refine hopen.trans ?_
      exact read_punctuation_here rfl rfl rfl
  | .array (item :: items) =>
      have hopen : ∀ behind, read due frames (gap ++ '[' :: behind) = read .firstItem base behind :=
        fun behind => read_punctuation hgap rfl rfl (hdue .openBracket (by decide))
      rw [write, writeItems, bracketed_cons, List.cons_append, hopen]
      simp only [List.append_assoc, List.singleton_append]
      rw [read_write item (depth + 1) hv.1 (awaits_firstItem base) _ (isGap_newLine _)
        (stops_writeMore _ _ _ _)]
      exact read_writeItems items depth hv.2
  | .object [] =>
      have hopen : read due frames (gap ++ '\x7b' :: '\x7d' :: rest)
          = read (.key [] true) base ('\x7d' :: rest) :=
        read_punctuation hgap rfl rfl (hdue .openBrace (by decide))
      refine hopen.trans ?_
      exact read_punctuation_here rfl rfl rfl
  | .object ((none, _) :: _) => exact absurd hv.1 Bool.false_ne_true
  | .object ((some key, v) :: fields) =>
      have hopen : ∀ behind,
          read due frames (gap ++ '\x7b' :: behind) = read (.key [] true) base behind :=
        fun behind => read_punctuation hgap rfl rfl (hdue .openBrace (by decide))
      rw [write, writeFields, bracketed_cons, List.cons_append, hopen]
      simp only [List.append_assoc, List.cons_append, Option.getD_some]
      -- the key, then the value behind a blank, then the other fields
      rw [read_key (isGap_newLine _) key]
      refine (read_write v (depth + 1) hv.2.1 (awaits_value _) [' ']
        (List.forall_mem_singleton.mpr rfl) (stops_writeMore _ _ _ _)).trans ?_
      exact read_writeFields fields depth hv.2.2

/-- The items behind the first one, to the end of the array. -/
theorem read_writeItems {done : List JsonValue} {v : JsonValue} {frames : List Frame}
    {rest : List Char} (items : List JsonValue) (depth : Nat) (hitems : AreWritable items) :
    read (.behind v) (.array done :: frames)
        (writeMore (depth + 1) (writeItems (depth + 1) items) ++ (newLine depth ++ (']' :: rest)))
      = read (.behind (.array (done ++ v :: items))) frames rest := by
  match items with
  | [] => exact read_punctuation (isGap_newLine depth) rfl rfl rfl
  | item :: items =>
      have hcomma : ∀ behind, read (.behind v) (.array done :: frames) (',' :: behind)
          = read .value (.array (done ++ [v]) :: frames) behind :=
        fun behind => read_punctuation_here rfl rfl rfl
      rw [writeItems, writeMore, List.flatMap_cons, ← writeMore, List.cons_append,
        List.cons_append, hcomma]
      simp only [List.append_assoc]
      rw [read_write item (depth + 1) hitems.1 (awaits_value _) _ (isGap_newLine _)
        (stops_writeMore _ _ _ _), read_writeItems items depth hitems.2, List.append_assoc]
      rfl

/-- The fields behind the first one, to the end of the object. -/
theorem read_writeFields {done : Fields} {key : Option String} {v : JsonValue}
    {frames : List Frame} {rest : List Char} (fields : List (Option String × JsonValue))
    (depth : Nat) (hfields : AreWritableFields fields) :
    read (.behind v) (.object done key :: frames)
        (writeMore (depth + 1) (writeFields (depth + 1) fields)
          ++ (newLine depth ++ ('\x7d' :: rest)))
      = read (.behind (.object (done ++ (key, v) :: fields))) frames rest := by
  match fields with
  | [] => exact read_punctuation (isGap_newLine depth) rfl rfl rfl
  | (none, _) :: _ => exact absurd hfields.1 Bool.false_ne_true
  | (some next, value) :: fields =>
      have hcomma : ∀ behind, read (.behind v) (.object done key :: frames) (',' :: behind)
          = read (.key (done ++ [(key, v)]) false) frames behind :=
        fun behind => read_punctuation_here rfl rfl rfl
      rw [writeFields, writeMore, List.flatMap_cons, ← writeMore, List.cons_append,
        List.cons_append, hcomma]
      simp only [List.append_assoc, List.cons_append, Option.getD_some]
      rw [read_key (isGap_newLine _) next]
      refine (read_write value (depth + 1) hfields.2.1 (awaits_value _) [' ']
        (List.forall_mem_singleton.mpr rfl) (stops_writeMore _ _ _ _)).trans ?_
      rw [read_writeFields fields depth hfields.2.2, List.append_assoc]
      rfl

end

end JsonReader

/-- A written value is read back from its text, with a line end behind it. -/
theorem JsonValue.parse?_pretty {v : JsonValue} (h : v.IsWritable) :
    parse? (v.pretty ++ "\n") = some v := by
  have htext : (v.pretty ++ "\n").toList = [] ++ (v.write 0 ++ ['\n']) := by
    rw [pretty, String.toList_append, String.toList_ofList]
    rfl
  show JsonReader.read .value [] (v.pretty ++ "\n").toList = some v
  rw [htext, JsonReader.read_write v 0 h (JsonReader.awaits_value []) [] (fun _ hc => nomatch hc)
    (JsonToken.stops_cons (by decide))]
  rw [JsonReader.read, JsonToken.scan?]
  rfl

end ServiceWiring
