import Mathlib.Data.List.TakeWhile
import ServiceWiring.Directive.Argument
import ServiceWiring.Proofs.Text

/-!
# The items of an argument list

Which texts are read as which items.  A text may be spelled in many ways: with blanks around each
key and value, and with a comma behind the last one.  The reader takes exactly these spellings.

* `Text.AllBlank` — the gaps of a text;
* `Arguments.IsPlainText`, `Arguments.IsBareText`, `Arguments.IsKey` — the texts of values and keys;
* `Arguments.SpellsItem`, `Arguments.Spells` — the spellings of an item and of a list of items;
* `Arguments.items_eq_ok_iff` — a text is read as given items exactly if it spells them.
-/

namespace ServiceWiring

namespace Text

variable {gap cs : List Char}

/-! ## Gaps -/

/-- A text of blanks only. -/
def AllBlank (cs : List Char) : Prop :=
  ∀ c ∈ cs, isBlank c = true

theorem AllBlank.nil : AllBlank [] := by
  intro c hc
  cases hc

theorem AllBlank.append {gap' : List Char} (h : AllBlank gap) (h' : AllBlank gap') :
    AllBlank (gap ++ gap') := by
  intro c hc
  rcases List.mem_append.mp hc with hc | hc
  · exact h c hc
  · exact h' c hc

theorem AllBlank.trimStart_append (h : AllBlank gap) (cs : List Char) :
    trimStart (gap ++ cs) = trimStart cs :=
  List.dropWhile_append_of_pos h

theorem AllBlank.trimStart (h : AllBlank gap) : trimStart gap = [] := by
  have happend := h.trimStart_append []
  rwa [List.append_nil] at happend

theorem AllBlank.trim_append (h : AllBlank gap) (cs : List Char) :
    trim (cs ++ gap) = trim cs := by
  induction gap generalizing cs with
  | nil => rw [List.append_nil]
  | cons c gap ih =>
      have hgap : AllBlank gap := fun d hd => h d (List.mem_cons_of_mem c hd)
      rw [← List.singleton_append, ← List.append_assoc, ih hgap,
        trim_concat (h c (List.mem_cons_self ..))]

theorem trimStart_trimStart (cs : List Char) : trimStart (trimStart cs) = trimStart cs :=
  List.dropWhile_eq_self_iff.mpr (List.dropWhile_get_zero_not isBlank cs)

theorem trimStart_takeWhile (h : trimStart cs = cs) (p : Char → Bool) :
    trimStart (cs.takeWhile p) = cs.takeWhile p := by
  cases cs with
  | nil => rfl
  | cons c cs =>
      have hc : isBlank c = false :=
        Bool.eq_false_iff.mpr (List.dropWhile_eq_self_iff.mp h (Nat.succ_pos _))
      rw [List.takeWhile_cons]
      split
      · exact List.dropWhile_cons_of_neg (Bool.eq_false_iff.mp hc)
      · rfl

theorem exists_gap_trimStart (cs : List Char) : ∃ gap, AllBlank gap ∧ cs = gap ++ trimStart cs :=
  ⟨cs.takeWhile isBlank, fun _ hc => List.mem_takeWhile_imp hc,
    List.takeWhile_append_dropWhile.symm⟩

theorem exists_gap_trimEnd (cs : List Char) : ∃ gap, AllBlank gap ∧ cs = trimEnd cs ++ gap := by
  refine ⟨(cs.reverse.takeWhile isBlank).reverse, ?_, ?_⟩
  · intro c hc
    exact List.mem_takeWhile_imp (List.mem_reverse.mp hc)
  · show cs = (cs.reverse.dropWhile isBlank).reverse ++ _
    rw [← List.reverse_append, List.takeWhile_append_dropWhile, List.reverse_reverse]

theorem trimStart_visible (h : cs.head?.any (!isBlank ·) = true) (more : List Char) :
    trimStart (cs ++ more) = cs ++ more := by
  cases cs with
  | nil => cases h
  | cons c cs => exact trimStart_eq_self h

theorem visible_of_trim (h : trim cs = cs) (hne : cs ≠ []) :
    cs.head?.any (!isBlank ·) = true := by
  rw [← h] at hne ⊢
  exact (trim_ends hne).1

/-- The code points of the blank characters. -/
def blankPoints : List Nat :=
  [9, 10, 11, 12, 13, 0x20, 0x85, 0xA0, 0x1680, 0x2000, 0x2001, 0x2002, 0x2003, 0x2004, 0x2005,
    0x2006, 0x2007, 0x2008, 0x2009, 0x200A, 0x2028, 0x2029, 0x202F, 0x205F, 0x3000]

theorem inRanges_eq_any (table : Array (Nat × Nat)) (n : Nat) :
    inRanges table n = table.toList.any fun (first, last) => first ≤ n && n ≤ last :=
  Array.any_toList.symm

theorem isNameChar_of_blankPoints : ∀ n ∈ blankPoints, isNameChar (Char.ofNat n) = false := by
  -- a list is walked much faster than an array
  simp only [isNameChar, isAlphanumeric, inRanges_eq_any]
  decide +kernel

/-- No blank stands in a name. -/
theorem isNameChar_of_isBlank {c : Char} (h : isBlank c = true) : isNameChar c = false := by
  have hpoint : c.toNat ∈ blankPoints := by
    simp only [isBlank, Bool.or_eq_true, Bool.and_eq_true, decide_eq_true_eq, beq_iff_eq] at h
    simp only [blankPoints, List.mem_cons, List.not_mem_nil, or_false]
    omega
  rw [← Char.ofNat_toNat c]
  exact isNameChar_of_blankPoints _ hpoint

/-- What stands behind a gap, be it empty or not, is no part of the name in front of it. -/
theorem AllBlank.not_nameChar (hgap : AllBlank gap) {c : Char} (hc : isNameChar c = false)
    (rest : List Char) : (gap ++ c :: rest).head?.all (!isNameChar ·) = true := by
  cases gap with
  | nil =>
      show (!isNameChar c) = true
      rw [hc]
      rfl
  | cons blank gap =>
      show (!isNameChar blank) = true
      rw [isNameChar_of_isBlank (hgap blank (List.mem_cons_self ..))]
      rfl

end Text

open Text

namespace Arguments

variable {cs text rest more name gap : List Char}

/-! ## Quoted texts -/

/-- The text of a plain-quoted value: every quote stands behind a backslash, and behind every
    backslash stands a character. -/
inductive IsPlainText : List Char → Prop where
  | nil : IsPlainText []
  | escape (c : Char) {cs : List Char} (h : IsPlainText cs) : IsPlainText ('\\' :: c :: cs)
  | char {c : Char} (hescape : c ≠ '\\') (hquote : c ≠ '"') {cs : List Char}
      (h : IsPlainText cs) : IsPlainText (c :: cs)

theorem plainText?_of_isPlainText (h : IsPlainText text) (rest : List Char) :
    plainText? (text ++ '"' :: rest) = some (text, rest) := by
  induction h with
  | nil => simp [plainText?]
  | escape c h ih => simp [plainText?, ih]
  | char hescape hquote h ih => simp [plainText?, hescape, ih]

theorem isPlainText_of_plainText? (h : plainText? cs = some (text, rest)) :
    IsPlainText text ∧ cs = text ++ '"' :: rest := by
  fun_induction plainText? cs generalizing text with
  | case1 => cases h
  | case2 => cases h
  | case3 c cs ih =>
      obtain ⟨⟨text', rest'⟩, hread, heq⟩ := Option.map_eq_some_iff.mp h
      obtain ⟨rfl, rfl⟩ := Prod.mk.inj heq
      obtain ⟨hplain, rfl⟩ := ih hread
      exact ⟨.escape c hplain, rfl⟩
  | case4 cs =>
      obtain ⟨rfl, rfl⟩ := Prod.mk.inj (Option.some.inj h)
      exact ⟨.nil, rfl⟩
  | case5 c cs hlone hescape hquote ih =>
      obtain ⟨⟨text', rest'⟩, hread, heq⟩ := Option.map_eq_some_iff.mp h
      obtain ⟨rfl, rfl⟩ := Prod.mk.inj heq
      obtain ⟨hplain, rfl⟩ := ih hread
      refine ⟨.char ?_ hquote hplain, rfl⟩
      -- a backslash is followed by something here, at least by the closing quote
      rintro rfl
      cases text' with
      | nil => exact hescape _ _ rfl rfl
      | cons d text' => exact hescape _ _ rfl rfl

theorem rawText?_of_not_mem (h : '\x60' ∉ text) (rest : List Char) :
    rawText? (text ++ '\x60' :: rest) = some (text, rest) := by
  induction text with
  | nil => simp [rawText?]
  | cons c text ih =>
      obtain ⟨hc, htext⟩ := not_or.mp fun hmem => h (List.mem_cons.mpr hmem)
      simp [rawText?, Ne.symm hc, ih htext]

theorem not_mem_of_rawText? (h : rawText? cs = some (text, rest)) :
    '\x60' ∉ text ∧ cs = text ++ '\x60' :: rest := by
  fun_induction rawText? cs generalizing text with
  | case1 => cases h
  | case2 cs =>
      obtain ⟨rfl, rfl⟩ := Prod.mk.inj (Option.some.inj h)
      exact ⟨List.not_mem_nil, rfl⟩
  | case3 c cs hquote ih =>
      obtain ⟨⟨text', rest'⟩, hread, heq⟩ := Option.map_eq_some_iff.mp h
      obtain ⟨rfl, rfl⟩ := Prod.mk.inj heq
      obtain ⟨hraw, rfl⟩ := ih hread
      exact ⟨List.not_mem_cons_of_ne_of_not_mem (Ne.symm hquote) hraw, rfl⟩

/-! ## Keys -/

/-- The name of an argument. -/
structure IsKey (name : List Char) : Prop where
  nonempty : name ≠ []
  nameChars : ∀ c ∈ name, isNameChar c = true
  start : name.head?.any Char.isDigit = false

/-- A text that starts like a named argument: a key, maybe a gap, and an equals sign. -/
def StartsWithKey (cs : List Char) : Prop :=
  ∃ name gap rest, IsKey name ∧ AllBlank gap ∧ cs = name ++ (gap ++ '=' :: rest)

theorem key?_of_isKey (hname : IsKey name) (hgap : AllBlank gap) (rest : List Char) :
    key? (name ++ (gap ++ '=' :: rest)) = some (name, rest) := by
  have hstop : (gap ++ '=' :: rest).head?.all (!isNameChar ·) = true :=
    hgap.not_nameChar rfl rest
  have hsign : trimStart (gap ++ '=' :: rest) = '=' :: rest := by
    rw [hgap.trimStart_append]
    exact trimStart_eq_self rfl
  simp [key?, takeWhile_run hname.nameChars hstop, dropWhile_run hname.nameChars hstop,
    hname.nonempty, hname.start, hsign]

theorem isKey_of_key? (h : key? cs = some (name, rest)) :
    IsKey name ∧ ∃ gap, AllBlank gap ∧ cs = name ++ (gap ++ '=' :: rest) := by
  unfold key? at h
  dsimp only at h
  split at h
  · cases h
  · rename_i hkey
    simp only [Bool.or_eq_true, List.isEmpty_iff, not_or, Bool.not_eq_true] at hkey
    split at h
    · rename_i behind hbehind
      obtain ⟨rfl, rfl⟩ := Prod.mk.inj (Option.some.inj h)
      obtain ⟨gap, hgap, heq⟩ := exists_gap_trimStart (cs.dropWhile isNameChar)
      refine ⟨⟨hkey.1, fun c hc => List.mem_takeWhile_imp hc, hkey.2⟩, gap, hgap, ?_⟩
      rw [← hbehind, ← heq, List.takeWhile_append_dropWhile]
    · cases h

theorem key?_eq_none (h : cs.head?.any isNameChar = false) : key? cs = Option.none := by
  cases cs with
  | nil => rfl
  | cons c cs =>
      have hc : isNameChar c = false := h
      simp [key?, hc]

/-! ## Values -/

/-- The text of an unquoted value. -/
structure IsBareText (text : List Char) : Prop where
  nonempty : text ≠ []
  trimmed : trim text = text
  comma : ',' ∉ text
  quote : '"' ∉ text
  backtick : '\x60' ∉ text

end Arguments

open Arguments

/-- A value whose text can stand in its quotes. -/
def Argument.IsReadable (a : Argument) : Prop :=
  match a.quoting with
  | .plain => IsPlainText a.text.toList
  | .raw => '\x60' ∉ a.text.toList
  | .bare => IsBareText a.text.toList

namespace Arguments

variable {cs text rest more gap : List Char} {a : Argument} {i : Option String × Argument}
  {found : List (Option String × Argument)}

/-- Nothing but blanks stands in front of the next comma or the end. -/
def Ends (more : List Char) : Prop :=
  AllBlank (more.takeWhile (· != ','))

theorem Ends.dropWhile_eq (h : Ends more) : more.dropWhile (· != ',') = trimStart more := by
  have hsplit : trimStart more = trimStart (more.dropWhile (· != ',')) := by
    conv_lhs => rw [← List.takeWhile_append_dropWhile (p := (· != ',')) (l := more)]
    exact AllBlank.trimStart_append h _
  rw [hsplit]
  cases hrest : more.dropWhile (· != ',') with
  | nil => rfl
  | cons c rest =>
      obtain rfl : c = ',' := eq_of_dropWhile_ne hrest
      exact (trimStart_eq_self rfl).symm

theorem ends_of_allBlank (h : AllBlank gap) : Ends gap :=
  fun c hc => h c ((List.takeWhile_sublist _).subset hc)

theorem ends_comma (h : AllBlank gap) (cs : List Char) : Ends (gap ++ ',' :: cs) := by
  have hgap : ',' ∉ gap := by
    intro hcomma
    exact absurd (h ',' hcomma) (by decide)
  intro c hc
  rw [takeWhile_run (bne_of_not_mem hgap) rfl] at hc
  exact h c hc

theorem written_plain (text : String) :
    (Argument.written ⟨.plain, text⟩).toList = '"' :: (text.toList ++ ['"']) := by
  simp [Argument.written]

theorem written_raw (text : String) :
    (Argument.written ⟨.raw, text⟩).toList = '\x60' :: (text.toList ++ ['\x60']) := by
  simp [Argument.written]

theorem value_eq_bareValue (h : cs.head? ≠ some '"' ∧ cs.head? ≠ some '\x60') :
    value cs = bareValue cs := by
  unfold value
  split
  · exact absurd rfl h.1
  · exact absurd rfl h.2
  · rfl

theorem unquoted_of_isBareText (h : IsBareText text) (more : List Char) :
    (text ++ more).head? ≠ some '"' ∧ (text ++ more).head? ≠ some '\x60' := by
  cases text with
  | nil => exact absurd rfl h.nonempty
  | cons c text =>
      constructor
      · rintro ⟨⟩
        exact h.quote (List.mem_cons_self ..)
      · rintro ⟨⟩
        exact h.backtick (List.mem_cons_self ..)

theorem bareValue_append (h : IsBareText text) (hmore : Ends more) :
    bareValue (text ++ more) = .ok (⟨.bare, String.ofList text⟩, trimStart more) := by
  have hcomma := bne_of_not_mem h.comma
  have hquotes : (text.any fun c => c == '"' || c == '\x60') = false := by
    rw [List.any_eq_false]
    intro c hc hquote
    rcases Bool.or_eq_true_iff.mp hquote with hquote | hquote
    · exact h.quote (eq_of_beq hquote ▸ hc)
    · exact h.backtick (eq_of_beq hquote ▸ hc)
  simp [bareValue, List.takeWhile_append_of_pos hcomma, List.dropWhile_append_of_pos hcomma,
    AllBlank.trim_append hmore, h.trimmed, h.nonempty, hquotes, hmore.dropWhile_eq]

/-- A value is read from its written form, up to the blanks behind it. -/
theorem value_written (h : a.IsReadable) (hmore : Ends more) :
    ∃ rest, value (a.written.toList ++ more) = .ok (a, rest) ∧ trimStart rest = trimStart more := by
  obtain ⟨quoting, text⟩ := a
  cases quoting with
  | plain =>
      refine ⟨more, ?_, rfl⟩
      have hread := plainText?_of_isPlainText h more
      simp [written_plain, value, hread]
  | raw =>
      refine ⟨more, ?_, rfl⟩
      have hread := rawText?_of_not_mem h more
      simp [written_raw, value, hread]
  | bare =>
      have htext : IsBareText text.toList := h
      refine ⟨trimStart more, ?_, trimStart_trimStart more⟩
      show value (text.toList ++ more) = _
      rw [value_eq_bareValue (unquoted_of_isBareText htext more), bareValue_append htext hmore]
      simp

theorem isBareText_trim (hvisible : trim (cs.takeWhile (· != ',')) ≠ [])
    (hquotes : ¬ (trim (cs.takeWhile (· != ','))).any (fun c => c == '"' || c == '\x60') = true) :
    IsBareText (trim (cs.takeWhile (· != ','))) where
  nonempty := hvisible
  trimmed := trim_trim _
  comma := by
    intro hmem
    have hkept := List.mem_takeWhile_imp (trim_subset _ hmem)
    exact absurd hkept (by decide)
  quote := by
    intro hmem
    exact hquotes (List.any_eq_true.mpr ⟨_, hmem, rfl⟩)
  backtick := by
    intro hmem
    exact hquotes (List.any_eq_true.mpr ⟨_, hmem, rfl⟩)

/-- A text that starts visibly and is read as a value is its written form, with blanks behind it. -/
theorem written_of_value (h : value cs = .ok (a, rest)) (hstart : trimStart cs = cs) :
    a.IsReadable ∧ ∃ gap, AllBlank gap ∧ cs = a.written.toList ++ (gap ++ rest) := by
  unfold value at h
  split at h
  · split at h
    · rename_i text rest' hread
      obtain ⟨rfl, rfl⟩ := Prod.mk.inj (Except.ok.inj h)
      obtain ⟨hplain, rfl⟩ := isPlainText_of_plainText? hread
      refine ⟨?_, [], .nil, by simp [written_plain]⟩
      show IsPlainText (String.ofList text).toList
      rwa [String.toList_ofList]
    · cases h
  · split at h
    · rename_i text rest' hread
      obtain ⟨rfl, rfl⟩ := Prod.mk.inj (Except.ok.inj h)
      obtain ⟨hraw, rfl⟩ := not_mem_of_rawText? hread
      refine ⟨?_, [], .nil, by simp [written_raw]⟩
      show '\x60' ∉ (String.ofList text).toList
      rwa [String.toList_ofList]
    · cases h
  · unfold bareValue at h
    dsimp only at h
    split at h
    · cases h
    · rename_i hvisible
      rw [List.isEmpty_iff] at hvisible
      split at h
      · cases h
      · rename_i hquotes
        obtain ⟨rfl, rfl⟩ := Prod.mk.inj (Except.ok.inj h)
        -- nothing is trimmed in front, so what is trimmed is the gap behind the value
        have htrim : trim (cs.takeWhile (· != ',')) = trimEnd (cs.takeWhile (· != ',')) :=
          congrArg trimEnd (trimStart_takeWhile hstart _)
        obtain ⟨gap, hgap, heq⟩ := exists_gap_trimEnd (cs.takeWhile (· != ','))
        constructor
        · show IsBareText (String.ofList (trim (cs.takeWhile (· != ',')))).toList
          rw [String.toList_ofList]
          exact isBareText_trim hvisible hquotes
        · refine ⟨gap, hgap, ?_⟩
          show cs = (String.ofList (trim (cs.takeWhile (· != ',')))).toList ++ _
          rw [String.toList_ofList, htrim, ← List.append_assoc, ← heq,
            List.takeWhile_append_dropWhile]

/-! ## Items -/

/-- The texts that are read as an item.  Without a key the value must not look like one. -/
inductive SpellsItem : Option String × Argument → List Char → Prop where
  | value {a : Argument} (h : a.IsReadable)
      (hkey : a.quoting = .bare → ¬ StartsWithKey a.text.toList) :
      SpellsItem (Option.none, a) a.written.toList
  | keyed {name gap gap' : List Char} {a : Argument} (hname : IsKey name) (hgap : AllBlank gap)
      (hgap' : AllBlank gap') (h : a.IsReadable) :
      SpellsItem (some (String.ofList name), a)
        (name ++ (gap ++ '=' :: (gap' ++ a.written.toList)))

/-- The texts that are read as a list of items: commas between them, blanks around them, and maybe
    a comma behind the last one. -/
inductive Spells : List (Option String × Argument) → List Char → Prop where
  | nil {gap : List Char} (hgap : AllBlank gap) : Spells [] gap
  | last {gap text gap' : List Char} {i : Option String × Argument} (hgap : AllBlank gap)
      (h : SpellsItem i text) (hgap' : AllBlank gap') : Spells [i] (gap ++ (text ++ gap'))
  | cons {gap text gap' cs : List Char} {i : Option String × Argument}
      {others : List (Option String × Argument)} (hgap : AllBlank gap) (h : SpellsItem i text)
      (hgap' : AllBlank gap') (hmore : Spells others cs) :
      Spells (i :: others) (gap ++ (text ++ (gap' ++ ',' :: cs)))

theorem visible_written (h : a.IsReadable) : a.written.toList.head?.any (!isBlank ·) = true := by
  obtain ⟨quoting, text⟩ := a
  cases quoting with
  | plain =>
      rw [written_plain]
      rfl
  | raw =>
      rw [written_raw]
      rfl
  | bare => exact visible_of_trim h.trimmed h.nonempty

theorem SpellsItem.visible (h : SpellsItem i text) : text.head?.any (!isBlank ·) = true := by
  cases h with
  | value h _ => exact visible_written h
  | @keyed name gap gap' a hname _ _ _ =>
      cases name with
      | nil => exact absurd rfl hname.nonempty
      | cons c name =>
          have hc := hname.nameChars c (List.mem_cons_self ..)
          show (!isBlank c) = true
          rw [Bool.not_eq_true', Bool.eq_false_iff]
          intro hblank
          rw [isNameChar_of_isBlank hblank] at hc
          cases hc

/-- A value that does not look like a named argument has no key, whatever follows it. -/
theorem key?_written (h : a.IsReadable)
    (hkey : a.quoting = .bare → ¬ StartsWithKey a.text.toList) (hmore : Ends more) :
    key? (a.written.toList ++ more) = Option.none := by
  obtain ⟨quoting, text⟩ := a
  cases quoting with
  | plain =>
      rw [written_plain]
      exact key?_eq_none (by rfl)
  | raw =>
      rw [written_raw]
      exact key?_eq_none (by rfl)
  | bare =>
      show key? (text.toList ++ more) = Option.none
      rw [Option.eq_none_iff_forall_ne_some]
      rintro ⟨name, rest⟩ hread
      obtain ⟨hname, gap, hgap, heq⟩ := isKey_of_key? hread
      rw [← List.append_assoc] at heq
      rcases List.append_eq_append_iff.mp heq with ⟨behind, hfront, hmore'⟩ | ⟨behind, htext, hrest⟩
      · -- the sign stands behind the value, in front of any comma, so it would be a blank
        have hcomma : ',' ∉ behind := by
          intro hc
          have hmem : ',' ∈ name ++ gap := hfront ▸ List.mem_append_right _ hc
          rcases List.mem_append.mp hmem with hmem | hmem
          · exact absurd (hname.nameChars _ hmem) (by decide)
          · exact absurd (hgap _ hmem) (by decide)
        have hsign := hmore '=' (by
          rw [hmore', List.takeWhile_append_of_pos (bne_of_not_mem hcomma)]
          simp)
        exact absurd hsign (by decide)
      · cases behind with
        | nil =>
            have hsign := hmore '=' (by
              rw [List.nil_append] at hrest
              simp [← hrest])
            exact absurd hsign (by decide)
        | cons c behind =>
            -- the value itself starts with the key
            obtain ⟨rfl, rfl⟩ := List.cons.inj hrest
            exact hkey rfl ⟨name, gap, behind, hname, hgap, by rw [htext, List.append_assoc]⟩

/-- An item is read from each of its texts, up to the blanks behind it. -/
theorem item_of_spellsItem (h : SpellsItem i text) (hmore : Ends more) :
    ∃ rest, item (text ++ more) = .ok (i, rest) ∧ trimStart rest = trimStart more := by
  cases h with
  | value h hkey =>
      obtain ⟨rest, hread, hrest⟩ := value_written h hmore
      refine ⟨rest, ?_, hrest⟩
      simp only [item, key?_written h hkey hmore, trimStart_visible (visible_written h), hread]
      rfl
  | @keyed name gap gap' a hname hgap hgap' h =>
      obtain ⟨rest, hread, hrest⟩ := value_written h hmore
      refine ⟨rest, ?_, hrest⟩
      have hkey := key?_of_isKey hname hgap (gap' ++ (a.written.toList ++ more))
      simp only [List.append_assoc, List.cons_append, item, hkey, hgap'.trimStart_append,
        trimStart_visible (visible_written h), hread]
      rfl

/-- A text that starts visibly and is read as an item is one of the texts of the item, with blanks
    behind it. -/
theorem spellsItem_of_item (h : item cs = .ok (i, rest)) (hstart : trimStart cs = cs) :
    ∃ text gap, SpellsItem i text ∧ AllBlank gap ∧ cs = text ++ (gap ++ rest) := by
  unfold item at h
  cases hkey : key? cs with
  | none =>
      rw [hkey] at h
      obtain ⟨⟨a, behind⟩, hread, heq⟩ := map_eq_ok h
      obtain ⟨rfl, rfl⟩ := Prod.mk.inj heq
      change value (trimStart cs) = _ at hread
      rw [hstart] at hread
      obtain ⟨hreadable, gap, hgap, hcs⟩ := written_of_value hread hstart
      refine ⟨_, gap, .value hreadable ?_, hgap, hcs⟩
      -- a value that starts with a key would have been read with it
      rintro hbare ⟨name, gap', behind', hname, hgap', htext⟩
      have hwritten : a.written.toList = a.text.toList := by
        simp [Argument.written, hbare]
      rw [hcs, hwritten, htext, List.append_assoc, List.append_assoc, List.cons_append,
        key?_of_isKey hname hgap'] at hkey
      cases hkey
  | some found =>
      obtain ⟨name, behind⟩ := found
      rw [hkey] at h
      obtain ⟨⟨a, behind'⟩, hread, heq⟩ := map_eq_ok h
      obtain ⟨rfl, rfl⟩ := Prod.mk.inj heq
      obtain ⟨hname, gap, hgap, hcs⟩ := isKey_of_key? hkey
      obtain ⟨gap', hgap', hbehind⟩ := exists_gap_trimStart behind
      obtain ⟨hreadable, gap'', hgap'', hvalue⟩ :=
        written_of_value hread (trimStart_trimStart behind)
      refine ⟨_, gap'', .keyed hname hgap hgap' hreadable, hgap'', ?_⟩
      rw [hcs, hbehind, hvalue]
      simp only [List.append_assoc, List.cons_append]

/-! ## Lists of items -/

theorem items_of_blank (h : trimStart cs = []) : items cs = .ok [] := by
  rw [items]
  split
  · rfl
  · rename_i hvisible
    rw [h] at hvisible
    cases hvisible

/-- What follows the first item decides on the others. -/
theorem items_of_item {c : Char} (hcs : trimStart cs = c :: text)
    (hitem : item (c :: text) = .ok (i, rest)) :
    items cs = match trimStart rest with
      | [] => .ok [i]
      | d :: more =>
          if d = ',' then (i :: ·) <$> items more else .error (.unexpectedCharacter d) := by
  rw [items]
  split
  · rename_i hblank
    cases hcs.symm.trans hblank
  · rename_i d ds hvisible
    obtain ⟨rfl, rfl⟩ := List.cons.inj (hcs.symm.trans hvisible)
    split
    · rename_i herror
      cases hitem.symm.trans herror
    · rename_i first behind hread
      obtain ⟨rfl, rfl⟩ := Prod.mk.inj (Except.ok.inj (hitem.symm.trans hread))
      split
      · rename_i hrest
        rw [hrest]
      · rename_i hrest
        dsimp only
        rw [hrest]

theorem items_of_spells (h : Spells found cs) : items cs = .ok found := by
  -- in front of each item the blanks go, and the item is read up to the blanks behind it
  have hfirst : ∀ {gap text more : List Char} {i : Option String × Argument}, AllBlank gap →
      SpellsItem i text → Ends more → ∃ rest, trimStart rest = trimStart more ∧
        ∃ c text', trimStart (gap ++ (text ++ more)) = c :: text' ∧
          item (c :: text') = .ok (i, rest) := by
    intro gap text more i hgap hi hmore
    obtain ⟨rest, hitem, hrest⟩ := item_of_spellsItem hi hmore
    have hvisible := hi.visible
    refine ⟨rest, hrest, ?_⟩
    rw [hgap.trimStart_append, trimStart_visible hvisible]
    cases text with
    | nil => cases hvisible
    | cons c text => exact ⟨c, text ++ more, rfl, hitem⟩
  induction h with
  | nil hgap => exact items_of_blank hgap.trimStart
  | last hgap hi hgap' =>
      obtain ⟨rest, hrest, c, text, htext, hitem⟩ := hfirst hgap hi (ends_of_allBlank hgap')
      rw [items_of_item htext hitem, hrest, hgap'.trimStart]
  | @cons gap text gap' cs i others hgap hi hgap' _ ih =>
      obtain ⟨rest, hrest, c, text, htext, hitem⟩ := hfirst hgap hi (ends_comma hgap' cs)
      have hcomma : trimStart (',' :: cs) = ',' :: cs := trimStart_eq_self rfl
      rw [items_of_item htext hitem, hrest, hgap'.trimStart_append, hcomma]
      simp only [if_true, ih]
      rfl

theorem spells_of_items (h : items cs = .ok found) : Spells found cs := by
  fun_induction items cs generalizing found with
  | case1 cs hblank =>
      rw [← Except.ok.inj h]
      obtain ⟨gap, hgap, heq⟩ := exists_gap_trimStart cs
      rw [heq, hblank, List.append_nil]
      exact .nil hgap
  | case2 cs c ds hvisible e herror => cases h
  | case3 cs c ds hvisible first rest hitem hrest =>
      rw [← Except.ok.inj h]
      obtain ⟨gap, hgap, hcs⟩ := exists_gap_trimStart cs
      obtain ⟨text, gap', hi, hgap', htext⟩ :=
        spellsItem_of_item hitem (hvisible ▸ trimStart_trimStart cs)
      obtain ⟨gap'', hgap'', hbehind⟩ := exists_gap_trimStart rest
      rw [hcs, hvisible, htext, hbehind, hrest, List.append_nil]
      exact .last hgap hi (hgap'.append hgap'')
  | case4 cs c ds hvisible first rest hitem more hrest _ ih =>
      obtain ⟨others, hothers, rfl⟩ := map_eq_ok h
      obtain ⟨gap, hgap, hcs⟩ := exists_gap_trimStart cs
      obtain ⟨text, gap', hi, hgap', htext⟩ :=
        spellsItem_of_item hitem (hvisible ▸ trimStart_trimStart cs)
      obtain ⟨gap'', hgap'', hbehind⟩ := exists_gap_trimStart rest
      rw [hcs, hvisible, htext, hbehind, hrest, ← List.append_assoc gap']
      exact .cons hgap hi (hgap'.append hgap'') (ih hothers)
  | case5 cs c ds hvisible first rest hitem d more hrest _ hcomma => cases h

/-- A text is read as given items exactly if it is one of their spellings. -/
theorem items_eq_ok_iff : items cs = .ok found ↔ Spells found cs :=
  ⟨spells_of_items, items_of_spells⟩

end Arguments

end ServiceWiring
