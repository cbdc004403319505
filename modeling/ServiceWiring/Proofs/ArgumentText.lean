import ServiceWiring.Proofs.ArgumentItems

/-!
# Argument lists that are read back

Two readers go over the argument list of a directive.  The first looks for the parenthesis that
closes the list and skips quotes, the second cuts the text in front of it into items.  All spellings
of a list look alike to the first reader: only the parentheses of unquoted values count.  So the
canonical spelling is closed at the same place as the one that was read, and gives the same items.

* `Arguments.search`, `Arguments.search_spells` — the search for the closing parenthesis;
* `Arguments.Readable`, `Arguments.Readable.parse_append` — the lists that are read back;
* `Arguments.Balanced`, `Arguments.Writable` — the lists of values that are balanced one by one;
* `Arguments.parse_written` — every list that was read is read back, and so is every writable one.
-/

namespace ServiceWiring

open Text Arguments

namespace Arguments

variable {cs text rest gap : List Char} {a : Argument} {i : Option String × Argument}
  {found : List (Option String × Argument)}

/-! ## The closing parenthesis -/

/-- The number of open parentheses behind a character outside of quotes; none behind the one that
    closes the list. -/
def openBehind (depth : Nat) (c : Char) : Option Nat :=
  if c = '(' then some (depth + 1)
  else if c = ')' then (if depth = 0 then Option.none else some (depth - 1))
  else some depth

/-- Where the search for the closing parenthesis stands behind a character, and with how many open
    ones.  It ends at the closing one. -/
def searchStep : Within × Nat → Char → Option (Within × Nat)
  | (.list, depth), c => (openBehind depth c).map (Within.next .list c, ·)
  | (state, depth), c => some (state.next c, depth)

/-- The search over a text that it does not end in. -/
def search (place : Within × Nat) (cs : List Char) : Option (Within × Nat) :=
  cs.foldlM searchStep place

theorem search_append (place : Within × Nat) (cs ds : List Char) :
    search place (cs ++ ds) = (search place cs).bind (search · ds) :=
  List.foldlM_append

theorem search_cons (place : Within × Nat) (c : Char) (cs : List Char) :
    search place (c :: cs) = (searchStep place c).bind (search · cs) :=
  List.foldlM_cons

theorem openBehind_eq_some {depth : Nat} {c : Char} (h : ¬ (depth = 0 ∧ c = ')')) :
    openBehind depth c
      = some (if c = '(' then depth + 1 else if c = ')' then depth - 1 else depth) := by
  unfold openBehind
  split
  · rfl
  · split
    · rename_i hclose
      rw [if_neg fun hdepth => h ⟨hdepth, hclose⟩]
    · rfl

theorem searchStep_eq_none {place : Within × Nat} {c : Char}
    (h : searchStep place c = Option.none) : place = (.list, 0) ∧ c = ')' := by
  obtain ⟨state, depth⟩ := place
  cases state with
  | list =>
      by_contra hopen
      have hdepth : ¬ (depth = 0 ∧ c = ')') := by
        rintro ⟨rfl, rfl⟩
        exact hopen ⟨rfl, rfl⟩
      simp [searchStep, openBehind_eq_some hdepth] at h
  | plain => cases h
  | escape => cases h
  | raw => cases h

theorem enclosed_cons {place next : Within × Nat} {c : Char} (h : searchStep place c = some next)
    (cs : List Char) :
    enclosed place.1 place.2 (c :: cs) = (c :: ·) <$> enclosed next.1 next.2 cs := by
  obtain ⟨state, depth⟩ := place
  cases state with
  | list =>
      have hopen : ¬ (depth = 0 ∧ c = ')') := by
        rintro ⟨rfl, rfl⟩
        cases h
      simp only [searchStep, openBehind_eq_some hopen, Option.map_some, Option.some.injEq] at h
      rw [← h, enclosed]
      rintro rfl rfl
      exact hopen ⟨rfl, rfl⟩
  | plain =>
      rw [← Option.some.inj h]
      simp [enclosed]
  | escape =>
      rw [← Option.some.inj h]
      simp [enclosed]
  | raw =>
      rw [← Option.some.inj h]
      simp [enclosed]

theorem enclosed_of_search {place : Within × Nat} {inner : List Char}
    (h : search place inner = some (.list, 0)) (behind : List Char) :
    enclosed place.1 place.2 (inner ++ ')' :: behind) = .ok inner := by
  induction inner generalizing place with
  | nil =>
      rw [Option.some.inj h]
      simp [enclosed]
  | cons c inner ih =>
      rw [search_cons] at h
      obtain ⟨next, hstep, hsearch⟩ := Option.bind_eq_some_iff.mp h
      rw [List.cons_append, enclosed_cons hstep, ih hsearch]
      rfl

theorem search_of_enclosed (place : Within × Nat) {inner : List Char}
    (h : enclosed place.1 place.2 cs = .ok inner) : search place inner = some (.list, 0) := by
  induction cs generalizing place inner with
  | nil =>
      obtain ⟨state, depth⟩ := place
      cases state <;> cases h
  | cons c cs ih =>
      cases hstep : searchStep place c with
      | none =>
          obtain ⟨rfl, rfl⟩ := searchStep_eq_none hstep
          rw [← Except.ok.inj h]
          rfl
      | some next =>
          rw [enclosed_cons hstep] at h
          obtain ⟨more, hmore, rfl⟩ := map_eq_ok h
          rw [search_cons, hstep]
          exact ih next hmore

/-! ## What the search sees of a list -/

/-- A character that is no quote and no parenthesis. -/
def IsQuiet (c : Char) : Prop :=
  c ≠ '"' ∧ c ≠ '\x60' ∧ c ≠ '(' ∧ c ≠ ')'

/-- The number of open parentheses behind a value.  Those in quotes do not count. -/
def openBehindValue (depth : Nat) (a : Argument) : Option Nat :=
  match a.quoting with
  | .bare => a.text.toList.foldlM openBehind depth
  | _ => some depth

/-- The number of open parentheses behind a list of items. -/
def openBehindAll (depth : Nat) (found : List (Option String × Argument)) : Option Nat :=
  found.foldlM (fun depth i => openBehindValue depth i.2) depth

theorem search_of_quiet (h : ∀ c ∈ cs, IsQuiet c) (depth : Nat) :
    search (.list, depth) cs = some (.list, depth) := by
  induction cs with
  | nil => rfl
  | cons c cs ih =>
      obtain ⟨hplain, hraw, hopen, hclose⟩ := h c (List.mem_cons_self ..)
      rw [search_cons]
      simp only [searchStep, openBehind, hopen, hclose, if_false, Option.map_some, Within.next,
        hplain, hraw, Option.bind_some]
      exact ih fun d hd => h d (List.mem_cons_of_mem c hd)

theorem isQuiet_of_isBlank {c : Char} (h : isBlank c = true) : IsQuiet c := by
  refine ⟨?_, ?_, ?_, ?_⟩ <;> · rintro rfl; exact absurd h (by decide)

theorem isQuiet_of_isNameChar {c : Char} (h : isNameChar c = true) : IsQuiet c := by
  refine ⟨?_, ?_, ?_, ?_⟩ <;> · rintro rfl; exact absurd h (by decide)

theorem search_gap (h : AllBlank gap) (depth : Nat) :
    search (.list, depth) gap = some (.list, depth) :=
  search_of_quiet (fun c hc => isQuiet_of_isBlank (h c hc)) depth

theorem search_isPlainText (h : IsPlainText text) (depth : Nat) :
    search (.plain, depth) text = some (.plain, depth) := by
  induction h with
  | nil => rfl
  | escape c _ ih =>
      rw [search_cons]
      exact ih
  | char hescape hquote _ ih =>
      rw [search_cons]
      simp only [searchStep, Within.next, hescape, hquote, if_false, Option.bind_some]
      exact ih

theorem search_raw (h : '\x60' ∉ text) (depth : Nat) :
    search (.raw, depth) text = some (.raw, depth) := by
  induction text with
  | nil => rfl
  | cons c text ih =>
      obtain ⟨hc, htext⟩ := not_or.mp fun hmem => h (List.mem_cons.mpr hmem)
      rw [search_cons]
      simp only [searchStep, Within.next, Ne.symm hc, if_false, Option.bind_some]
      exact ih htext

theorem search_unquoted (hplain : '"' ∉ text) (hraw : '\x60' ∉ text) (depth : Nat) :
    search (.list, depth) text = (text.foldlM openBehind depth).map (Within.list, ·) := by
  induction text generalizing depth with
  | nil => rfl
  | cons c text ih =>
      obtain ⟨hc, htext⟩ := not_or.mp fun hmem => hplain (List.mem_cons.mpr hmem)
      obtain ⟨hc', htext'⟩ := not_or.mp fun hmem => hraw (List.mem_cons.mpr hmem)
      rw [search_cons, List.foldlM_cons]
      cases hdepth : openBehind depth c with
      | none => simp [searchStep, hdepth]
      | some deeper =>
          simp only [searchStep, hdepth, Option.map_some, Within.next, Ne.symm hc, Ne.symm hc',
            if_false, Option.bind_some, Option.bind_eq_bind]
          exact ih htext htext' deeper

/-- The search passes a value, and counts the parentheses of an unquoted one. -/
theorem search_written (h : a.IsReadable) (depth : Nat) :
    search (.list, depth) a.written.toList = (openBehindValue depth a).map (Within.list, ·) := by
  obtain ⟨quoting, text⟩ := a
  cases quoting with
  | plain =>
      rw [written_plain, search_cons]
      show search (.plain, depth) (text.toList ++ ['"']) = some (.list, depth)
      rw [search_append, search_isPlainText h]
      rfl
  | raw =>
      rw [written_raw, search_cons]
      show search (.raw, depth) (text.toList ++ ['\x60']) = some (.list, depth)
      rw [search_append, search_raw h]
      rfl
  | bare =>
      have htext : IsBareText text.toList := h
      exact search_unquoted htext.quote htext.backtick depth

theorem search_spellsItem (h : SpellsItem i text) (depth : Nat) :
    search (.list, depth) text = (openBehindValue depth i.2).map (Within.list, ·) := by
  cases h with
  | value h _ => exact search_written h depth
  | @keyed name gap gap' a hname hgap hgap' h =>
      have hsign : IsQuiet '=' := by
        refine ⟨?_, ?_, ?_, ?_⟩ <;> decide
      have hfront : ∀ c ∈ name ++ (gap ++ '=' :: gap'), IsQuiet c := by
        intro c hc
        simp only [List.mem_append, List.mem_cons] at hc
        rcases hc with hc | hc | rfl | hc
        · exact isQuiet_of_isNameChar (hname.nameChars c hc)
        · exact isQuiet_of_isBlank (hgap c hc)
        · exact hsign
        · exact isQuiet_of_isBlank (hgap' c hc)
      have hsplit : name ++ (gap ++ '=' :: (gap' ++ a.written.toList))
          = (name ++ (gap ++ '=' :: gap')) ++ a.written.toList := by
        simp only [List.append_assoc, List.cons_append]
      rw [hsplit, search_append, search_of_quiet hfront]
      exact search_written h depth

/-- All spellings of a list of items look alike to the search. -/
theorem search_spells (h : Spells found cs) (depth : Nat) :
    search (.list, depth) cs = (openBehindAll depth found).map (Within.list, ·) := by
  induction h generalizing depth with
  | nil hgap => exact search_gap hgap depth
  | last hgap hi hgap' =>
      rw [search_append, search_gap hgap, Option.bind_some, search_append, search_spellsItem hi]
      simp only [openBehindAll, List.foldlM_cons, List.foldlM_nil, Option.bind_eq_bind]
      cases openBehindValue depth _ with
      | none => rfl
      | some deeper => exact search_gap hgap' deeper
  | @cons gap text gap' cs i others hgap hi hgap' _ ih =>
      rw [search_append, search_gap hgap, Option.bind_some, search_append, search_spellsItem hi]
      simp only [openBehindAll, List.foldlM_cons, Option.bind_eq_bind]
      cases openBehindValue depth i.2 with
      | none => rfl
      | some deeper =>
          show search (.list, deeper) (gap' ++ ',' :: cs) = _
          rw [search_append, search_gap hgap', Option.bind_some, search_cons]
          exact ih deeper

/-! ## The canonical spelling -/

/-- The canonical text of an item. -/
def itemText : Option String × Argument → List Char
  | (Option.none, a) => a.written.toList
  | (some key, a) => key.toList ++ '=' :: a.written.toList

/-- The canonical text of a list of items. -/
def listText (found : List (Option String × Argument)) : List Char :=
  [',', ' '].intercalate (found.map itemText)

/-- An item that can be spelled is spelled by its canonical text. -/
theorem SpellsItem.itemText (h : SpellsItem i text) : SpellsItem i (itemText i) := by
  cases h with
  | value h hkey => exact .value h hkey
  | keyed hname _ _ h =>
      have hcanonical := SpellsItem.keyed hname .nil .nil h
      simpa [Arguments.itemText] using hcanonical

theorem Spells.spellsItem (h : Spells found cs) : ∀ i ∈ found, SpellsItem i (itemText i) := by
  induction h with
  | nil _ =>
      intro i hi
      cases hi
  | last _ h _ =>
      intro i hi
      rw [List.mem_singleton.mp hi]
      exact h.itemText
  | cons _ h _ _ ih =>
      intro i hi
      rcases List.mem_cons.mp hi with rfl | hi
      · exact h.itemText
      · exact ih i hi

theorem Spells.blank_cons {c : Char} (hc : isBlank c = true) (h : Spells found cs) :
    Spells found (c :: cs) := by
  have hblank : ∀ {gap}, AllBlank gap → AllBlank (c :: gap) := by
    intro gap hgap d hd
    rcases List.mem_cons.mp hd with rfl | hd
    · exact hc
    · exact hgap d hd
  cases h with
  | nil hgap => exact .nil (hblank hgap)
  | last hgap hi hgap' => exact .last (hblank hgap) hi hgap'
  | cons hgap hi hgap' hmore => exact .cons (hblank hgap) hi hgap' hmore

theorem spells_listText (h : ∀ i ∈ found, SpellsItem i (itemText i)) :
    Spells found (listText found) := by
  induction found with
  | nil => exact .nil .nil
  | cons i others ih =>
      have hi := h i (List.mem_cons_self ..)
      have hothers := ih fun j hj => h j (List.mem_cons_of_mem i hj)
      cases others with
      | nil => simpa [listText] using Spells.last .nil hi .nil
      | cons j others =>
          have hlist : listText (i :: j :: others)
              = [] ++ (itemText i ++ ([] ++ ',' :: ' ' :: listText (j :: others))) := by
            simp [listText, List.intercalate_cons_cons]
          rw [hlist]
          exact .cons .nil hi .nil (hothers.blank_cons (by decide))

/-! ## The shape of a list -/

/-- The items of a list of arguments. -/
def entries : Arguments → List (Option String × Argument)
  | .none => []
  | .positional values => values.map (Option.none, ·)
  | .named pairs => pairs.map fun pair => (some pair.1, pair.2)

/-- A list of arguments is not empty, and no key stands twice in it. -/
def Shaped : Arguments → Prop
  | .none => True
  | .positional values => values ≠ []
  | .named pairs => pairs ≠ [] ∧ (pairs.map (·.1)).Nodup

theorem toList_written (args : Arguments) :
    args.written.toList = '(' :: (listText args.entries ++ [')']) := by
  cases args with
  | none => rfl
  | positional values =>
      simp only [written, entries, listText, String.toList_append, String.toList_intercalate,
        List.map_map]
      rfl
  | named pairs =>
      simp only [written, entries, listText, String.toList_append, String.toList_intercalate,
        List.map_map]
      simp [Function.comp_def, itemText]

theorem repeatedKey?_eq_none_iff (seen : List String) (pairs : List (String × Argument)) :
    repeatedKey? seen pairs = Option.none
      ↔ (pairs.map (·.1)).Nodup ∧ ∀ pair ∈ pairs, pair.1 ∉ seen := by
  induction pairs generalizing seen with
  | nil => simp [repeatedKey?]
  | cons pair pairs ih =>
      obtain ⟨key, a⟩ := pair
      by_cases hkey : key ∈ seen
      · simp [repeatedKey?, hkey]
      · simp only [repeatedKey?, hkey, if_false, ih, List.map_cons, List.nodup_cons,
          List.mem_cons, List.mem_map, not_or]
        grind

/-- Items of which all have a key are pairs. -/
theorem eq_map_of_length_filterMap
    (h : (found.filterMap fun (key, value) => key.map (·, value)).length = found.length) :
    found = (found.filterMap fun (key, value) => key.map (·, value)).map
      fun pair => (some pair.1, pair.2) := by
  induction found with
  | nil => rfl
  | cons i found ih =>
      obtain ⟨key, a⟩ := i
      cases key with
      | none =>
          have hle := List.length_filterMap_le
            (fun (i : Option String × Argument) => i.1.map (·, i.2)) found
          simp only [List.filterMap_cons, Option.map_none, List.length_cons] at h
          omega
      | some key =>
          simp only [List.filterMap_cons, Option.map_some, List.length_cons,
            Nat.add_right_cancel_iff] at h
          simp only [List.filterMap_cons, Option.map_some, List.map_cons]
          rw [← ih h]

/-- Items of which none has a key are values. -/
theorem eq_map_of_filterMap_eq_nil
    (h : (found.filterMap fun (key, value) => key.map (·, value)) = []) :
    found = (found.map (·.2)).map (Option.none, ·) := by
  rw [List.map_map]
  conv_lhs => rw [← List.map_id found]
  refine List.map_congr_left fun i hi => ?_
  have hkey := List.filterMap_eq_nil_iff.mp h i hi
  obtain ⟨key, a⟩ := i
  rw [Option.map_eq_none_iff.mp hkey]
  rfl

theorem ofItems_eq_ok_iff {args : Arguments} :
    ofItems found = .ok args ↔ found = args.entries ∧ args.Shaped := by
  constructor
  · intro h
    unfold ofItems at h
    dsimp only at h
    split at h
    · rename_i hempty
      rw [← Except.ok.inj h]
      exact ⟨List.isEmpty_iff.mp hempty, trivial⟩
    · rename_i hempty
      rw [List.isEmpty_iff] at hempty
      split at h
      · -- no item has a key
        rename_i hkeys
        rw [← Except.ok.inj h]
        refine ⟨eq_map_of_filterMap_eq_nil (List.isEmpty_iff.mp hkeys), ?_⟩
        simpa [Shaped] using hempty
      · rename_i hkeys
        split at h
        · -- as many keys as items: every item has one
          rename_i hlength
          split at h
          · cases h
          · rename_i hrepeated
            rw [← Except.ok.inj h]
            rw [List.isEmpty_iff] at hkeys
            exact ⟨eq_map_of_length_filterMap hlength, hkeys,
              ((repeatedKey?_eq_none_iff [] _).mp hrepeated).1⟩
        · cases h
  · rintro ⟨rfl, hshaped⟩
    cases args with
    | none => rfl
    | positional values =>
        have hvalues : values ≠ [] := hshaped
        simp [ofItems, entries, hvalues, Function.comp_def]
    | named pairs =>
        obtain ⟨hpairs, hnodup⟩ := hshaped
        have hrepeated : repeatedKey? [] pairs = Option.none :=
          (repeatedKey?_eq_none_iff [] pairs).mpr ⟨hnodup, by simp⟩
        simp [ofItems, entries, hpairs, hrepeated]

/-! ## Reading back -/

/-- A list of arguments whose canonical text can be read: each item can be spelled, and the
    parentheses of the unquoted values fit together over the whole list. -/
structure Readable (args : Arguments) : Prop where
  shaped : args.Shaped
  items : ∀ i ∈ args.entries, SpellsItem i (itemText i)
  closed : openBehindAll 0 args.entries = some 0

/-- Whatever was read can be read. -/
theorem readable_of_parse {args : Arguments} (h : parse rest = .ok args) : args.Readable := by
  have hnone : Readable .none := ⟨trivial, fun i hi => (List.not_mem_nil hi).elim, rfl⟩
  unfold parse at h
  split at h
  · obtain ⟨inner, hinner, h⟩ := bind_eq_ok h
    obtain ⟨found, hfound, h⟩ := bind_eq_ok h
    obtain ⟨rfl, hshaped⟩ := ofItems_eq_ok_iff.mp h
    have hspells := items_eq_ok_iff.mp hfound
    refine ⟨hshaped, hspells.spellsItem, ?_⟩
    -- the search ended behind the items, with no parenthesis open
    have hsearch := search_of_enclosed (.list, 0) hinner
    rw [search_spells hspells] at hsearch
    obtain ⟨depth, hdepth, heq⟩ := Option.map_eq_some_iff.mp hsearch
    obtain ⟨-, rfl⟩ := Prod.mk.inj heq
    exact hdepth
  · rw [← Except.ok.inj h]
    exact hnone

/-- The canonical text of a readable list is read back, whatever follows it. -/
theorem Readable.parse_append {args : Arguments} (h : args.Readable) (suffix : List Char) :
    parse (args.written.toList ++ suffix) = .ok args := by
  have hspells := spells_listText h.items
  have hsearch : search (.list, 0) (listText args.entries) = some (.list, 0) := by
    rw [search_spells hspells, h.closed]
    rfl
  have hinner := enclosed_of_search hsearch suffix
  have hshape := ofItems_eq_ok_iff.mpr ⟨rfl, h.shaped⟩
  calc parse (args.written.toList ++ suffix)
      = parse ('(' :: (listText args.entries ++ ')' :: suffix)) := by
        simp [toList_written]
    _ = (do
          let inner ← enclosed .list 0 (listText args.entries ++ ')' :: suffix)
          ofItems (← Arguments.items inner)) := rfl
    _ = (do ofItems (← Arguments.items (listText args.entries))) := by
        rw [hinner]
        rfl
    _ = .ok args := by
        rw [items_eq_ok_iff.mpr hspells]
        exact hshape

/-- A text whose parentheses match. -/
inductive Balanced : List Char → Prop where
  | nil : Balanced []
  | char {c : Char} (hopen : c ≠ '(') (hclose : c ≠ ')') {cs : List Char} (h : Balanced cs) :
      Balanced (c :: cs)
  | nest {cs ds : List Char} (h : Balanced cs) (h' : Balanced ds) :
      Balanced ('(' :: (cs ++ ')' :: ds))

theorem Balanced.foldlM_openBehind (h : Balanced cs) (depth : Nat) :
    cs.foldlM openBehind depth = some depth := by
  induction h generalizing depth with
  | nil => rfl
  | char hopen hclose _ ih =>
      simp only [List.foldlM_cons, openBehind, hopen, hclose, if_false, Option.bind_eq_bind,
        Option.bind_some]
      exact ih depth
  | nest _ _ ih ih' =>
      rw [List.foldlM_cons]
      show List.foldlM openBehind (depth + 1) (_ ++ _) = _
      rw [List.foldlM_append, ih]
      exact ih' depth

end Arguments

/-- A value that can stand anywhere in a list: its text can stand in its quotes, and an unquoted
    one has no parenthesis without its partner. -/
def Argument.IsWritable (a : Argument) : Prop :=
  a.IsReadable ∧ (a.quoting = .bare → Balanced a.text.toList)

theorem Argument.IsWritable.openBehindValue {a : Argument} (h : a.IsWritable) (depth : Nat) :
    openBehindValue depth a = some depth := by
  obtain ⟨quoting, text⟩ := a
  cases quoting with
  | plain => rfl
  | raw => rfl
  | bare => exact (h.2 rfl).foldlM_openBehind depth

namespace Arguments

/-- A list of arguments that can be written down: values that do not look like named ones, or
    distinct keys with values. -/
def Writable : Arguments → Prop
  | .none => True
  | .positional values =>
      values ≠ [] ∧ ∀ a ∈ values, a.IsWritable ∧
        (a.quoting = .bare → ¬ StartsWithKey a.text.toList)
  | .named pairs =>
      pairs ≠ [] ∧ (pairs.map (·.1)).Nodup ∧
        ∀ pair ∈ pairs, IsKey pair.1.toList ∧ pair.2.IsWritable

theorem openBehindAll_of_writable {found : List (Option String × Argument)}
    (h : ∀ i ∈ found, i.2.IsWritable) (depth : Nat) : openBehindAll depth found = some depth := by
  induction found with
  | nil => rfl
  | cons i found ih =>
      have hi := (h i (List.mem_cons_self ..)).openBehindValue depth
      simp only [openBehindAll, List.foldlM_cons, hi, Option.bind_eq_bind, Option.bind_some]
      exact ih fun j hj => h j (List.mem_cons_of_mem i hj)

theorem Writable.readable {args : Arguments} (h : args.Writable) : args.Readable := by
  cases args with
  | none => exact ⟨trivial, fun i hi => (List.not_mem_nil hi).elim, rfl⟩
  | positional values =>
      obtain ⟨hne, hvalues⟩ := h
      refine ⟨hne, ?_, openBehindAll_of_writable ?_ 0⟩
      · intro i hi
        obtain ⟨a, ha, rfl⟩ := List.mem_map.mp hi
        exact .value (hvalues a ha).1.1 (hvalues a ha).2
      · intro i hi
        obtain ⟨a, ha, rfl⟩ := List.mem_map.mp hi
        exact (hvalues a ha).1
  | named pairs =>
      obtain ⟨hne, hnodup, hpairs⟩ := h
      refine ⟨⟨hne, hnodup⟩, ?_, openBehindAll_of_writable ?_ 0⟩
      · intro i hi
        obtain ⟨pair, hpair, rfl⟩ := List.mem_map.mp hi
        obtain ⟨hkey, hvalue⟩ := hpairs pair hpair
        have hspells := SpellsItem.keyed hkey .nil .nil hvalue.1
        simpa [itemText] using hspells
      · intro i hi
        obtain ⟨pair, hpair, rfl⟩ := List.mem_map.mp hi
        exact (hpairs pair hpair).2

/-- Every list that was read, and every list that can be written down, is read back from its
    canonical text, whatever follows the closing parenthesis. -/
theorem parse_written (suffix : List Char) :
    (∀ rest args, parse rest = .ok args → parse (args.written.toList ++ suffix) = .ok args)
    ∧ ∀ args : Arguments, args.Writable → parse (args.written.toList ++ suffix) = .ok args := by
  constructor
  · intro rest args h
    exact (readable_of_parse h).parse_append suffix
  · intro args h
    exact h.readable.parse_append suffix

/-- A trailing comma goes, and parentheses may match across two values. -/
theorem parse_written_shared_parenthesis :
    parse "( \"GET \\\")\",a(b , c)d, ) of it".toList
        = .ok (.positional [⟨.plain, "GET \\\")"⟩, ⟨.bare, "a(b"⟩, ⟨.bare, "c)d"⟩])
      ∧ parse ((positional [⟨.plain, "GET \\\")"⟩, ⟨.bare, "a(b"⟩, ⟨.bare, "c)d"⟩]).written.toList
          ++ [')', '"'])
        = .ok (.positional [⟨.plain, "GET \\\")"⟩, ⟨.bare, "a(b"⟩, ⟨.bare, "c)d"⟩])
      ∧ (named [("clé", ⟨.raw, ")\"("⟩), ("_2", ⟨.bare, "f(x)"⟩)]).Writable
      ∧ parse ((named [("clé", ⟨.raw, ")\"("⟩), ("_2", ⟨.bare, "f(x)"⟩)]).written.toList
          ++ [')', '"'])
        = .ok (.named [("clé", ⟨.raw, ")\"("⟩), ("_2", ⟨.bare, "f(x)"⟩)]) := by
  have hread : parse "( \"GET \\\")\",a(b , c)d, ) of it".toList
      = .ok (.positional [⟨.plain, "GET \\\")"⟩, ⟨.bare, "a(b"⟩, ⟨.bare, "c)d"⟩]) := by
    decide +kernel
  have hwritable : (named [("clé", ⟨.raw, ")\"("⟩), ("_2", ⟨.bare, "f(x)"⟩)]).Writable := by
    have hkey : ∀ key ∈ ["clé", "_2"], IsKey key.toList := by
      intro key hkey
      have hchars : key.toList.all isNameChar = true ∧ key.toList ≠ [] ∧
          key.toList.head?.any Char.isDigit = false := by
        rcases List.mem_pair.mp hkey with rfl | rfl <;> decide +kernel
      exact ⟨hchars.2.1, List.all_eq_true.mp hchars.1, hchars.2.2⟩
    refine ⟨by decide, by decide, ?_⟩
    simp only [List.forall_mem_cons]
    refine ⟨⟨hkey _ (by decide), ?_, ?_⟩, ⟨hkey _ (by decide), ?_, ?_⟩, ?_⟩
    · show '\x60' ∉ ")\"(".toList
      decide
    · intro h
      cases h
    · exact ⟨by decide, by decide, by decide, by decide, by decide⟩
    · intro _
      exact .char (by decide) (by decide) (.nest (.char (by decide) (by decide) .nil) .nil)
    · simp
  exact ⟨hread, (parse_written _).1 _ _ hread, hwritable, (parse_written _).2 _ hwritable⟩

end Arguments

end ServiceWiring
