import Mathlib.Data.List.Forall2
import ServiceWiring.Proofs.Bracket
import ServiceWiring.Proofs.TypeRewriting

/-!
# The results of a signature

The results of a signature are read from the text between its parameters and the first brace
behind them.  That brace need not open the body: it may be one of a result type.

* `StartsWithName` — the types of a list that are taken for a parameter with a name;
* `IsTypeText`, `ListedType`, `ResultText` — results as they are written;
* `ResultText.parseResults?_iff` — which results are read as the types that are written.
-/

namespace ServiceWiring

open Text

/-! ## Named parameters -/

/-- A text that starts like a parameter with a name: an identifier, but for the words that start a
    type, and a blank. -/
def StartsWithName (text : List Char) : Prop :=
  ∃ name c rest, IsAsciiName name ∧ typeKeywords.contains (String.ofList name) = false ∧
    isBlank c = true ∧ text = name ++ c :: rest

theorem namedPiece?_eq_some {piece name rest : List Char}
    (h : namedPiece? piece = some (name, rest)) :
    IsAsciiName name ∧ ∃ c behind, isBlank c = true ∧ piece = name ++ c :: behind
      ∧ rest = trimStart (c :: behind) := by
  unfold namedPiece? at h
  split at h
  · cases h
  · rename_i found behind hfound
    split at h
    · rename_i hvisible
      obtain ⟨rfl, rfl⟩ := Prod.mk.inj (Option.some.inj h)
      have hpiece := asciiName?_eq_append hfound
      cases behind with
      | nil => cases hvisible
      | cons c behind =>
          have hblank : isBlank c = true := (Bool.and_eq_true_iff.mp hvisible).1
          exact ⟨(isAsciiName_of_asciiName? hfound).1, c, behind, hblank, hpiece, rfl⟩
    · cases h

theorem isNamedParam_iff {piece : List Char} (htrim : trim piece = piece) :
    isNamedParam piece = true ↔ StartsWithName piece := by
  constructor
  · intro h
    unfold isNamedParam at h
    split at h
    · rename_i name rest hnamed
      obtain ⟨hname, c, behind, hblank, hpiece, -⟩ := namedPiece?_eq_some hnamed
      exact ⟨name, c, behind, hname, by simpa using h, hblank, hpiece⟩
    · cases h
  · rintro ⟨name, c, behind, hname, hkeyword, hblank, rfl⟩
    have hread : asciiName? (name ++ c :: behind) = some (name, c :: behind) := by
      refine asciiName?_append hname ?_
      show (!isAsciiNameChar c) = true
      rw [Bool.not_eq_true', ← Bool.not_eq_true]
      intro hc
      rw [isBlank_of_isAsciiNameChar hc] at hblank
      cases hblank
    -- the piece does not end in blanks
    have hvisible : trimStart (c :: behind) ≠ [] := by
      intro hblanks
      have hgap : AllBlank (c :: behind) := List.dropWhile_eq_nil_iff.mp hblanks
      have hne : trim (name ++ c :: behind) ≠ [] := by
        rw [htrim]
        exact List.append_ne_nil_of_right_ne_nil _ (List.cons_ne_nil _ _)
      have hends := (trim_ends hne).2
      rw [htrim, List.getLast?_append_of_ne_nil _ (List.cons_ne_nil _ _)] at hends
      obtain ⟨last, hlast, hlast'⟩ := (Option.any_eq_true _ _).mp hends
      rw [hgap last (List.mem_of_getLast? hlast)] at hlast'
      cases hlast'
    have hnamed : namedPiece? (name ++ c :: behind) = some (name, trimStart (c :: behind)) := by
      unfold namedPiece?
      rw [hread]
      simp [hblank, hvisible]
    unfold isNamedParam
    rw [hnamed]
    simpa using hkeyword

theorem trim_sublist (cs : List Char) : (trim cs).Sublist cs :=
  (trim_isPrefix cs).sublist.trans (List.dropWhile_sublist isBlank)

/-- The type of a piece with a name is shorter than the piece. -/
theorem countP_namedPiece? {piece name rest : List Char}
    (h : namedPiece? piece = some (name, rest)) :
    (trim rest).countP isAsciiNameChar < piece.countP isAsciiNameChar := by
  obtain ⟨hname, c, behind, -, rfl, rfl⟩ := namedPiece?_eq_some h
  have hrest : (trim (trimStart (c :: behind))).Sublist (c :: behind) :=
    (trim_sublist _).trans (List.dropWhile_sublist isBlank)
  have hpos : 0 < name.countP isAsciiNameChar := by
    rw [List.countP_eq_length.mpr hname.isAsciiNameChar]
    exact List.length_pos_iff.mpr hname.ne_nil
  have hle := hrest.countP_le (p := isAsciiNameChar)
  rw [List.countP_append]
  omega

/-- A list with a name in it is not read as its pieces, nor as texts with more in them. -/
theorem namedPiece?_eq_none_of_namedParams {waiting before : List String}
    {pieces types : List (List Char)} (hwaiting : before.length = waiting.length)
    (hpieces : List.Forall₂ (fun piece type =>
      piece.countP isAsciiNameChar ≤ type.countP isAsciiNameChar) pieces types)
    (h : (namedParams waiting pieces).map (·.type) = before ++ types.map String.ofList) :
    ∀ piece ∈ pieces, namedPiece? piece = none := by
  induction hpieces generalizing waiting before with
  | nil => exact fun piece hpiece => (nomatch hpiece)
  | @cons piece type pieces types hle _ ih =>
      cases hnamed : namedPiece? piece with
      | some found =>
          obtain ⟨name, rest⟩ := found
          have hshorter := countP_namedPiece? hnamed
          rw [namedParams, hnamed] at h
          dsimp only at h
          rw [List.map_append, List.map_map, List.map_append, List.append_assoc] at h
          -- all names that waited have the type of this piece, and it has it too
          obtain ⟨-, h⟩ := List.append_inj h (by rw [List.length_map, hwaiting])
          have htype : trim rest = type := String.ofList_injective (List.cons.inj h).1
          rw [htype] at hshorter
          omega
      | none =>
          rw [namedParams, hnamed, List.map_cons, List.append_cons before] at h
          have hlength : (before ++ [String.ofList type]).length
              = (waiting ++ [String.ofList piece]).length := by
            simp [hwaiting]
          have hrest := ih hlength h
          intro other hother
          rcases List.mem_cons.mp hother with rfl | hother
          · exact hnamed
          · exact hrest other hother

/-- A list of types is read as it is, unless one of them starts like a parameter with a name. -/
theorem parseParams_types {cs : List Char} {types : List (List Char)}
    (hpieces : List.Forall₂ (fun piece type =>
      piece.countP isAsciiNameChar ≤ type.countP isAsciiNameChar) (splitTopLevel cs) types) :
    (parseParams cs).map (·.type) = types.map String.ofList
      ↔ splitTopLevel cs = types ∧ ∀ type ∈ types, isNamedParam type = false := by
  unfold parseParams
  dsimp only
  by_cases hany : (splitTopLevel cs).any isNamedParam = true
  · rw [if_pos hany]
    obtain ⟨piece, hpiece, hnamed⟩ := List.any_eq_true.mp hany
    constructor
    · intro h
      rw [← List.nil_append (types.map String.ofList)] at h
      have hnone := namedPiece?_eq_none_of_namedParams rfl hpieces h piece hpiece
      rw [isNamedParam, hnone] at hnamed
      cases hnamed
    · rintro ⟨rfl, hnot⟩
      rw [hnot piece hpiece] at hnamed
      cases hnamed
  · rw [if_neg hany, List.map_map]
    have hnot : ∀ piece ∈ splitTopLevel cs, isNamedParam piece = false := by
      simpa using hany
    constructor
    · intro h
      have heq : splitTopLevel cs = types :=
        List.map_injective_iff.mpr (fun _ _ => String.ofList_injective) h
      exact ⟨heq, heq ▸ hnot⟩
    · rintro ⟨rfl, -⟩
      rfl

/-! ## Results -/

/-- The text of a type: code with closed brackets, without commas outside of them, that starts and
    ends visibly. -/
structure IsTypeText (type : List Char) : Prop where
  whole : Code.IsWhole type
  undivided : Code.Undivided (Code.ofText type)
  trimmed : trim (Code.ofText type) = Code.ofText type
  nonempty : Code.ofText type ≠ []

theorem IsTypeText.of_all {type : List Char} (hplain : type.all (Code.IsPlain ·) = true)
    (hundivided : Code.Undivided type) (htrim : trim type = type) (hne : type ≠ []) :
    IsTypeText type := by
  have hread : Code.ReadsAs type type := .of_all hplain
  refine ⟨hread.isWhole, ?_, ?_, ?_⟩
  all_goals rw [hread.ofText_eq]
  all_goals assumption

/-- A type of a list, with the blanks around it. -/
structure ListedType where
  before : List Char
  type : List Char
  behind : List Char

namespace ListedType

variable {items : List ListedType}

/-- The text of a listed type. -/
def text (item : ListedType) : List Char :=
  item.before ++ item.type ++ item.behind

/-- The code of a listed type. -/
def code (item : ListedType) : ListedType :=
  { item with type := Code.ofText item.type }

/-- A listed type with blanks around it. -/
structure IsWritten (item : ListedType) : Prop where
  before : AllBlank item.before
  behind : AllBlank item.behind
  type : IsTypeText item.type

theorem IsWritten.readsAs {item : ListedType} (h : item.IsWritten) :
    Code.ReadsAs item.text item.code.text := by
  have hblank : ∀ {gap : List Char}, AllBlank gap → Code.ReadsAs gap gap :=
    fun hgap => .plain fun c hc => Code.isPlain_of_isBlank (hgap c hc)
  exact ((hblank h.before).append h.type.whole).append (hblank h.behind)

theorem IsWritten.trim_code {item : ListedType} (h : item.IsWritten) :
    trim item.code.text = Code.ofText item.type := by
  show trim (item.before ++ Code.ofText item.type ++ item.behind) = _
  rw [h.behind.trim_append]
  show trimEnd (trimStart (item.before ++ Code.ofText item.type)) = _
  rw [h.before.trimStart_append]
  exact h.type.trimmed

theorem IsWritten.undivided {item : ListedType} (h : item.IsWritten) :
    Code.Undivided item.code.text :=
  ((Code.Undivided.blank h.before).append h.type.undivided).append (.blank h.behind)

theorem IsWritten.brace_mem {item : ListedType} (h : item.IsWritten) :
    '\x7b' ∈ item.code.text ↔ '\x7b' ∈ Code.ofText item.type := by
  have hbefore : '\x7b' ∉ item.before := fun hmem => by cases h.before _ hmem
  have hbehind : '\x7b' ∉ item.behind := fun hmem => by cases h.behind _ hmem
  simp [text, code, hbefore, hbehind]

/-- The code of listed types is divided into them. -/
theorem splitTopLevel_code (h : ∀ item ∈ items, item.IsWritten) :
    splitTopLevel ([','].intercalate (items.map (·.code.text)))
      = items.map fun item => Code.ofText item.type := by
  rw [Code.splitTopLevel_intercalate, List.map_map, List.filter_eq_self.mpr]
  · exact List.map_congr_left fun item hitem => (h item hitem).trim_code
  · intro part hpart
    obtain ⟨item, hitem, rfl⟩ := List.mem_map.mp hpart
    have hne := (h item hitem).type.nonempty
    simpa [(h item hitem).trim_code] using hne
  · intro part hpart
    obtain ⟨item, hitem, rfl⟩ := List.mem_map.mp hpart
    exact (h item hitem).undivided

theorem balanced_code (h : ∀ item ∈ items, item.IsWritten) :
    Code.Balanced ([','].intercalate (items.map (·.code.text))) := by
  refine Code.Balanced.intercalate (.char (by decide) .nil) fun part hpart => ?_
  obtain ⟨item, hitem, rfl⟩ := List.mem_map.mp hpart
  exact (h item hitem).undivided.balanced

end ListedType

/-- The results of a signature, as they are written. -/
inductive ResultText where
  | none
  | bare (type : List Char)
  | listed (items : List ListedType)

namespace ResultText

/-- The types of the results. -/
def types : ResultText → List (List Char)
  | none => []
  | bare type => [type]
  | listed items => items.map (·.type)

/-- The text of the results, with a blank behind them. -/
def text : ResultText → List Char
  | none => []
  | bare type => type ++ [' ']
  | listed items => '(' :: ([','].intercalate (items.map (·.text)) ++ [')', ' '])

/-- The code of the results. -/
def code : ResultText → ResultText
  | none => none
  | bare type => bare (Code.ofText type)
  | listed items => listed (items.map (·.code))

/-- Results that are types; a single one without parentheses does not start with one. -/
def IsWritten : ResultText → Prop
  | none => True
  | bare type => IsTypeText type ∧ (Code.ofText type).head? ≠ some '('
  | listed items => ∀ item ∈ items, item.IsWritten

/-- A type that is read as it is written: code without comments and literal contents, without
    braces, and in a list not taken for a parameter with a name. -/
def ReadsBack (results : ResultText) (type : List Char) : Prop :=
  Code.ofText type = type ∧ '\x7b' ∉ type
    ∧ ((∃ items, results = .listed items) → ¬ StartsWithName type)

end ResultText

/-! ## Reading results -/

theorem brace_mem_of_mem_ofText {type : List Char} (h : '\x7b' ∈ Code.ofText type) :
    '\x7b' ∈ type := by
  rcases Code.mem_of_mem_ofText h with hmem | hblank
  · exact hmem
  · cases hblank

theorem takeWhile_brace_self {front : List Char} (h : '\x7b' ∉ front) :
    front.takeWhile (· != '\x7b') = front :=
  List.takeWhile_eq_self_iff.mpr (bne_of_not_mem h)

theorem takeWhile_brace {front : List Char} (h : '\x7b' ∉ front) (tail : List Char) :
    (front ++ '\x7b' :: tail).takeWhile (· != '\x7b') = front :=
  takeWhile_run (bne_of_not_mem h) rfl

theorem takeWhile_brace_of_mem {front : List Char} (h : '\x7b' ∈ front) (tail : List Char) :
    (front ++ tail).takeWhile (· != '\x7b') = front.takeWhile (· != '\x7b') := by
  obtain ⟨before, behind, rfl, hbefore⟩ := List.eq_append_cons_of_mem h
  rw [List.append_assoc, List.cons_append, takeWhile_brace hbefore, takeWhile_brace hbefore]

theorem brace_not_mem_takeWhile (cs : List Char) : '\x7b' ∉ cs.takeWhile (· != '\x7b') := by
  intro h
  have hne := List.mem_takeWhile_imp h
  cases hne

/-- The text of results is cut at the first brace. -/
theorem trim_cutResults (type tail : List Char) :
    trim ((' ' :: (type ++ [' '] ++ '\x7b' :: tail)).takeWhile (· != '\x7b'))
      = trim (type.takeWhile (· != '\x7b')) := by
  show trim (' ' :: (type ++ [' '] ++ '\x7b' :: tail).takeWhile (· != '\x7b')) = _
  show trim ((type ++ [' '] ++ '\x7b' :: tail).takeWhile (· != '\x7b')) = _
  by_cases hbrace : '\x7b' ∈ type
  · rw [List.append_assoc, takeWhile_brace_of_mem hbrace]
  · have hspaced : '\x7b' ∉ type ++ [' '] := by
      simp [hbrace]
    rw [takeWhile_brace hspaced, trim_concat rfl, takeWhile_brace_self hbrace]

theorem parseResults?_bare {type : List Char} (htype : IsTypeText type)
    (hbare : (Code.ofText type).head? ≠ some '(') (tail : List Char) :
    parseResults? (' ' :: (Code.ofText type ++ [' '] ++ '\x7b' :: tail))
        = some [String.ofList type]
      ↔ Code.ofText type = type ∧ '\x7b' ∉ type := by
  have hstart : trim ((Code.ofText type).takeWhile (· != '\x7b')) <+: Code.ofText type := by
    refine (trim_isPrefix _).trans ?_
    have hvisible : trimStart (Code.ofText type) = Code.ofText type :=
      trimStart_eq_self (visible_of_trim htype.trimmed htype.nonempty)
    rw [trimStart_takeWhile hvisible]
    exact List.takeWhile_prefix _
  unfold parseResults?
  rw [trim_cutResults]
  dsimp only
  rw [if_neg]
  · constructor
    · intro h
      have hread : trim ((Code.ofText type).takeWhile (· != '\x7b')) = type := by
        split at h
        · cases h
        · exact String.ofList_injective (List.cons.inj (Option.some.inj h)).1
      -- what is read has no brace, so nothing was cut off
      have hbrace : '\x7b' ∉ type := by
        rw [← hread]
        exact fun hmem => brace_not_mem_takeWhile _ (trim_subset _ hmem)
      have hcode : '\x7b' ∉ Code.ofText type := fun hmem => hbrace (brace_mem_of_mem_ofText hmem)
      rw [takeWhile_brace_self hcode, htype.trimmed] at hread
      exact ⟨hread, hbrace⟩
    · rintro ⟨hcode, hbrace⟩
      have htrim := htype.trimmed
      have hne := htype.nonempty
      rw [hcode] at htrim hne ⊢
      rw [takeWhile_brace_self hbrace, htrim, if_neg (by simpa using hne)]
  · intro hopen
    refine hbare ?_
    obtain ⟨behind, hbehind⟩ := hstart
    rw [← hbehind, List.head?_append, hopen]
    rfl

theorem mem_intercalate_comma {c : Char} (hc : c ≠ ',') {parts : List (List Char)} :
    c ∈ [','].intercalate parts ↔ ∃ part ∈ parts, c ∈ part := by
  induction parts with
  | nil => simp
  | cons part parts ih =>
      cases parts with
      | nil => simp
      | cons next more =>
          rw [List.intercalate_cons_cons, List.mem_append, List.mem_append, ih]
          simp [hc]

/-- The text of a list with a brace in it is cut inside of its parentheses. -/
theorem parseResults?_list_brace {inner : List Char} (hinner : Code.Balanced inner)
    (hbrace : '\x7b' ∈ inner) (tail : List Char) :
    parseResults? (' ' :: '(' :: (inner ++ tail)) = none := by
  have hcut : trim ((' ' :: '(' :: (inner ++ tail)).takeWhile (· != '\x7b'))
      = '(' :: trimEnd (inner.takeWhile (· != '\x7b')) := by
    show trimEnd (['('] ++ (inner ++ tail).takeWhile (· != '\x7b')) = _
    rw [takeWhile_brace_of_mem hbrace, trimEnd_append rfl]
    rfl
  have hstart : trimEnd (inner.takeWhile (· != '\x7b')) <+: inner := by
    obtain ⟨gap, -, hgap⟩ := exists_gap_trimEnd (inner.takeWhile (· != '\x7b'))
    refine List.IsPrefix.trans ?_ (List.takeWhile_prefix (· != '\x7b'))
    exact ⟨gap, hgap.symm⟩
  unfold parseResults?
  rw [hcut]
  dsimp only
  rw [List.head?_cons, if_pos rfl, hinner.takeBracketed_prefix hstart]
  rfl

/-- A list of types without a brace is read as a parameter list. -/
theorem parseResults?_list {inner : List Char} (hinner : Code.Balanced inner)
    (hbrace : '\x7b' ∉ inner) (tail : List Char) :
    parseResults? (' ' :: '(' :: (inner ++ [')', ' '] ++ '\x7b' :: tail))
      = some ((parseParams inner).map (·.type)) := by
  have hcut : trim ((' ' :: '(' :: (inner ++ [')', ' '] ++ '\x7b' :: tail)).takeWhile
      (· != '\x7b')) = '(' :: (inner ++ [')']) := by
    have hlist : '\x7b' ∉ inner ++ [')', ' '] := by
      simp [hbrace]
    show trimEnd ('(' :: (inner ++ [')', ' '] ++ '\x7b' :: tail).takeWhile (· != '\x7b')) = _
    have hlast : ('(' :: (inner ++ [')'])).getLast?.any (!isBlank ·) = true := by
      rw [← List.cons_append, List.getLast?_concat]
      rfl
    rw [takeWhile_brace hlist, List.append_cons, ← List.cons_append, trimEnd_append hlast]
    exact List.append_nil _
  unfold parseResults?
  rw [hcut]
  dsimp only
  rw [List.head?_cons, if_pos rfl, hinner.takeBracketed]
  rfl

namespace ListedType

variable {items : List ListedType}

theorem brace_mem_list (h : ∀ item ∈ items, item.IsWritten) :
    '\x7b' ∈ [','].intercalate (items.map (·.code.text))
      ↔ ∃ item ∈ items, '\x7b' ∈ Code.ofText item.type := by
  rw [mem_intercalate_comma (by decide)]
  constructor
  · rintro ⟨part, hpart, hmem⟩
    obtain ⟨item, hitem, rfl⟩ := List.mem_map.mp hpart
    exact ⟨item, hitem, (h item hitem).brace_mem.mp hmem⟩
  · rintro ⟨item, hitem, hmem⟩
    exact ⟨_, List.mem_map_of_mem hitem, (h item hitem).brace_mem.mpr hmem⟩

/-- The types of a list are read as they are written, but for literals and comments in them, and
    unless one is taken for a parameter with a name. -/
theorem parseParams_list (h : ∀ item ∈ items, item.IsWritten) :
    (parseParams ([','].intercalate (items.map (·.code.text)))).map (·.type)
        = (items.map (·.type)).map String.ofList
      ↔ ∀ item ∈ items, Code.ofText item.type = item.type ∧ ¬ StartsWithName item.type := by
  have hpieces : List.Forall₂ (fun piece type =>
      piece.countP isAsciiNameChar ≤ type.countP isAsciiNameChar)
      (splitTopLevel ([','].intercalate (items.map (·.code.text)))) (items.map (·.type)) := by
    rw [splitTopLevel_code h, List.forall₂_map_left_iff, List.forall₂_map_right_iff,
      List.forall₂_same]
    exact fun item _ => Code.countP_ofText_le item.type
  rw [parseParams_types hpieces, splitTopLevel_code h, List.map_inj_left, List.forall_mem_map,
    ← forall₂_and]
  refine forall_congr' fun item => forall_congr' fun hitem => and_congr_right fun hcode => ?_
  have htrim : trim item.type = item.type := by
    have htrimmed := (h item hitem).type.trimmed
    rwa [hcode] at htrimmed
  rw [← isNamedParam_iff htrim, Bool.not_eq_true]

end ListedType

namespace ResultText

variable {results : ResultText}

theorem code_listed (items : List ListedType) :
    (listed items).code.text
      = '(' :: ([','].intercalate (items.map (·.code.text)) ++ [')', ' ']) := by
  show '(' :: ([','].intercalate ((items.map (·.code)).map (·.text)) ++ _) = _
  rw [List.map_map]
  rfl

theorem IsWritten.readsAs (h : results.IsWritten) :
    Code.ReadsAs results.text results.code.text := by
  cases results with
  | none => exact fun rest => rfl
  | bare type => exact h.1.whole.append (.of_all (by decide))
  | listed items =>
      have hlist : Code.ReadsAs ([','].intercalate (items.map (·.text)))
          ([','].intercalate (items.map (·.code.text))) :=
        .intercalate (.of_all (by decide)) fun item hitem => (h item hitem).readsAs
      have hopen : Code.ReadsAs ['('] ['('] := .of_all (by decide)
      have hclose : Code.ReadsAs [')', ' '] [')', ' '] := .of_all (by decide)
      rw [code_listed]
      exact hopen.append (hlist.append hclose)

/-- Results are read as the types that are written exactly if each of the types is. -/
theorem parseResults?_iff (h : results.IsWritten) (tail : List Char) :
    parseResults? (' ' :: (results.code.text ++ '\x7b' :: tail))
        = some (results.types.map String.ofList)
      ↔ ∀ type ∈ results.types, results.ReadsBack type := by
  cases results with
  | none => exact ⟨fun _ type htype => (nomatch htype), fun _ => rfl⟩
  | bare type =>
      refine (parseResults?_bare h.1 h.2 tail).trans ?_
      simp [types, ReadsBack]
  | listed items =>
      have hinner := ListedType.balanced_code h
      rw [code_listed]
      by_cases hbrace : '\x7b' ∈ [','].intercalate (items.map (·.code.text))
      · -- a brace in one of the types is taken for that of the body
        rw [List.cons_append, List.append_assoc, parseResults?_list_brace hinner hbrace]
        obtain ⟨item, hitem, hmem⟩ := (ListedType.brace_mem_list h).mp hbrace
        constructor
        · intro hread
          cases hread
        · intro hread
          obtain ⟨-, hnot, -⟩ := hread item.type (List.mem_map_of_mem hitem)
          exact absurd (brace_mem_of_mem_ofText hmem) hnot
      · rw [List.cons_append, parseResults?_list hinner hbrace, Option.some.injEq, types,
          ListedType.parseParams_list h, List.forall_mem_map]
        refine forall_congr' fun item => forall_congr' fun hitem => ?_
        constructor
        · rintro ⟨hcode, hname⟩
          refine ⟨hcode, fun hmem => hbrace ?_, fun _ => hname⟩
          exact (ListedType.brace_mem_list h).mpr ⟨item, hitem, hcode.symm ▸ hmem⟩
        · rintro ⟨hcode, -, hname⟩
          exact ⟨hcode, hname ⟨items, rfl⟩⟩

end ResultText

end ServiceWiring
