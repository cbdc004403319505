import ServiceWiring.Proofs.ConfigArgument
import ServiceWiring.Proofs.PlanText
import ServiceWiring.Proofs.StringLiteral

/-!
# Defaults of string lists

The default of a list of texts is cut at its separators as it is written, and each part goes back
into the quotes of the whole.  Between double quotes that is a literal only if no cut falls between
a backslash and the character that it escapes.

* `Text.exists_of_mem_splitOn` — where a part stands;
* `DefaultValue.list_complete_iff` — when all items are complete literals;
* `DefaultValue.list_complete_of_apart` — separators and escapes that keep apart.
-/

namespace ServiceWiring

namespace Text

variable {sep cs part : List Char}

/-! ## Where the parts stand -/

theorem splitOnFrom_skip (sep : List Char) (skip : ℕ) (cs : List Char) :
    splitOnFrom sep skip cs = splitOnFrom sep 0 (cs.drop skip) := by
  induction cs generalizing skip with
  | nil =>
      rw [List.drop_nil]
      cases skip with
      | zero => rfl
      | succ skip => rfl
  | cons c cs ih =>
      cases skip with
      | zero => rfl
      | succ skip => exact ih skip

/-- A text starts with the separator, or its first character belongs to its first part. -/
theorem splitOnFrom_cons (hsep : sep ≠ []) (c : Char) (cs : List Char) :
    (∃ rest, c :: cs = sep ++ rest ∧ splitOnFrom sep 0 (c :: cs) = [] :: splitOnFrom sep 0 rest)
      ∨ splitOnFrom sep 0 (c :: cs) = extendHead c (splitOnFrom sep 0 cs) := by
  by_cases h : startsWith sep (c :: cs) = true
  · left
    obtain ⟨rest, hrest⟩ := Option.isSome_iff_exists.mp h
    have hsplit := after?_eq_some_iff.mp hrest
    refine ⟨rest, hsplit, ?_⟩
    obtain ⟨d, sep', rfl⟩ := List.exists_cons_of_ne_nil hsep
    have hbehind : cs = sep' ++ rest := (List.cons.inj hsplit).2
    rw [splitOnFrom, if_pos h, splitOnFrom_skip, hbehind, List.length_cons, Nat.add_sub_cancel,
      List.drop_left]
  · right
    rw [splitOnFrom, if_neg h]

theorem splitOnFrom_ne_nil (sep cs : List Char) : splitOnFrom sep 0 cs ≠ [] := by
  cases cs with
  | nil => exact List.cons_ne_nil _ _
  | cons c cs =>
      rw [splitOnFrom]
      split
      · exact List.cons_ne_nil _ _
      · unfold extendHead
        split
        · exact List.cons_ne_nil _ _
        · exact List.cons_ne_nil _ _

theorem intercalate_extendHead (c : Char) {parts : List (List Char)} (h : parts ≠ []) :
    sep.intercalate (extendHead c parts) = c :: sep.intercalate parts := by
  obtain ⟨first, more, rfl⟩ := List.exists_cons_of_ne_nil h
  rw [extendHead, intercalate_eq_append, intercalate_eq_append, List.cons_append]

/-- The parts with the separator between them are the text. -/
theorem intercalate_splitOnFrom (hsep : sep ≠ []) (cs : List Char) :
    sep.intercalate (splitOnFrom sep 0 cs) = cs := by
  induction hlength : cs.length using Nat.strong_induction_on generalizing cs with
  | _ length ih =>
      subst hlength
      cases cs with
      | nil => rw [splitOnFrom, List.intercalate_singleton]
      | cons c cs =>
          rcases splitOnFrom_cons hsep c cs with ⟨rest, hrest, hsplit⟩ | hsplit
          · have hshorter : rest.length < (c :: cs).length := by
              have hpos := List.length_pos_iff.mpr hsep
              rw [hrest, List.length_append]
              omega
            obtain ⟨first, more, hparts⟩ :=
              List.exists_cons_of_ne_nil (splitOnFrom_ne_nil sep rest)
            have hjoined := ih _ hshorter rest rfl
            rw [hparts] at hjoined
            rw [hsplit, hparts, List.intercalate_cons_cons, hjoined, List.nil_append, hrest]
          · rw [hsplit, intercalate_extendHead c (splitOnFrom_ne_nil sep cs),
              ih _ (Nat.lt_succ_self _) cs rfl]

theorem exists_of_mem_intercalate (sep : List Char) {parts : List (List Char)} (h : part ∈ parts) :
    ∃ front behind, sep.intercalate parts = front ++ (part ++ behind)
      ∧ (front = [] ∨ ∃ more, front = more ++ sep)
      ∧ (behind = [] ∨ ∃ more, behind = sep ++ more) := by
  induction parts with
  | nil => cases h
  | cons first parts ih =>
      cases parts with
      | nil =>
          rw [List.mem_singleton.mp h, List.intercalate_singleton]
          exact ⟨[], [], (List.append_nil _).symm, .inl rfl, .inl rfl⟩
      | cons next parts =>
          rw [List.intercalate_cons_cons]
          rcases List.mem_cons.mp h with rfl | h
          · exact ⟨[], sep ++ sep.intercalate (next :: parts), List.append_assoc .., .inl rfl,
              .inr ⟨_, rfl⟩⟩
          · obtain ⟨front, behind, hjoined, hfront, hbehind⟩ := ih h
            refine ⟨first ++ sep ++ front, behind, ?_, .inr ?_, hbehind⟩
            · rw [hjoined, List.append_assoc _ front]
            · rcases hfront with rfl | ⟨more, rfl⟩
              · exact ⟨first, List.append_nil _⟩
              · exact ⟨first ++ sep ++ more, (List.append_assoc ..).symm⟩

/-- In front of each part and behind it stands a separator or the end of the text. -/
theorem exists_of_mem_splitOn (hsep : sep ≠ []) (h : part ∈ splitOn sep cs) : ∃ front behind,
    cs = front ++ (part ++ behind) ∧ (front = [] ∨ ∃ more, front = more ++ sep)
      ∧ (behind = [] ∨ ∃ more, behind = sep ++ more) := by
  rw [splitOn, if_neg (by simpa using hsep)] at h
  have hplace := exists_of_mem_intercalate sep h
  rwa [intercalate_splitOnFrom hsep] at hplace

end Text

open Text StringLiteral

/-! ## The type of a string list -/

namespace TypeExpr

variable {type : TypeExpr}

theorem isMember_of_not_mem (h : '.' ∉ type.text.toList) (path name : String) :
    type.isMember path name = false := by
  have hnone : type.text.toList.dropWhile (· != '.') = [] := by
    rw [List.dropWhile_eq_nil_iff]
    exact bne_of_not_mem h
  rw [isMember, hnone]

/-- A type without a qualifier is the same whatever the imports are called. -/
theorem renderWith_of_not_mem (h : '.' ∉ type.text.toList) (nameOf : String → Option String) :
    type.renderWith nameOf = type.text := by
  have hchars : ∀ segment ∈ TypeText.segments type.text.toList, ∃ c, segment = .char c := by
    intro segment hsegment
    cases segment with
    | char c => exact ⟨c, rfl⟩
    | qualified qualifier member =>
        have hdot : '.' ∈ (TypeText.Segment.qualified qualifier member).text :=
          List.mem_append_right _ (List.mem_cons_self ..)
        exact absurd (TypeText.text_subset_of_mem_segments hsegment hdot) h
  unfold renderWith
  dsimp only
  rw [List.flatMap_congr (g := TypeText.Segment.text), TypeText.segments,
    TypeText.flatMap_text_segmentsFrom, String.ofList_toList]
  intro segment hsegment
  obtain ⟨c, rfl⟩ := hchars segment hsegment
  rfl

end TypeExpr

theorem ScalarKind.ofType?_of_not_mem {type : TypeExpr} (h : '.' ∉ type.text.toList) :
    ofType? type = ofTypeName? (trimmed type.text) := by
  rw [ofType?, TypeExpr.isMember_of_not_mem h, if_neg Bool.false_ne_true]

/-- The type of a string list, as it is classified. -/
theorem TypeShape.classify_stringList (hooks : List String) {type : TypeExpr}
    (htype : type.text = "[]string") :
    classify hooks type = .list .string { type with text := "string" } := by
  have hlist : ScalarKind.ofType? type = none := by
    rw [ScalarKind.ofType?_of_not_mem (by rw [htype]; decide), htype]
    rfl
  have helement : ScalarKind.ofType? { type with text := "string" } = some .string := by
    rw [ScalarKind.ofType?_of_not_mem (by show '.' ∉ "string".toList; decide)]
    show ScalarKind.ofTypeName? (trimmed "string") = some .string
    rfl
  have htext : trim "[]string".toList = '[' :: ']' :: "string".toList := by
    rfl
  rw [classify, hlist, htype, htext]
  dsimp only
  rw [if_neg (by decide)]
  simp only [String.ofList_toList, helement]

namespace DefaultValue

open Arguments

variable {separator : String} {value : Argument} {part : List Char}

/-! ## The items of a list -/

/-- The parts of a text between the separators, trimmed, without the empty ones. -/
def parts (separator : String) (text : String) : List (List Char) :=
  ((splitOn separator.toList text.toList).map trim).filter fun part => !part.isEmpty

theorem subset_of_mem_parts {text : String} (h : part ∈ parts separator text) :
    part ⊆ text.toList := by
  obtain ⟨hpart, -⟩ := List.mem_filter.mp h
  obtain ⟨whole, hwhole, rfl⟩ := List.mem_map.mp hpart
  exact List.Subset.trans (trim_subset whole) (subset_of_mem_splitOn hwhole)

theorem literal_withText (hquoted : value.quoting ≠ .bare) (text : List Char) :
    ((value.withText (String.ofList text)).literal).toList
      = if value.quoting = .raw then '\x60' :: (text ++ ['\x60']) else '"' :: (text ++ ['"']) := by
  obtain ⟨quoting, whole⟩ := value
  cases quoting with
  | plain => simp [Argument.withText, Argument.literal, Argument.written]
  | raw => simp [Argument.withText, Argument.literal, Argument.written]
  | bare => exact absurd rfl hquoted

/-- Separators and blanks that keep apart from escapes leave complete literals. -/
theorem isPlainText_of_mem_parts {text : String} (h : IsPlainText text.toList)
    (hsep : separator.toList ≠ []) (hescape : '\\' ∉ separator.toList)
    (hapart : ∀ c ∈ escaped text.toList, isBlank c = false ∧ separator.toList.head? ≠ some c)
    (hpart : part ∈ parts separator text) : IsPlainText part := by
  obtain ⟨hpart, -⟩ := List.mem_filter.mp hpart
  obtain ⟨whole, hwhole, rfl⟩ := List.mem_map.mp hpart
  obtain ⟨front, behind, htext, hfront, hbehind⟩ := exists_of_mem_splitOn hsep hwhole
  obtain ⟨gap, hgap, hstart⟩ := exists_gap_trimStart whole
  obtain ⟨gap', hgap', hend⟩ := exists_gap_trimEnd (trimStart whole)
  have hplace : text.toList = (front ++ gap) ++ (trim whole ++ (gap' ++ behind)) := by
    have hwhole : whole = gap ++ (trim whole ++ gap') := by
      rw [trim, ← hend, ← hstart]
    conv_lhs => rw [htext, hwhole]
    simp only [List.append_assoc]
  have hblank : isBlank '\\' = false := rfl
  rw [hplace] at h hapart
  refine h.between ?_ ?_
  · -- the cut in front stands behind a blank, behind a separator or nowhere
    intro hlast
    rcases List.eq_nil_or_concat' gap with rfl | ⟨gap, c, rfl⟩
    · rw [List.append_nil] at hlast
      rcases hfront with rfl | ⟨more, rfl⟩
      · cases hlast
      · rw [List.getLast?_append_of_ne_nil _ hsep] at hlast
        exact hescape (List.mem_of_getLast? hlast)
    · rw [← List.append_assoc, List.getLast?_concat] at hlast
      obtain rfl := Option.some.inj hlast
      have hc := hgap '\\' (List.mem_append_right _ (List.mem_singleton_self _))
      rw [hblank] at hc
      cases hc
  · -- what stands behind the part is a blank, a separator or nothing, and no escape starts so
    intro c hc hmem
    obtain ⟨hvisible, hother⟩ := hapart c hmem
    cases gap' with
    | nil =>
        rcases hbehind with rfl | ⟨more, rfl⟩
        · cases hc
        · rw [List.nil_append, List.head?_append_of_ne_nil _ hsep] at hc
          exact hother hc
    | cons d gap' =>
        obtain rfl := Option.some.inj hc
        rw [hgap' d (List.mem_cons_self ..)] at hvisible
        cases hvisible

/-- The literals of the items: the parts in the quotes of the whole text. -/
def literals (separator : String) (value : Argument) : List String :=
  (parts separator value.text).map fun part => (value.withText (String.ofList part)).literal

theorem ofShape_list (element : TypeExpr) (separator : String) (value : Argument) :
    ofShape (.list .string element) separator value
      = .ok (.list element ((literals separator value).map .expression)) := by
  have hitems : ∀ items : List Argument,
      items.mapM (ofScalar .string) = .ok (items.map fun item => .expression item.literal) := by
    intro items
    induction items with
    | nil => rfl
    | cons item items ih =>
        rw [List.mapM_cons, ih]
        rfl
  show ((itemsOf separator value).mapM (ofScalar .string)).map (DefaultValue.list element) = _
  rw [hitems, literals, List.map_map]
  show Except.ok (DefaultValue.list element ((List.map _ _).map _)) = _
  rw [List.map_map]
  rfl

theorem render_list {element : TypeExpr} (helement : '.' ∉ element.text.toList)
    (imports : ResolvedImports) (texts : List String) :
    (DefaultValue.list element (texts.map .expression)).render imports
      = "[]" ++ element.text ++ "\x7b" ++ String.intercalate ", " texts ++ "\x7d" := by
  have htexts : (texts.map DefaultValue.expression).map (fun item => item.render imports)
      = texts := by
    rw [List.map_map]
    exact (List.map_congr_left fun text _ => by simp [render]).trans (List.map_id texts)
  rw [render, ResolvedImports.renderType, TypeExpr.renderWith_of_not_mem helement, htexts]

theorem isToken_literals_iff (hreadable : value.IsReadable) (hquoted : value.quoting ≠ .bare)
    (separator : String) :
    (∀ literal ∈ literals separator value, IsToken literal.toList)
      ↔ value.quoting = .raw ∨ ∀ part ∈ parts separator value.text, IsPlainText part := by
  rw [literals, List.forall_mem_map]
  simp only [literal_withText hquoted]
  by_cases hraw : value.quoting = .raw
  · simp only [hraw, if_true, true_or, iff_true]
    intro part hpart
    have hnone : '\x60' ∉ value.text.toList := by
      unfold Argument.IsReadable at hreadable
      rwa [hraw] at hreadable
    exact .raw fun hmem => hnone (subset_of_mem_parts hpart hmem)
  · simp only [hraw, if_false, false_or, isToken_plain_iff]

/-- The default of a string list is one literal for each part of its text that is not blank.  All
    of them are complete exactly if the text stands between backticks, or no part ends behind a
    lone backslash or holds a quote that lost its backslash to a cut. -/
theorem list_complete_iff {body : List Char} {spec : ConfigSpec} {args : Arguments}
    (hparse : Directive.parse? body = .ok (some (.config spec, args)))
    (hdefault : spec.default = some value) (hquoted : value.quoting ≠ .bare)
    (hooks : List String) {type : TypeExpr} (htype : type.text = "[]string")
    (separator : String) :
    ∃ d, ofShape (TypeShape.classify hooks type) separator value = .ok d
      ∧ (∀ imports, d.render imports
          = "[]string\x7b" ++ String.intercalate ", " (literals separator value) ++ "\x7d")
      ∧ ((∀ literal ∈ literals separator value, IsToken literal.toList)
          ↔ value.quoting = .raw ∨ ∀ part ∈ parts separator value.text, IsPlainText part) := by
  rw [TypeShape.classify_stringList hooks htype, ofShape_list]
  refine ⟨_, rfl, fun imports => ?_, ?_⟩
  · rw [render_list (by show '.' ∉ "string".toList; decide)]
    rfl
  · obtain ⟨hreadable, htaken⟩ := Directive.config_of_parse? hparse
    have hvalue : args.get? "default" = some value := htaken.default.symm.trans hdefault
    exact isToken_literals_iff (hreadable value (mem_values_of_get? hvalue)) hquoted separator

/-- The letters that Go reads behind a backslash. -/
def escapeLetters : List Char :=
  ['a', 'b', 'f', 'n', 'r', 't', 'v', '\\', '"', 'x', 'u', 'U', '0', '1', '2', '3', '4', '5', '6',
    '7']

/-- A separator without a backslash that does not begin with such a letter, like the one that is
    used when none is given, keeps all escapes whole. -/
theorem list_complete_of_apart {body : List Char} {spec : ConfigSpec} {args : Arguments}
    (hparse : Directive.parse? body = .ok (some (.config spec, args)))
    (hdefault : spec.default = some value) (hquoted : value.quoting ≠ .bare)
    (hescapes : escaped value.text.toList ⊆ escapeLetters) (hsep : separator.toList ≠ [])
    (hescape : '\\' ∉ separator.toList)
    (hfirst : ∀ c ∈ separator.toList.head?, c ∉ escapeLetters) :
    ∀ literal ∈ literals separator value, IsToken literal.toList := by
  obtain ⟨hreadable, htaken⟩ := Directive.config_of_parse? hparse
  have hvalue : args.get? "default" = some value := htaken.default.symm.trans hdefault
  have hvisible : ∀ c ∈ escapeLetters, isBlank c = false := by
    have hall : escapeLetters.all (!isBlank ·) = true := by
      decide
    intro c hc
    simpa using List.all_eq_true.mp hall c hc
  replace hreadable := hreadable value (mem_values_of_get? hvalue)
  rw [isToken_literals_iff hreadable hquoted]
  unfold Argument.IsReadable at hreadable
  cases hcases : value.quoting with
  | raw => exact .inl rfl
  | bare => exact absurd hcases hquoted
  | plain =>
      rw [hcases] at hreadable
      right
      intro part hpart
      refine isPlainText_of_mem_parts hreadable hsep hescape ?_ hpart
      intro c hc
      refine ⟨hvisible c (hescapes hc), ?_⟩
      intro hhead
      exact hfirst c hhead (hescapes hc)

/-- A directive whose default has an escaped quote and a part of blanks. -/
def commaBody : String := "Config(key=k, default=\"a\\\"b , ,c\")"

def commaDefault : Argument := ⟨.plain, "a\\\"b , ,c"⟩

/-- The escaped quote stays with its backslash, and the blank part is left out. -/
theorem list_complete_of_comma :
    Directive.parse? commaBody.toList
        = .ok (some (.config ⟨"k", some commaDefault, none, ","⟩,
            .named [("key", ⟨.bare, "k"⟩), ("default", commaDefault)]))
      ∧ ∃ d, ofShape (TypeShape.classify [] ⟨"[]string", []⟩) "," commaDefault = .ok d
        ∧ d.render ⟨[]⟩ = "[]string\x7b\"a\\\"b\", \"c\"\x7d"
        ∧ ∀ literal ∈ ["\"a\\\"b\"", "\"c\""], IsToken literal.toList := by
  have hparse : Directive.parse? commaBody.toList
      = .ok (some (.config ⟨"k", some commaDefault, none, ","⟩,
          .named [("key", ⟨.bare, "k"⟩), ("default", commaDefault)])) := by
    decide +kernel
  have hliterals : literals "," commaDefault = ["\"a\\\"b\"", "\"c\""] := by
    decide +kernel
  have hparts : parts "," commaDefault.text = [['a', '\\', '"', 'b'], ['c']] := by
    decide +kernel
  have hplain : ∀ part ∈ parts "," commaDefault.text, IsPlainText part := by
    rw [hparts, List.forall_mem_cons, List.forall_mem_singleton]
    have hlast : ∀ c, c ≠ '\\' → c ≠ '"' → IsPlainText [c] :=
      fun c hescape hquote => .char hescape hquote .nil
    exact ⟨.char (by decide) (by decide) (.escape '"' (hlast 'b' (by decide) (by decide))),
      hlast 'c' (by decide) (by decide)⟩
  have htype : (⟨"[]string", []⟩ : TypeExpr).text = "[]string" := rfl
  obtain ⟨d, hd, hrender, hcomplete⟩ :=
    list_complete_iff hparse rfl (by decide) [] htype ","
  rw [hliterals] at hrender hcomplete
  exact ⟨hparse, d, hd, hrender ⟨[]⟩, hcomplete.mpr (.inr hplain)⟩

/-- A directive whose separator is a quote, which the default has to escape. -/
def quoteBody : String := "Config(key=k, default=\"x\\\"y\", sep=`\"`)"

def quoteDefault : Argument := ⟨.plain, "x\\\"y"⟩

/-- The cut takes the quote and leaves the backslash, which then escapes the closing quote. -/
theorem not_complete_of_escapedQuote :
    Directive.parse? quoteBody.toList
        = .ok (some (.config ⟨"k", some quoteDefault, none, "\""⟩,
            .named [("key", ⟨.bare, "k"⟩), ("default", quoteDefault), ("sep", ⟨.raw, "\""⟩)]))
      ∧ (∃ d, ofShape (TypeShape.classify [] ⟨"[]string", []⟩) "\"" quoteDefault = .ok d
        ∧ d.render ⟨[]⟩ = "[]string\x7b\"x\\\", \"y\"\x7d")
      ∧ literals "\"" quoteDefault = ["\"x\\\"", "\"y\""]
      ∧ ¬ IsToken "\"x\\\"".toList := by
  have hliterals : literals "\"" quoteDefault = ["\"x\\\"", "\"y\""] := by
    decide +kernel
  have htype : (⟨"[]string", []⟩ : TypeExpr).text = "[]string" := rfl
  refine ⟨by decide +kernel, ⟨_, by rw [TypeShape.classify_stringList [] htype, ofShape_list], ?_⟩,
    hliterals, ?_⟩
  · rw [hliterals, render_list (by show '.' ∉ "string".toList; decide)]
    rfl
  · intro h
    have hplain : IsPlainText ['x', '\\'] := isToken_plain_iff.mp h
    cases hplain with
    | char _ _ h =>
        cases h with
        | char hescape _ _ => exact hescape rfl

end DefaultValue

end ServiceWiring
