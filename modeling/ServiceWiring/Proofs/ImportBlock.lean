import Mathlib.Data.List.Forall2
import ServiceWiring.Proofs.ImportResolution
import ServiceWiring.Proofs.SourceText
import ServiceWiring.Proofs.TypeRewriting

/-!
# Import blocks are read back

The import block of resolved imports, read as a source file, has just these imports, and a type
under their names refers to the packages that it referred to in its own file.

* `ImportEntry.Importable` — entries whose import lines can be read;
* `ImportEntry.parseImport?_spec` — what an import line is read as;
* `ResolvedImports.imports_block` — the import table of a block;
* `ResolvedImports.ofEntries_readsBack` — the block, and the types under its names.
-/

namespace ServiceWiring

open Text

/-! ## Import lines -/

namespace ImportEntry

/-- An entry whose import line can be read back. -/
structure Importable (entry : ImportEntry) : Prop where
  path_ne : entry.path ≠ ""
  quote : '"' ∉ entry.path.toList
  unbroken : Unbroken entry.path.toList
  name : IsAsciiName entry.name.toList
  name_ne : entry.name ≠ "_"

/-- The name as it stands in front of the path, unless it is the conventional one. -/
def writtenName (entry : ImportEntry) : List Char :=
  if entry.name = conventionalName entry.path then [] else entry.name.toList ++ [' ']

/-- An import specification. -/
def spec (entry : ImportEntry) : List Char :=
  entry.writtenName ++ ('"' :: entry.path.toList ++ ['"'])

variable {entry : ImportEntry}

theorem toList_importLine (entry : ImportEntry) :
    (ResolvedImports.importLine entry).toList = '\t' :: entry.spec := by
  rw [ResolvedImports.importLine, spec, writtenName]
  by_cases hname : entry.name = conventionalName entry.path
  · rw [if_pos (beq_iff_eq.mpr hname), if_pos hname]
    simp [String.toList_append, toString]
  · rw [if_neg (fun h => hname (beq_iff_eq.mp h)), if_neg hname]
    simp [String.toList_append, toString]

theorem writtenName_cases (entry : ImportEntry) :
    (entry.writtenName = [] ∧ entry.name = conventionalName entry.path)
      ∨ (entry.writtenName = entry.name.toList ++ [' ']) := by
  rw [writtenName]
  by_cases hname : entry.name = conventionalName entry.path
  · rw [if_pos hname]
    exact .inl ⟨rfl, hname⟩
  · rw [if_neg hname]
    exact .inr rfl

/-- The code of an import line. -/
theorem Importable.code_spec (h : entry.Importable) :
    Code.ofLine .code ('\t' :: entry.spec) = ('\t' :: (entry.writtenName ++ ['"', '"']), .code) := by
  rw [Code.ofLine_code (by decide), spec]
  rcases entry.writtenName_cases with ⟨hnone, -⟩ | hwritten
  · rw [hnone, List.nil_append, Code.ofLine_quoted h.quote]
    rfl
  · rw [hwritten, List.append_assoc, List.append_assoc,
      Code.ofLine_nameChars h.name.isAsciiNameChar, List.singleton_append,
      Code.ofLine_code (by decide), Code.ofLine_quoted h.quote]
    rfl

theorem Importable.braceChange_code (h : entry.Importable) :
    Code.braceChange ('\t' :: (entry.writtenName ++ ['"', '"'])) = 0 := by
  have hwritten : Code.braceChange entry.writtenName = 0 := by
    rcases entry.writtenName_cases with ⟨hnone, -⟩ | hwritten
    · rw [hnone]
      rfl
    · rw [hwritten, Code.braceChange_append,
        Code.braceChange_nameChars h.name.isAsciiNameChar]
      rfl
  show 0 + Code.braceChange (entry.writtenName ++ ['"', '"']) = 0
  rw [Code.braceChange_append, hwritten]
  rfl

/-- A specification starts with its name or with a quote. -/
theorem Importable.exists_head (h : entry.Importable) (behind : List Char) :
    ∃ c cs, entry.writtenName ++ '"' :: behind = c :: cs ∧ isBlank c = false ∧ c ≠ ')' := by
  rcases entry.writtenName_cases with ⟨hnone, -⟩ | hwritten
  · rw [hnone]
    exact ⟨'"', behind, rfl, by decide, by decide⟩
  · obtain ⟨c, cs, hcs⟩ := List.exists_cons_of_ne_nil h.name.ne_nil
    have hc : isAsciiNameChar c = true := by
      refine h.name.isAsciiNameChar c ?_
      rw [hcs]
      exact List.mem_cons_self ..
    refine ⟨c, cs ++ ' ' :: '"' :: behind, ?_, isBlank_of_isAsciiNameChar hc, ?_⟩
    · rw [hwritten, hcs, List.append_assoc]
      rfl
    · rintro rfl
      cases hc

/-- Nothing is trimmed off a specification, or off its code. -/
theorem Importable.trim_line (h : entry.Importable) (path : List Char) :
    trim ('\t' :: (entry.writtenName ++ ('"' :: path ++ ['"'])))
      = entry.writtenName ++ ('"' :: path ++ ['"']) := by
  obtain ⟨c, cs, hhead, hblank, -⟩ := h.exists_head (path ++ ['"'])
  have hvisible : trimStart (entry.writtenName ++ ('"' :: path ++ ['"']))
      = entry.writtenName ++ ('"' :: path ++ ['"']) := by
    rw [List.cons_append, hhead]
    exact trimStart_eq_self (by simpa using hblank)
  have hstart : trimStart ('\t' :: (entry.writtenName ++ ('"' :: path ++ ['"'])))
      = trimStart (entry.writtenName ++ ('"' :: path ++ ['"'])) := by
    rw [trimStart, trimStartWhere, List.dropWhile_cons_of_pos (by decide), trimStart, trimStartWhere]
  rw [trim, hstart, hvisible]
  refine trimEnd_eq_self ?_
  rw [← List.append_assoc, List.getLast?_concat]
  rfl

theorem Importable.unbroken_spec (h : entry.Importable) : Unbroken ('\t' :: entry.spec) := by
  have hwritten : Unbroken entry.writtenName := by
    rcases entry.writtenName_cases with ⟨hnone, -⟩ | hwritten
    · rw [hnone]
      exact .nil
    · rw [hwritten]
      refine .append (fun hmem => ?_) (by decide)
      cases h.name.isAsciiNameChar _ hmem
  exact .cons (by decide) (hwritten.append (.append (.cons (by decide) h.unbroken) (by decide)))

theorem parseImport?_quoted (quoted : List Char) (line : Nat) :
    parseImport? ('"' :: quoted) line
      = if (quoted.takeWhile (· != '"')).isEmpty || (quoted.dropWhile (· != '"')).isEmpty then none
        else some (FileImport.mk (conventional (String.ofList (quoted.takeWhile (· != '"')))) false
          line) := by
  rfl

theorem parseImport?_named {name : List Char} (hname : IsAsciiName name) (quoted : List Char)
    (line : Nat) :
    parseImport? (name ++ ' ' :: '"' :: quoted) line
      = if (quoted.takeWhile (· != '"')).isEmpty || (quoted.dropWhile (· != '"')).isEmpty then none
        else if name == ['_'] || name == ['.'] then none
        else some (FileImport.mk
          ⟨String.ofList (quoted.takeWhile (· != '"')), String.ofList name⟩ true line) := by
  have hread : asciiName? (name ++ ' ' :: '"' :: quoted) = some (name, ' ' :: '"' :: quoted) :=
    asciiName?_append hname rfl
  rw [parseImport?]
  · rw [hread]
    rfl
  · intro rest heq
    rw [heq] at hread
    cases hread

/-- An import line is read as its entry. -/
theorem Importable.parseImport?_spec (h : entry.Importable) (line : Nat) :
    ∃ explicit, parseImport? entry.spec line = some ⟨entry, explicit, line⟩ := by
  have hpath : (entry.path.toList ++ ['"']).takeWhile (· != '"') = entry.path.toList :=
    takeWhile_run (bne_of_not_mem h.quote) rfl
  have hbehind : (entry.path.toList ++ ['"']).dropWhile (· != '"') = ['"'] :=
    dropWhile_run (bne_of_not_mem h.quote) rfl
  have hne : entry.path.toList.isEmpty = false := by
    rw [List.isEmpty_eq_false_iff]
    exact fun hnil => h.path_ne (String.toList_inj.mp hnil)
  rcases entry.writtenName_cases with ⟨hnone, hname⟩ | hwritten
  · -- the path alone stands for the name that goes with it
    refine ⟨false, ?_⟩
    rw [spec, hnone, List.nil_append, List.cons_append, parseImport?_quoted, hpath, hbehind, hne,
      String.ofList_toList, conventional, ← hname]
    rfl
  · -- a name in front is read as it is, since it is neither the blank one nor a dot
    refine ⟨true, ?_⟩
    have hspec : entry.spec = entry.name.toList ++ ' ' :: '"' :: (entry.path.toList ++ ['"']) := by
      rw [spec, hwritten, List.append_assoc]
      rfl
    have hblank : (entry.name.toList == ['_']) = false := by
      rw [beq_eq_false_iff_ne]
      exact fun heq => h.name_ne (String.toList_inj.mp heq)
    have hdot : (entry.name.toList == ['.']) = false := by
      rw [beq_eq_false_iff_ne]
      intro heq
      have hname := h.name
      rw [heq] at hname
      exact absurd hname (by decide)
    rw [hspec, parseImport?_named h.name, hpath, hbehind, hne, hblank, hdot, String.ofList_toList,
      String.ofList_toList]
    rfl

end ImportEntry

/-! ## The import table of a block -/

namespace ResolvedImports

open ImportEntry

/-- What holds between the lines of an import group. -/
def inGroup : Nesting where
  group := some .imports

/-- Whether a line of an import group is read as an entry, or as no entry. -/
def ReadsAs (raw : List Char) (found : Option ImportEntry) : Prop :=
  ∃ code, Code.ofLine .code raw = (code, .code) ∧ ∀ line following, ∃ facts,
    inGroup.read line raw code following = (facts, inGroup)
      ∧ facts.importSpec.map (·.entry) = found

theorem read_inGroup {line : Nat} {raw code : List Char} {following : List (List Char)}
    {spec : Option FileImport} (hcode : (trim code).isEmpty = false)
    (hzero : readAtDepthZero (some .imports) line raw code following
      = ({ importSpec := spec }, some .imports)) (hbraces : Code.braceChange code = 0) :
    inGroup.read line raw code following = ({ importSpec := spec }, inGroup) := by
  have hdepth : (decide (inGroup.depth = 0) && !(trim code).isEmpty) = true := by
    rw [hcode]
    rfl
  have hgroup : readAtDepthZero inGroup.group line raw code following
      = ({ importSpec := spec }, some .imports) := hzero
  rw [Nesting.read, if_pos hdepth, hgroup, hbraces]
  rfl

theorem readsAs_empty : ReadsAs [] none :=
  ⟨[], rfl, fun _ _ => ⟨_, rfl, rfl⟩⟩

theorem readsAs_importLine {entry : ImportEntry} (h : entry.Importable) :
    ReadsAs (importLine entry).toList (some entry) := by
  rw [toList_importLine]
  refine ⟨_, h.code_spec, fun line following => ?_⟩
  obtain ⟨explicit, hparse⟩ := h.parseImport?_spec line
  obtain ⟨c, cs, hhead, -, hclose⟩ := h.exists_head ['"']
  have hraw : trim ('\t' :: entry.spec) = entry.spec := h.trim_line entry.path.toList
  have hcode : trim ('\t' :: (entry.writtenName ++ ['"', '"'])) = c :: cs := by
    rw [← hhead]
    exact h.trim_line []
  have hzero : readAtDepthZero (some .imports) line ('\t' :: entry.spec)
      ('\t' :: (entry.writtenName ++ ['"', '"'])) following
        = ({ importSpec := some ⟨entry, explicit, line⟩ }, some .imports) := by
    have hopen : ¬ (c :: cs).head? = some ')' := fun heq => hclose (Option.some.inj heq)
    rw [readAtDepthZero]
    rw [hcode, if_neg hopen, hraw, hparse]
  refine ⟨{ importSpec := some ⟨entry, explicit, line⟩ }, ?_, rfl⟩
  refine read_inGroup ?_ hzero h.braceChange_code
  rw [hcode]
  rfl

theorem ofLines_cons {raw code : List Char} (h : Code.ofLine .code raw = (code, .code))
    (raws : List (List Char)) : Code.ofLines (raw :: raws) = code :: Code.ofLines raws := by
  rw [Code.ofLines, Code.ofLinesFrom, h]
  rfl

/-- The entries that the lines of an import group are read as, up to the parenthesis that closes
    it. -/
theorem entries_readAll {raws : List (List Char)} {found : List (Option ImportEntry)}
    (h : List.Forall₂ ReadsAs raws found) (line : Nat) :
    ((inGroup.readAll line ((raws ++ [[')']]).zip (Code.ofLines (raws ++ [[')']])))).filterMap
      (·.importSpec)).map (·.entry) = found.filterMap id := by
  induction h generalizing line with
  | nil => rfl
  | @cons raw entry raws found hreads _ ih =>
      obtain ⟨code, hcode, hread⟩ := hreads
      rw [List.cons_append, ofLines_cons hcode, List.zip_cons_cons, Nesting.readAll]
      obtain ⟨facts, hfacts, hentry⟩ := hread line
        (((raws ++ [[')']]).zip (Code.ofLines (raws ++ [[')']]))).map (·.2))
      rw [hfacts]
      show ((facts :: inGroup.readAll (line + 1) _).filterMap (·.importSpec)).map (·.entry) = _
      cases hspec : facts.importSpec with
      | none =>
          rw [hspec] at hentry
          rw [List.filterMap_cons_none hspec, ih, ← hentry]
          rfl
      | some spec =>
          rw [hspec] at hentry
          rw [List.filterMap_cons_some hspec, List.map_cons, ih, ← hentry]
          rfl

/-- The entries of a group in the order of their lines. -/
def sorted (entries : List ImportEntry) : List ImportEntry :=
  entries.mergeSort fun a b => (Ord.compare a.path b.path).isLE

/-- The entries in the order of their lines. -/
def inOrder (imports : ResolvedImports) : List ImportEntry :=
  sorted (imports.entries.filter (·.isStandard))
    ++ sorted (imports.entries.filter fun e => !e.isStandard)

theorem perm_inOrder (imports : ResolvedImports) : imports.inOrder.Perm imports.entries := by
  have hgroups := List.filter_append_perm (·.isStandard) imports.entries
  exact ((List.mergeSort_perm _ _).append (List.mergeSort_perm _ _)).trans hgroups

theorem lines_unlines {ls : List String} (h : ∀ l ∈ ls, Unbroken l.toList)
    (hend : ∀ l ∈ ls, l.toList.getLast? ≠ some '\r') :
    lines (unlines ls).toList = ls.map String.toList := by
  have hlines := congrArg (List.map String.toList) (linesOf_unlines h)
  rw [linesOf, map_toList_map_ofList] at hlines
  rw [hlines, List.map_map]
  refine List.map_congr_left fun l hl => ?_
  show (String.ofList (dropReturn l.toList)).toList = l.toList
  rw [String.toList_ofList, dropReturn, if_neg (hend l hl)]

/-- The line between the groups of a block, if it has both. -/
def gapLines (imports : ResolvedImports) : List String :=
  if (groupLines (imports.entries.filter (·.isStandard))).isEmpty
    || (groupLines (imports.entries.filter fun e => !e.isStandard)).isEmpty then [] else [""]

/-- The lines between the parentheses of a block. -/
def innerLines (imports : ResolvedImports) : List String :=
  groupLines (imports.entries.filter (·.isStandard)) ++ imports.gapLines
    ++ groupLines (imports.entries.filter fun e => !e.isStandard)

theorem eq_empty_of_mem_gapLines {imports : ResolvedImports} {l : String}
    (h : l ∈ imports.gapLines) : l = "" := by
  rw [gapLines] at h
  split at h
  · cases h
  · exact List.mem_singleton.mp h

theorem blockLines_eq {imports : ResolvedImports} (h : imports.entries ≠ []) :
    imports.blockLines = "import (" :: imports.innerLines ++ [")"] := by
  rw [blockLines, if_neg (by simpa using h)]
  rfl

theorem exists_readsAs_innerLines {imports : ResolvedImports}
    (h : ∀ e ∈ imports.entries, e.Importable) :
    ∃ found, List.Forall₂ ReadsAs (imports.innerLines.map String.toList) found
      ∧ found.filterMap id = imports.inOrder := by
  have hgroup : ∀ entries : List ImportEntry, (∀ e ∈ entries, e ∈ imports.entries) →
      List.Forall₂ ReadsAs ((groupLines entries).map String.toList) ((sorted entries).map some) := by
    intro entries hentries
    rw [groupLines, List.map_map, List.forall₂_map_left_iff, List.forall₂_map_right_iff]
    refine List.forall₂_same.mpr fun e he => ?_
    exact readsAs_importLine (h e (hentries e (List.mem_mergeSort.mp he)))
  -- the empty line between the two groups is read as no entry
  have hgap : List.Forall₂ ReadsAs (imports.gapLines.map String.toList)
      (imports.gapLines.map fun _ => none) := by
    rw [List.forall₂_map_left_iff, List.forall₂_map_right_iff]
    refine List.forall₂_same.mpr fun l hl => ?_
    rw [eq_empty_of_mem_gapLines hl]
    exact readsAs_empty
  have hstandard := hgroup (imports.entries.filter (·.isStandard))
    fun e he => (List.mem_filter.mp he).1
  have hothers := hgroup (imports.entries.filter fun e => !e.isStandard)
    fun e he => (List.mem_filter.mp he).1
  have hreads := List.rel_append (List.rel_append hstandard hgap) hothers
  have hnone : (imports.gapLines.map fun _ => (none : Option ImportEntry)).filterMap id = [] := by
    rw [List.filterMap_map, List.filterMap_eq_nil_iff]
    exact fun _ _ => rfl
  refine ⟨(sorted (imports.entries.filter (·.isStandard))).map some
    ++ (imports.gapLines.map fun _ => none)
    ++ (sorted (imports.entries.filter fun e => !e.isStandard)).map some, ?_, ?_⟩
  · rw [innerLines, List.map_append, List.map_append]
    exact hreads
  · rw [List.filterMap_append, List.filterMap_append, hnone, List.append_nil, List.filterMap_map,
      List.filterMap_map]
    show (sorted _).filterMap some ++ (sorted _).filterMap some = _
    rw [List.filterMap_some, List.filterMap_some]
    rfl

/-- What stands on the lines between the parentheses. -/
theorem mem_innerLines {imports : ResolvedImports} {l : String} (h : l ∈ imports.innerLines) :
    l = "" ∨ ∃ e ∈ imports.entries, l = importLine e := by
  have hgroup : ∀ p : ImportEntry → Bool, l ∈ groupLines (imports.entries.filter p) →
      ∃ e ∈ imports.entries, l = importLine e := by
    intro p hl
    obtain ⟨e, he, rfl⟩ := List.mem_map.mp hl
    exact ⟨e, (List.mem_filter.mp (List.mem_mergeSort.mp he)).1, rfl⟩
  rw [innerLines] at h
  rcases List.mem_append.mp h with h | h
  · rcases List.mem_append.mp h with h | h
    · exact .inr (hgroup _ h)
    · exact .inl (eq_empty_of_mem_gapLines h)
  · exact .inr (hgroup _ h)

theorem lines_block {imports : ResolvedImports} (hentries : imports.entries ≠ [])
    (h : ∀ e ∈ imports.entries, e.Importable) :
    lines (unlines imports.blockLines).toList
      = "import (".toList :: (imports.innerLines.map String.toList ++ [[')']]) := by
  have hline : ∀ l ∈ imports.blockLines, Unbroken l.toList ∧ l.toList.getLast? ≠ some '\r' := by
    intro l hl
    rw [blockLines_eq hentries] at hl
    rcases List.mem_append.mp hl with hl | hl
    · rcases List.mem_cons.mp hl with rfl | hl
      · exact ⟨by decide, by decide⟩
      · rcases mem_innerLines hl with rfl | ⟨e, he, rfl⟩
        · exact ⟨by decide, by decide⟩
        · rw [toList_importLine]
          refine ⟨(h e he).unbroken_spec, ?_⟩
          rw [spec, ← List.cons_append, ← List.append_assoc, List.getLast?_concat]
          decide
    · rw [List.mem_singleton.mp hl]
      exact ⟨by decide, by decide⟩
  rw [lines_unlines (fun l hl => (hline l hl).1) fun l hl => (hline l hl).2,
    blockLines_eq hentries, List.map_append, List.map_cons]
  rfl

theorem read_start (following : List (List Char)) :
    ({} : Nesting).read 1 "import (".toList "import (".toList following = ({}, inGroup) := by
  rfl

/-- A block, read as a source file, has just its imports. -/
theorem imports_block {imports : ResolvedImports} (h : ∀ e ∈ imports.entries, e.Importable)
    (path : Path) :
    (SourceFile.parse path (unlines imports.blockLines)).index.imports.map (·.entry)
      = imports.inOrder := by
  by_cases hentries : imports.entries = []
  · have hblock : imports.blockLines = [] := by
      rw [blockLines, hentries]
      rfl
    have hnone : imports.inOrder = [] := by
      rw [inOrder, hentries]
      exact List.append_eq_nil_iff.mpr ⟨List.mergeSort_nil, List.mergeSort_nil⟩
    rw [hblock, hnone]
    rfl
  · obtain ⟨found, hreads, hfound⟩ := exists_readsAs_innerLines h
    have hcode : Code.ofLine .code "import (".toList = ("import (".toList, .code) := by decide
    rw [SourceFile.parse, lines_block hentries h]
    dsimp only
    rw [ofLines_cons hcode, DeclarationIndex.ofCode, List.zip_cons_cons, Nesting.readAll, read_start]
    dsimp only
    rw [List.filterMap_cons_none rfl, entries_readAll hreads, hfound]

/-! ## Types under the names of a block -/

/-- Numbers leave names ASCII identifiers. -/
theorem isAsciiName_numbered {base : String} (h : IsAsciiName base.toList) (n : Nat) :
    IsAsciiName (numbered base n).toList := by
  rw [toList_numbered]
  refine h.append fun c hc => ?_
  rcases List.mem_cons.mp hc with rfl | hc
  · rfl
  · have hdigit := Nat.isDigit_of_mem_toDigits (by decide) (by decide) hc
    rw [isAsciiNameChar, Char.isAlphanum, hdigit, Bool.or_true, Bool.true_or]

theorem numbered_ne_underscore (base : String) (n : Nat) (h : base ≠ "") :
    numbered base n ≠ "_" := by
  intro heq
  have hlength : (numbered base n).toList.length = "_".toList.length := by rw [heq]
  rw [toList_numbered, List.length_append, List.length_cons] at hlength
  have hbase : base.toList.length ≠ 0 := fun hzero =>
    h (String.toList_inj.mp (List.eq_nil_of_length_eq_zero hzero))
  have hone : "_".toList.length = 1 := rfl
  omega

theorem importable_of_mem_renameFrom {entries : List ImportEntry}
    (h : ∀ e ∈ entries, e.Importable) {taken : List String} {e : ImportEntry}
    (he : e ∈ renameFrom taken (merge entries)) : e.Importable := by
  obtain ⟨before, after, hsplit⟩ := List.append_of_mem he
  obtain ⟨m, hm, hpath, hname⟩ := renameFrom_eq_append hsplit
  have hold := h m (mem_of_mem_merge hm)
  have hne : m.name ≠ "" := fun hempty => hold.name.ne_nil (by rw [hempty]; rfl)
  have hfinal : IsAsciiName e.name.toList ∧ e.name ≠ "_" := by
    rw [hname]
    rcases finalName_cases (taken ++ before.map (·.name)) m.name with hkept | ⟨n, hnumber⟩
    · rw [hkept]
      exact ⟨hold.name, hold.name_ne⟩
    · rw [hnumber]
      exact ⟨isAsciiName_numbered hold.name n, numbered_ne_underscore m.name n hne⟩
  exact ⟨hpath ▸ hold.path_ne, hpath ▸ hold.quote, hpath ▸ hold.unbroken, hfinal.1, hfinal.2⟩

/-- The name of a path that is among the resolved ones. -/
theorem exists_nameOf? {entries : List ImportEntry} {imports : ResolvedImports}
    (h : Resolves entries imports) {e : ImportEntry} (he : e ∈ entries) :
    ∃ final ∈ imports.entries, final.path = e.path ∧ imports.nameOf? e.path = some final.name := by
  have hpath : e.path ∈ imports.entries.map (·.path) := by
    rw [h.paths, List.mem_eraseDups]
    exact List.mem_map_of_mem he
  obtain ⟨final, hfinal, hsame⟩ := List.mem_map.mp hpath
  exact ⟨final, hfinal, hsame, hsame ▸ h.nameOf?_of_mem hfinal⟩

open TypeText

/-- Whether two pieces of types, each with the index of its own file, say the same. -/
inductive SameReference (index index' : DeclarationIndex) : Segment → Segment → Prop
  | char (c : Char) : SameReference index index' (.char c) (.char c)
  | qualified {qualifier qualifier' member : List Char} {entry entry' : ImportEntry}
      (found : index.importNamed? (String.ofList qualifier) = some entry)
      (found' : index'.importNamed? (String.ofList qualifier') = some entry')
      (path : entry'.path = entry.path) :
      SameReference index index' (.qualified qualifier member) (.qualified qualifier' member)

/-- What the import block of resolved entries is read as, and what types are under its names. -/
structure ReadsBack (entries : List ImportEntry) (imports : ResolvedImports) (block : SourceFile) :
    Prop where
  /-- The import table has just the resolved imports. -/
  table : (block.index.imports.map (·.entry)).Perm imports.entries
  /-- A type whose qualifiers name entries keeps all its characters but the qualifiers, and these
      name the same packages. -/
  types : ∀ (index : DeclarationIndex) (text : String) (found : List Segment),
    SplitsInto [] text.toList found →
    (∀ qualifier member, .qualified qualifier member ∈ found →
      ∃ e ∈ entries, index.importNamed? (String.ofList qualifier) = some e) →
    ∃ found', SplitsInto [] (imports.renderType (.resolve text index)).toList found'
      ∧ List.Forall₂ (SameReference index block.index) found found'

variable {entries : List ImportEntry} {imports : ResolvedImports}

/-- A qualifier that names an entry gets the name of its path. -/
theorem exists_newQualifier (h : Resolves entries imports) {index : DeclarationIndex}
    {qualifier : List Char} {e : ImportEntry} (he : e ∈ entries)
    (hnamed : index.importNamed? (String.ofList qualifier) = some e) :
    ∃ final ∈ imports.entries, final.path = e.path
      ∧ TypeExpr.newQualifier imports.nameOf? index qualifier = final.name.toList := by
  obtain ⟨final, hfinal, hpath, hname⟩ := exists_nameOf? h he
  refine ⟨final, hfinal, hpath, ?_⟩
  rw [TypeExpr.newQualifier, hnamed]
  show ((imports.nameOf? e.path).map String.toList).getD qualifier = final.name.toList
  rw [hname]
  rfl

/-- The names of a block name its imports. -/
theorem importNamed?_block (h : Resolves entries imports)
    (himportable : ∀ e ∈ imports.entries, e.Importable) (path : Path) {final : ImportEntry}
    (hfinal : final ∈ imports.entries) :
    (SourceFile.parse path (unlines imports.blockLines)).index.importNamed? final.name
      = some final := by
  have hperm := perm_inOrder imports
  have hnames : (imports.inOrder.map (·.name)).Nodup :=
    (hperm.map (·.name)).nodup_iff.mpr h.distinct
  have hfind := find?_of_nodup hnames (hperm.mem_iff.mpr hfinal)
  rw [← imports_block himportable path, List.find?_map] at hfind
  exact hfind

theorem Resolves.readsBack (h : Resolves entries imports)
    (himportable : ∀ e ∈ imports.entries, e.Importable) (path : Path) :
    ReadsBack entries imports (.parse path (unlines imports.blockLines)) where
  table := by
    rw [imports_block himportable path]
    exact perm_inOrder imports
  types index text found hfound hqualifiers := by
    obtain rfl := segments_eq_iff.mpr hfound
    have hsegments : segmentsFrom false
        (rewrite (TypeExpr.newQualifier imports.nameOf? index) false text.toList)
          = (segmentsFrom false text.toList).map
            (Segment.rename (TypeExpr.newQualifier imports.nameOf? index)) := by
      refine segmentsFrom_rewrite fun qualifier member hsegment => ?_
      obtain ⟨e, he, hnamed⟩ := hqualifiers qualifier member hsegment
      obtain ⟨final, hfinal, -, hname⟩ := exists_newQualifier h he hnamed
      rw [hname]
      exact (himportable final hfinal).name
    refine ⟨_, segments_eq_iff.mp rfl, ?_⟩
    rw [renderType, TypeExpr.renderWith_eq_rewrite, segments, segments, hsegments,
      List.forall₂_map_right_iff]
    refine List.forall₂_same.mpr fun segment hsegment => ?_
    cases segment with
    | char c => exact .char c
    | qualified qualifier member =>
        obtain ⟨e, he, hnamed⟩ := hqualifiers qualifier member hsegment
        obtain ⟨final, hfinal, hpath, hname⟩ := exists_newQualifier h he hnamed
        refine .qualified hnamed ?_ hpath
        rw [hname, String.ofList_toList]
        exact importNamed?_block h himportable path hfinal

/-- Importable entries resolve, and the block of what they resolve to is read back. -/
theorem ofEntries_readsBack {entries : List ImportEntry} (h : ∀ e ∈ entries, e.Importable) :
    ∃ imports, ofEntries entries = .ok imports
      ∧ ∀ path, ReadsBack entries imports (.parse path (unlines imports.blockLines)) := by
  have himportable : ∀ e ∈ renameFrom [] (merge entries), e.Importable :=
    fun e he => importable_of_mem_renameFrom h he
  exact ⟨_, ofEntries_eq_ok entries, (resolves_renameFrom entries).readsBack himportable⟩

/-- Two packages of one name, one of them under a second, longer name too, and a package under a
    name that generated functions use.  A type of a file that imports two of them gets both of
    its qualifiers renamed. -/
theorem ofEntries_readsBack_of_clash :
    let entries : List ImportEntry := [⟨"a.example/user", "user"⟩, ⟨"b.example/user", "user"⟩,
      ⟨"b.example/user", "other_user"⟩, ⟨"context", "ctx"⟩]
    let index :=
      (SourceFile.parse ⟨"api/a.go"⟩ "import \"b.example/user\"\nimport ctx \"context\"\n").index
    let found : List Segment := "map[".toList.map .char
      ++ [.qualified "user".toList "ID".toList, .char ']',
        .qualified "ctx".toList "Context".toList]
    (∀ e ∈ entries, e.Importable)
      ∧ SplitsInto [] "map[user.ID]ctx.Context".toList found
      ∧ (∀ qualifier member, .qualified qualifier member ∈ found →
          ∃ e ∈ entries, index.importNamed? (String.ofList qualifier) = some e)
      ∧ ∃ imports, ofEntries entries = .ok imports
        ∧ imports.renderType (.resolve "map[user.ID]ctx.Context" index)
            = "map[other_user.ID]ctx_1.Context"
        ∧ ∀ path, ReadsBack entries imports (.parse path (unlines imports.blockLines))
          ∧ ∃ found', SplitsInto [] "map[other_user.ID]ctx_1.Context".toList found'
            ∧ List.Forall₂
                (SameReference index (SourceFile.parse path (unlines imports.blockLines)).index)
                found found' := by
  intro entries index found
  have himportable : ∀ e ∈ entries, e.Importable := by
    refine List.forall_mem_cons.mpr ⟨?_, List.forall_mem_cons.mpr ⟨?_, List.forall_mem_cons.mpr
      ⟨?_, List.forall_mem_singleton.mpr ?_⟩⟩⟩
    all_goals exact ⟨by decide, by decide, by decide, by decide, by decide⟩
  have hfound : SplitsInto [] "map[user.ID]ctx.Context".toList found :=
    segments_eq_iff.mp (by decide +kernel)
  have huser : index.importNamed? "user" = some ⟨"b.example/user", "user"⟩ := by
    decide +kernel
  have hctx : index.importNamed? "ctx" = some ⟨"context", "ctx"⟩ := by
    decide +kernel
  have hnamed : ∀ qualifier member, .qualified qualifier member ∈ found →
      ∃ e ∈ entries, index.importNamed? (String.ofList qualifier) = some e := by
    intro qualifier member hmem
    simp only [found, List.mem_append, List.mem_map, List.mem_cons, Segment.qualified.injEq,
      reduceCtorEq, and_false, exists_false, false_or, or_false, List.not_mem_nil] at hmem
    rcases hmem with ⟨rfl, -⟩ | ⟨rfl, -⟩
    · exact ⟨_, by decide, huser⟩
    · exact ⟨_, by decide, hctx⟩
  obtain ⟨imports, hofEntries, hreads⟩ := ofEntries_readsBack himportable
  have hrendered : imports.renderType (.resolve "map[user.ID]ctx.Context" index)
      = "map[other_user.ID]ctx_1.Context" := by
    obtain rfl := Except.ok.inj ((ofEntries_eq_ok entries).symm.trans hofEntries)
    decide +kernel
  refine ⟨himportable, hfound, hnamed, imports, hofEntries, hrendered, fun path => ?_⟩
  have htype := (hreads path).types index _ found hfound hnamed
  rw [hrendered] at htype
  exact ⟨hreads path, htype⟩

end ResolvedImports

end ServiceWiring
