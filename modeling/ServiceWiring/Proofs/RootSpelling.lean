import Mathlib.Data.List.Forall2
import ServiceWiring.Proofs.JoinedPath
import ServiceWiring.Proofs.ScanOnce

/-!
# Scans from two spellings of a directory

A directory can be spelled in many ways, and a scan of it finds the same folders and sources
behind each of them, as long as the settings leave out the same files.  Literal settings do so
when they are relative; a pattern is matched against the whole path, the spelling of the directory
included.

* `GlobPattern.isMatch_ending` — patterns that look at the end of a path only;
* `Scan.met_eq` — the files that a scan meets, by their paths behind the directory;
* `Scan.SameBelow` — the same folders and sources behind two spellings;
* `Scan.sameBelow_addFile` — every file keeps the folders found so far the same;
* `Scan.sameBelow_folders` — two spellings give the same scan;
* `Scan.not_sameBelow_of_pattern` — a pattern can tell two spellings apart.
-/

namespace ServiceWiring

open Text

/-! ## Patterns for the end of a path -/

namespace GlobPattern

variable {w cs : List Char}

theorem tryTokens_chars (w cs : List Char) :
    (tryTokens (w.map .char) cs = .matched ↔ cs = w)
      ∧ (tryTokens (w.map .char) cs = .exhausted → cs.length < w.length) := by
  induction w generalizing cs with
  | nil =>
      cases cs with
      | nil => exact ⟨⟨fun _ => rfl, fun _ => rfl⟩, fun h => nomatch h⟩
      | cons c cs => exact ⟨⟨(fun h => nomatch h), (fun h => nomatch h)⟩, fun h => nomatch h⟩
  | cons d w ih =>
      cases cs with
      | nil =>
          exact ⟨⟨(fun h => nomatch h), (fun h => nomatch h)⟩, fun _ => Nat.succ_pos _⟩
      | cons c cs =>
          have hstep : tryTokens ((d :: w).map .char) (c :: cs)
              = if (c == d) = true then tryTokens (w.map .char) cs else .retry := rfl
          rw [hstep]
          by_cases hc : c = d
          · subst hc
            rw [beq_self_eq_true, if_pos rfl]
            obtain ⟨hmatched, hexhausted⟩ := ih cs
            refine ⟨?_, fun h => Nat.succ_lt_succ (hexhausted h)⟩
            rw [hmatched, List.cons.injEq]
            exact ⟨fun h => ⟨rfl, h⟩, fun h => h.2⟩
          · rw [beq_eq_false_iff_ne.mpr hc, if_neg Bool.false_ne_true]
            refine ⟨⟨(fun h => nomatch h), fun h => ?_⟩, fun h => nomatch h⟩
            exact absurd (List.cons.inj h).1 hc

/-- Behind any run, a word is found exactly at the end of a text. -/
theorem sweepAll_chars (w cs : List Char) :
    sweepAll false (tryTokens (w.map .char)) cs = .matched ↔ w <:+ cs := by
  induction cs with
  | nil =>
      have hstep : sweepAll false (tryTokens (w.map .char)) []
          = tryTokens (w.map .char) [] := by
        rw [sweepAll, sweep]
        cases tryTokens (w.map .char) [] <;> rfl
      rw [hstep, (tryTokens_chars w []).1, List.suffix_nil, eq_comm]
  | cons c cs ih =>
      obtain ⟨hmatched, hexhausted⟩ := tryTokens_chars w (c :: cs)
      have hsweep : sweep false (tryTokens (w.map .char)) (c :: cs)
          = sweepAll false (tryTokens (w.map .char)) cs := rfl
      rw [sweepAll, hsweep]
      cases htry : tryTokens (w.map .char) (c :: cs) with
      | matched =>
          rw [← hmatched.mp htry]
          exact ⟨fun _ => List.suffix_refl _, fun _ => rfl⟩
      | exhausted =>
          -- the text is too short for the word by now
          refine ⟨(fun h => nomatch h), fun h => ?_⟩
          exact absurd (hexhausted htry) (Nat.not_lt.mpr h.length_le)
      | retry =>
          show sweepAll false _ cs = .matched ↔ _
          rw [ih, List.suffix_cons_iff]
          refine ⟨.inr, fun h => h.elim (fun hword => ?_) id⟩
          rw [hmatched.mpr hword.symm] at htry
          cases htry

/-- Skipping components finds no more than what is found without. -/
theorem sweepAll_components {rest : List Char → Trial}
    (h : ∀ c cs, rest cs = .matched → rest (c :: cs) = .matched) (cs : List Char) :
    sweepAll true rest cs = .matched ↔ rest cs = .matched := by
  have hsweep : ∀ cs, sweep true rest cs = .matched → rest cs = .matched := by
    intro cs
    induction cs with
    | nil => exact id
    | cons c cs ih =>
        intro hmatched
        refine h c cs ?_
        rw [sweep] at hmatched
        split at hmatched
        · exact ih hmatched
        · cases hrest : rest cs with
          | matched => rfl
          | retry =>
              rw [hrest] at hmatched
              rw [← hrest]
              exact ih hmatched
          | exhausted =>
              rw [hrest] at hmatched
              cases hmatched
  rw [sweepAll]
  cases hrest : rest cs with
  | matched => exact Iff.rfl
  | retry =>
      -- here alone components are skipped
      constructor
      · intro hmatched
        rw [← hrest]
        exact hsweep cs hmatched
      · intro hnot
        cases hnot
  | exhausted => exact Iff.rfl

/-- A pattern for names that end in a word looks at the end of a text only. -/
theorem isMatch_ending (w cs : List Char) :
    isMatch ⟨.anyComponents :: .anySequence :: w.map .char⟩ cs = true ↔ w <:+ cs := by
  rw [isMatch, beq_iff_eq]
  show sweepAll true (sweepAll false (tryTokens (w.map .char))) cs = .matched ↔ _
  rw [sweepAll_components, sweepAll_chars]
  intro c cs h
  rw [sweepAll_chars] at h ⊢
  exact h.trans (List.suffix_cons c cs)

end GlobPattern

namespace Path

/-- What a joined path ends in without a separator, the path behind ends in. -/
theorem suffix_join_iff {base rel : Path} (hbase : base.text.toList ≠ [])
    (hrel : rel.isAbsolute = false) {w : List Char} (hw : '/' ∉ w) :
    w <:+ (base.join rel).text.toList ↔ w <:+ rel.text.toList := by
  obtain ⟨front, -, htext⟩ := join_text hbase hrel
  rw [htext]
  constructor
  · intro h
    have hnot : ¬ '/' :: rel.text.toList <:+ w :=
      fun hsuffix => hw (hsuffix.subset (List.mem_cons_self ..))
    rcases List.suffix_or_suffix_of_suffix h (List.suffix_append front _) with hword | hword
    · rcases List.suffix_cons_iff.mp hword with rfl | hword
      · exact absurd (List.mem_cons_self ..) hw
      · exact hword
    · exact absurd hword hnot
  · intro h
    exact h.trans ((List.suffix_cons '/' _).trans (List.suffix_append front _))

end Path

namespace Scan

variable {t : FileTree} {base base' : Path} {place : Place} {options : ScanOptions}

/-! ## The files that a scan meets -/

/-- The files that a scan meets, those that are left out included. -/
def met (t : FileTree) (base : Path) (options : ScanOptions) : List Path :=
  ((roots t base options).map (filesUnder? t)).flatMap (·.getD [])

/-- The files at or below what a path leads to, spelled behind the path. -/
def filesFound (t : FileTree) (p : Path) : Except FileError (Place × Entry) → List Path
  | .error _ => []
  | .ok (_, .file _) => [p]
  | .ok (place, .directory) =>
      (t.filesBelow place).filterMap fun (names, _) =>
        if names.dropLast.any isSkippedName then none else some (names.foldl Path.child p)

/-- The relative paths of all files that a scan of a place meets from one of its spellings. -/
def relativeMet (t : FileTree) (base : Path) (place : Place) (options : ScanOptions) : List Path :=
  if options.includes.isEmpty then filesFound t ⟨""⟩ (.ok (place, .directory))
  else options.includes.flatMap fun pattern =>
    filesFound t ⟨pattern⟩ (t.entryAt (base.child pattern))

/-- A spelling of a place that a scan can start from: with every setting of a directory to look
    into, it is no longer than what an access takes. -/
structure Accepts (t : FileTree) (options : ScanOptions) (place : Place) (base : Path) : Prop where
  entry : t.entryAt base = .ok (place, .directory)
  includes : ∀ pattern ∈ options.includes,
    (base.child pattern).text.utf8ByteSize ≤ Path.maxBytes

/-- Whether a setting is a relative path without wildcards. -/
def IsLiteral (pattern : String) : Prop :=
  Config.isWildcard pattern = false ∧ Path.isAbsolute ⟨pattern⟩ = false

instance (pattern : String) : Decidable (IsLiteral pattern) :=
  inferInstanceAs (Decidable (_ ∧ _))

theorem Accepts.ne_nil (h : Accepts t options place base) : base.text.toList ≠ [] :=
  (FileTree.checkText_of_entryAt h.entry).2

theorem filesUnder?_eq (t : FileTree) (p : Path) :
    (filesUnder? t p).getD [] = filesFound t p (t.entryAt p) := by
  rw [filesUnder?]
  cases t.entryAt p with
  | error e => rfl
  | ok found =>
      obtain ⟨place, entry⟩ := found
      cases entry with
      | file content => rfl
      | directory => rfl

/-- The files below a directory are spelled behind every path that their names are spelled
    behind. -/
theorem filesFound_directory {p rel : Path}
    (h : ∀ names content, (names, content) ∈ t.filesBelow place →
      names.foldl Path.child p = base.join (names.foldl Path.child rel)) :
    filesFound t p (.ok (place, .directory))
      = (filesFound t rel (.ok (place, .directory))).map base.join := by
  rw [filesFound, filesFound, List.map_filterMap]
  refine List.filterMap_congr ?_
  rintro ⟨names, content⟩ hmem
  show (if names.dropLast.any isSkippedName then none else some (names.foldl Path.child p))
    = Option.map base.join (if names.dropLast.any isSkippedName then none else some _)
  rw [h names content hmem]
  split
  · rfl
  · rfl

theorem filesFound_join (hnamed : t.WellNamed) (hbase : base.text.toList ≠ []) {rel : Path}
    (hrel : rel.isAbsolute = false) (found : Except FileError (Place × Entry)) :
    filesFound t (base.join rel) found = (filesFound t rel found).map base.join := by
  cases found with
  | error e => rfl
  | ok found =>
      obtain ⟨dir, entry⟩ := found
      cases entry with
      | file content => rfl
      | directory =>
          refine filesFound_directory ?_
          intro names content hmem
          exact Path.foldl_child_join hbase hrel (FileTree.names_of_mem_filesBelow hnamed hmem).2

/-- The files below the directory itself are those behind the empty path. -/
theorem filesFound_base (hnamed : t.WellNamed) (hbase : base.text.toList ≠ []) (place : Place) :
    filesFound t base (.ok (place, .directory))
      = (filesFound t ⟨""⟩ (.ok (place, .directory))).map base.join := by
  refine filesFound_directory ?_
  intro names content hmem
  obtain ⟨hne, hnames⟩ := FileTree.names_of_mem_filesBelow hnamed hmem
  obtain ⟨name, more, rfl⟩ := List.exists_cons_of_ne_nil hne
  have hplain : Path.isAbsolute ⟨name⟩ = false :=
    Path.isAbsolute_eq_false (hnames name (List.mem_cons_self ..)).2.2.2
  have hfirst : Path.child ⟨""⟩ name = ⟨name⟩ := by
    rw [Path.child, Path.join, hplain]
    rfl
  rw [List.foldl_cons, List.foldl_cons, hfirst]
  exact Path.foldl_child_join hbase hplain fun other hother =>
    hnames other (List.mem_cons_of_mem _ hother)

theorem met_eq (hnamed : t.WellNamed) (h : Accepts t options place base)
    (hincludes : ∀ pattern ∈ options.includes, IsLiteral pattern) :
    met t base options = (relativeMet t base place options).map base.join := by
  rw [met, roots, relativeMet]
  split
  · show (filesUnder? t base).getD [] ++ [] = _
    rw [List.append_nil, filesUnder?_eq, h.entry, filesFound_base hnamed h.ne_nil]
  · rw [List.map_flatMap, List.map_flatMap, List.flatMap_assoc]
    refine List.flatMap_congr fun pattern hpattern => ?_
    obtain ⟨hliteral, hrelative⟩ := hincludes pattern hpattern
    rw [← filesFound_join hnamed h.ne_nil hrelative]
    show _ = filesFound t (base.child pattern) (t.entryAt (base.child pattern))
    rw [← filesUnder?_eq, rootsOf, hliteral, if_neg Bool.false_ne_true]
    split
    · exact List.append_nil _
    · -- what does not exist has no files
      rename_i hmissing
      rw [FileTree.exists?] at hmissing
      rw [filesUnder?_eq]
      cases hentry : t.entryAt (base.child pattern) with
      | error e => rfl
      | ok found =>
          rw [hentry] at hmissing
          exact absurd rfl hmissing

/-- From two spellings of a place a scan meets the same files. -/
theorem relativeMet_congr (h : Accepts t options place base) (h' : Accepts t options place base')
    (hincludes : ∀ pattern ∈ options.includes, IsLiteral pattern) :
    relativeMet t base place options = relativeMet t base' place options := by
  rw [relativeMet, relativeMet]
  split
  · rfl
  · refine List.flatMap_congr fun pattern hpattern => ?_
    exact congrArg _ (FileTree.entryAt_join h.entry h'.entry (hincludes pattern hpattern).2
      (h.includes pattern hpattern) (h'.includes pattern hpattern))

/-- A relative path with a name on it. -/
def IsBelow (rel : Path) : Prop :=
  rel.isAbsolute = false ∧ rel.names ≠ []

theorem isBelow_foldl_child {rel : Path} (hrel : rel.isAbsolute = false) {names : List String}
    (hne : names ≠ []) (h : ∀ name ∈ names, IsEntryName name) :
    IsBelow (names.foldl Path.child rel) := by
  constructor
  · rw [← hrel, Bool.eq_iff_iff, Path.isAbsolute_iff_startPart, Path.isAbsolute_iff_startPart,
      Path.startPart_foldl_child rel h]
  · rw [Path.names_foldl_child rel h]
    exact List.append_ne_nil_of_right_ne_nil _ hne

theorem isBelow_of_mem_filesFound (hnamed : t.WellNamed) (h : Accepts t options place base)
    {rel : Path} (hrel : rel.isAbsolute = false) {found : Except FileError (Place × Entry)}
    (hfound : ∀ dir content, found = .ok (dir, .file content) →
      t.entryAt (base.join rel) = .ok (dir, .file content)) :
    ∀ r ∈ filesFound t rel found, IsBelow r := by
  intro r hr
  cases found with
  | error e => cases hr
  | ok found =>
      obtain ⟨dir, entry⟩ := found
      cases entry with
      | file content =>
          rw [List.mem_singleton.mp hr]
          refine ⟨hrel, fun hnames => ?_⟩
          -- without a name the path leads to the directory itself
          have halike : (base.join rel).LeadsAlike base := by
            refine ⟨Path.isAbsolute_join h.ne_nil hrel, ?_⟩
            rw [Path.names_join h.ne_nil hrel, hnames, List.append_nil]
          have hfolder : t.folderAt (base.join rel) = .ok place := by
            rw [FileTree.folderAt_congr halike]
            exact FileTree.folderAt_of_entryAt h.entry
          exact FileTree.not_folderAt_of_file (hfound dir content rfl) hfolder
      | directory =>
          obtain ⟨⟨names, content⟩, hmem, hkept⟩ := List.mem_filterMap.mp hr
          obtain ⟨hne, hnames⟩ := FileTree.names_of_mem_filesBelow hnamed hmem
          dsimp only at hkept
          split at hkept
          · cases hkept
          · rw [← Option.some.inj hkept]
            exact isBelow_foldl_child hrel hne hnames

theorem isBelow_of_mem_relativeMet (hnamed : t.WellNamed) (h : Accepts t options place base)
    (hincludes : ∀ pattern ∈ options.includes, IsLiteral pattern) :
    ∀ rel ∈ relativeMet t base place options, IsBelow rel := by
  intro rel hmem
  rw [relativeMet] at hmem
  split at hmem
  · exact isBelow_of_mem_filesFound hnamed h rfl (fun _ _ hfile => by cases hfile) rel hmem
  · obtain ⟨pattern, hpattern, hmem⟩ := List.mem_flatMap.mp hmem
    exact isBelow_of_mem_filesFound hnamed h (hincludes pattern hpattern).2
      (fun _ _ hfile => hfile) rel hmem

/-! ## The files that are left out -/

/-- Whether a setting leaves a path out. -/
def leavesOut (base : Path) (ignore : String) (path : Path) : Bool :=
  if Config.isWildcard ignore then
    (GlobPattern.parse ignore.toList).toOption.any (·.isMatch path.text.toList)
  else path.startsWith (base.child ignore)

theorem isIgnored_iff {path : Path} :
    isIgnored base options path = true ↔
      (∃ ignore ∈ options.ignores, leavesOut base ignore path = true)
        ∨ (options.ignoreTestFiles = true ∧ "_test.go".toList <:+ path.text.toList) := by
  have htests : (GlobPattern.parse testFilePattern.toList).toOption
      = some ⟨.anyComponents :: .anySequence :: "_test.go".toList.map .char⟩ := by
    decide +kernel
  rw [isIgnored, Bool.or_eq_true]
  constructor
  · rintro (h | h)
    · obtain ⟨literal, hliteral, hstarts⟩ := List.any_eq_true.mp h
      obtain ⟨ignore, hignore, rfl⟩ := List.mem_map.mp hliteral
      obtain ⟨hmem, hplain⟩ := List.mem_filter.mp hignore
      refine .inl ⟨ignore, hmem, ?_⟩
      rw [leavesOut, if_neg (by simpa using hplain)]
      exact hstarts
    · obtain ⟨p, hp, hmatch⟩ := List.any_eq_true.mp h
      obtain ⟨pattern, hpattern, hparse⟩ := List.mem_filterMap.mp hp
      rcases List.mem_append.mp hpattern with hpattern | hpattern
      · obtain ⟨hmem, hwildcard⟩ := List.mem_filter.mp hpattern
        refine .inl ⟨pattern, hmem, ?_⟩
        rw [leavesOut, if_pos hwildcard, hparse]
        exact hmatch
      · -- the pattern of the test files is there if it is asked for
        split at hpattern
        · rename_i hon
          rw [List.mem_singleton.mp hpattern, htests] at hparse
          rw [← Option.some.inj hparse, GlobPattern.isMatch_ending] at hmatch
          exact .inr ⟨hon, hmatch⟩
        · cases hpattern
  · rintro (⟨ignore, hmem, hleaves⟩ | ⟨hon, hends⟩)
    · rw [leavesOut] at hleaves
      split at hleaves
      · rename_i hwildcard
        cases hparse : (GlobPattern.parse ignore.toList).toOption with
        | none =>
            rw [hparse] at hleaves
            cases hleaves
        | some p =>
            rw [hparse] at hleaves
            have hmem : ignore ∈ options.ignores.filter Config.isWildcard :=
              List.mem_filter.mpr ⟨hmem, hwildcard⟩
            refine .inr (List.any_eq_true.mpr ⟨p, ?_, hleaves⟩)
            exact List.mem_filterMap.mpr ⟨ignore, List.mem_append_left _ hmem, hparse⟩
      · rename_i hplain
        refine .inl (List.any_eq_true.mpr ⟨_, List.mem_map_of_mem ?_, hleaves⟩)
        exact List.mem_filter.mpr ⟨hmem, by simpa using hplain⟩
    · refine .inr (List.any_eq_true.mpr ⟨_, List.mem_filterMap.mpr ⟨testFilePattern, ?_, htests⟩,
        (GlobPattern.isMatch_ending _ _).mpr hends⟩)
      refine List.mem_append_right _ ?_
      rw [if_pos hon]
      exact List.mem_singleton_self _

/-- A relative path without wildcards leaves out the same behind two spellings. -/
theorem leavesOut_literal {ignore : String} (hignore : IsLiteral ignore)
    (hbase : base.text.toList ≠ []) (hbase' : base'.text.toList ≠ []) {rel : Path}
    (hrel : rel.isAbsolute = false) :
    leavesOut base ignore (base.join rel) = leavesOut base' ignore (base'.join rel) := by
  obtain ⟨hplain, hrelative⟩ := hignore
  have hstarts : ∀ {b : Path}, b.text.toList ≠ [] →
      (leavesOut b ignore (b.join rel) = true ↔
        (Path.names ⟨ignore⟩).map Path.partOfName <+: rel.names.map Path.partOfName) := by
    intro b hb
    rw [leavesOut, hplain, if_neg Bool.false_ne_true, Path.startsWith, List.isPrefixOf_iff_prefix,
      Path.child, Path.parts_join hb hrelative, Path.parts_join hb hrel,
      List.prefix_append_right_inj]
  rw [Bool.eq_iff_iff, hstarts hbase, hstarts hbase']

/-- Whether a setting leaves out the same of the files that a scan meets, behind two spellings. -/
def LeavesOutAlike (t : FileTree) (options : ScanOptions) (base base' : Path) (ignore : String) :
    Prop :=
  ∀ rel : Path, rel.isAbsolute = false → base.join rel ∈ met t base options →
    leavesOut base ignore (base.join rel) = leavesOut base' ignore (base'.join rel)

theorem isIgnored_join (hbase : base.text.toList ≠ []) (hbase' : base'.text.toList ≠ [])
    (hignores : ∀ ignore ∈ options.ignores,
      IsLiteral ignore ∨ LeavesOutAlike t options base base' ignore)
    {rel : Path} (hrel : rel.isAbsolute = false) (hmet : base.join rel ∈ met t base options) :
    isIgnored base options (base.join rel) = isIgnored base' options (base'.join rel) := by
  have hword : '/' ∉ "_test.go".toList := by decide
  rw [Bool.eq_iff_iff, isIgnored_iff, isIgnored_iff, Path.suffix_join_iff hbase hrel hword,
    Path.suffix_join_iff hbase' hrel hword]
  refine or_congr (exists_congr fun ignore => and_congr_right fun hmem => ?_) Iff.rfl
  rw [← Bool.eq_iff_iff]
  rcases hignores ignore hmem with hliteral | halike
  · exact leavesOut_literal hliteral hbase hbase' hrel
  · exact halike rel hrel hmet

/-! ## The same behind two spellings -/

/-- Paths with the same parts behind two bases. -/
def Alongside (base base' p p' : Path) : Prop :=
  ∃ behind, p.parts = base.parts ++ behind ∧ p'.parts = base'.parts ++ behind

/-- Folders with the same path and the same sources behind two bases. -/
structure FolderAlongside (base base' : Path) (f f' : PackageFolder) : Prop where
  path : Alongside base base' f.path f'.path
  sources : List.Forall₂ (Alongside base base') f.sources f'.sources

/-- Scans with the same folders and sources behind two bases. -/
def SameBelow (base base' : Path) (result result' : ScanResult) : Prop :=
  List.Forall₂ (FolderAlongside base base') result.folders result'.folders

theorem compareParts_append_left (front as bs : List PathPart) :
    Path.compareParts (front ++ as) (front ++ bs) = Path.compareParts as bs := by
  induction front with
  | nil => rfl
  | cons part front ih =>
      have hself : part.compare part = .eq := Std.ReflCmp.compare_self
      show (part.compare part).then (Path.compareParts (front ++ as) (front ++ bs)) = _
      rw [hself, ih]
      rfl

theorem Alongside.compare_eq {p p' q q' : Path} (hp : Alongside base base' p p')
    (hq : Alongside base base' q q') : p.compare q = p'.compare q' := by
  obtain ⟨behind, hp, hp'⟩ := hp
  obtain ⟨behind', hq, hq'⟩ := hq
  rw [Path.compare, Path.compare, hp, hq, hp', hq', compareParts_append_left,
    compareParts_append_left]

theorem Alongside.same_eq {p p' q q' : Path} (hp : Alongside base base' p p')
    (hq : Alongside base base' q q') : p.same q = p'.same q' := by
  rw [Path.same, Path.same, Bool.eq_iff_iff, beq_iff_eq, beq_iff_eq, ← Path.compare_eq_iff,
    ← Path.compare_eq_iff, hp.compare_eq hq]

theorem alongside_join (hbase : base.text.toList ≠ []) (hbase' : base'.text.toList ≠ [])
    {rel : Path} (hrel : rel.isAbsolute = false) :
    Alongside base base' (base.join rel) (base'.join rel) :=
  ⟨_, Path.parts_join hbase hrel, Path.parts_join hbase' hrel⟩

/-- What a file counts as is seen from its last part. -/
theorem fileName?_congr {p q : Path} (h : p.parts.getLast? = q.parts.getLast?) :
    p.fileName? = q.fileName? ∧ p.extension? = q.extension? := by
  have hname : p.fileName? = q.fileName? := by rw [Path.fileName?, Path.fileName?, h]
  exact ⟨hname, by rw [Path.extension?, Path.extension?, hname]⟩

variable {folders folders' : List PackageFolder}

theorem sameBelow_addTo (h : List.Forall₂ (FolderAlongside base base') folders folders')
    {dir dir' : Path} (hdir : Alongside base base' dir dir') {sources sources' : List Path}
    (hsources : List.Forall₂ (Alongside base base') sources sources') :
    List.Forall₂ (FolderAlongside base base') (addTo dir sources folders)
      (addTo dir' sources' folders') := by
  induction h with
  | nil => exact .cons ⟨hdir, hsources⟩ .nil
  | cons hfirst hrest ih =>
      rw [addTo, addTo, ← hdir.compare_eq hfirst.path]
      split
      · exact .cons ⟨hdir, hsources⟩ (.cons hfirst hrest)
      · exact .cons ⟨hfirst.path, List.rel_append hfirst.sources hsources⟩ hrest
      · exact .cons hfirst ih

theorem sameBelow_addFile (h : List.Forall₂ (FolderAlongside base base') folders folders')
    (hbase : base.text.toList ≠ []) (hbase' : base'.text.toList ≠ []) {rel : Path}
    (hrel : IsBelow rel) :
    List.Forall₂ (FolderAlongside base base') (addFile options folders (base.join rel))
      (addFile options folders' (base'.join rel)) := by
  obtain ⟨hrelative, hne⟩ := hrel
  obtain ⟨front, name, hnames⟩ := (List.eq_nil_or_concat' rel.names).resolve_left hne
  -- the folder of the file has the parts in front of the last name
  have hparent : ∀ {b : Path}, b.text.toList ≠ [] → ∃ dir, (b.join rel).parent? = some dir
      ∧ dir.parts = b.parts ++ front.map Path.partOfName
      ∧ (b.join rel).parts.getLast? = some (Path.partOfName name) := by
    intro b hb
    have hlast : (b.join rel).names.getLast? = some name := by
      rw [Path.names_join hb hrelative, hnames, ← List.append_assoc, List.getLast?_concat]
    have hany : (b.join rel).names ≠ [] := by
      intro hnil
      rw [hnil] at hlast
      cases hlast
    obtain ⟨dir, hdir, -, -⟩ := Path.parent?_of_names hany
    refine ⟨dir, hdir, ?_, Path.getLast?_parts hlast⟩
    have hparts := Path.parts_of_parent hlast hdir
    rw [Path.parts_join hb hrelative, hnames, List.map_append, ← List.append_assoc] at hparts
    exact (List.append_inj_left' hparts rfl).symm
  obtain ⟨dir, hdir, hparts, hlast⟩ := hparent hbase
  obtain ⟨dir', hdir', hparts', hlast'⟩ := hparent hbase'
  obtain ⟨hname, hextension⟩ := fileName?_congr (hlast.trans hlast'.symm)
  have hsource : isSource options (base.join rel) = isSource options (base'.join rel) := by
    rw [isSource, isSource, hname, hextension]
  have hstate : isGeneratedState options (base.join rel)
      = isGeneratedState options (base'.join rel) := by
    rw [isGeneratedState, isGeneratedState, hname]
  have halong : Alongside base base' dir dir' := ⟨_, hparts, hparts'⟩
  rw [addFile, addFile, hdir, hdir', hsource, hstate]
  dsimp only
  split
  · exact sameBelow_addTo h halong (.cons (alongside_join hbase hbase' hrelative) .nil)
  · split
    · exact sameBelow_addTo h halong .nil
    · exact h

/-- All files keep the folders the same: by induction on the files. -/
theorem sameBelow_foldl (hbase : base.text.toList ≠ []) (hbase' : base'.text.toList ≠ [])
    {rels : List Path} (hrels : ∀ rel ∈ rels, IsBelow rel)
    (h : List.Forall₂ (FolderAlongside base base') folders folders') :
    List.Forall₂ (FolderAlongside base base') ((rels.map base.join).foldl (addFile options) folders)
      ((rels.map base'.join).foldl (addFile options) folders') := by
  induction rels generalizing folders folders' with
  | nil => exact h
  | cons rel rels ih =>
      refine ih (fun other hother => hrels other (List.mem_cons_of_mem _ hother)) ?_
      exact sameBelow_addFile h hbase hbase' (hrels rel (List.mem_cons_self ..))

theorem forall₂_dedupBehind {kept kept' : Path} (hkept : Alongside base base' kept kept')
    {paths paths' : List Path} (h : List.Forall₂ (Alongside base base') paths paths') :
    List.Forall₂ (Alongside base base') (dedupBehind kept paths) (dedupBehind kept' paths') := by
  induction h generalizing kept kept' with
  | nil => exact .nil
  | cons hfirst hrest ih =>
      rw [dedupBehind, dedupBehind, ← hkept.same_eq hfirst]
      split
      · exact ih hkept
      · exact .cons hfirst (ih hfirst)

/-- Sorting keeps the pairing, since it compares the parts behind the bases only. -/
theorem forall₂_mergeSort {paths paths' : List Path}
    (h : List.Forall₂ (Alongside base base') paths paths') :
    List.Forall₂ (Alongside base base') (paths.mergeSort fun p q => (p.compare q).isLE)
      (paths'.mergeSort fun p q => (p.compare q).isLE) := by
  obtain ⟨hlength, hpairs⟩ := List.forall₂_iff_zip.mp h
  let le : Path × Path → Path × Path → Bool := fun x y => (x.1.compare y.1).isLE
  have hfst : ((paths.zip paths').mergeSort le).map (·.1)
      = paths.mergeSort fun p q => (p.compare q).isLE := by
    have hmap := List.map_fst_zip (Nat.le_of_eq hlength)
    refine (List.map_mergeSort fun _ _ _ _ => ?_).trans (congrArg (List.mergeSort · _) hmap)
    rfl
  have hsnd : ((paths.zip paths').mergeSort le).map (·.2)
      = paths'.mergeSort fun p q => (p.compare q).isLE := by
    have hmap := List.map_snd_zip (Nat.le_of_eq hlength.symm)
    refine (List.map_mergeSort fun x hx y hy => ?_).trans (congrArg (List.mergeSort · _) hmap)
    exact congrArg Ordering.isLE ((hpairs hx).compare_eq (hpairs hy))
  rw [← hfst, ← hsnd, List.forall₂_map_left_iff, List.forall₂_map_right_iff, List.forall₂_same]
  intro pair hpair
  exact hpairs (List.mem_mergeSort.mp hpair)

theorem forall₂_ordered {paths paths' : List Path}
    (h : List.Forall₂ (Alongside base base') paths paths') :
    List.Forall₂ (Alongside base base') (ordered paths) (ordered paths') := by
  have hsorted := forall₂_mergeSort h
  rw [ordered, ordered]
  revert hsorted
  generalize paths.mergeSort _ = sorted
  generalize paths'.mergeSort _ = sorted'
  intro hsorted
  cases hsorted with
  | nil => exact .nil
  | cons hfirst hrest => exact .cons hfirst (forall₂_dedupBehind hfirst hrest)

/-- A scan finds the same from two spellings of a directory, unless the settings leave out other
    files behind one than behind the other. -/
theorem sameBelow_folders (hnamed : t.WellNamed) (hbase : Accepts t options place base)
    (hbase' : Accepts t options place base')
    (hincludes : ∀ pattern ∈ options.includes, IsLiteral pattern)
    (hignores : ∀ ignore ∈ options.ignores,
      IsLiteral ignore ∨ LeavesOutAlike t options base base' ignore) :
    SameBelow base base' (Scan.folders t base options) (Scan.folders t base' options) := by
  have hmet := met_eq hnamed hbase hincludes
  have hmet' := met_eq hnamed hbase' hincludes
  rw [← relativeMet_congr hbase hbase' hincludes] at hmet'
  have hbelow := isBelow_of_mem_relativeMet hnamed hbase hincludes
  generalize relativeMet t base place options = rels at hmet hmet' hbelow
  have hfiles : filesOf t base options
      = (rels.filter fun rel => !isIgnored base options (base.join rel)).map base.join := by
    show (met t base options).filter _ = _
    rw [hmet, List.filter_map]
    rfl
  have hfiles' : filesOf t base' options
      = (rels.filter fun rel => !isIgnored base options (base.join rel)).map base'.join := by
    show (met t base' options).filter _ = _
    rw [hmet', List.filter_map]
    refine congrArg (List.map base'.join) (List.filter_congr fun rel hrel => ?_)
    have hmem : base.join rel ∈ met t base options := hmet ▸ List.mem_map_of_mem hrel
    exact congrArg not (isIgnored_join hbase.ne_nil hbase'.ne_nil hignores (hbelow rel hrel).1
      hmem).symm
  have hkept : ∀ rel ∈ rels.filter fun rel => !isIgnored base options (base.join rel),
      IsBelow rel := fun rel hrel => hbelow rel (List.mem_filter.mp hrel).1
  rw [SameBelow, folders_eq_map, folders_eq_map, hfiles, hfiles', List.forall₂_map_left_iff,
    List.forall₂_map_right_iff]
  refine (sameBelow_foldl hbase.ne_nil hbase'.ne_nil hkept .nil).imp ?_
  intro f f' h
  exact ⟨h.path, forall₂_ordered h.sources⟩

/-! ## A directory with two spellings -/

/-- A project with two folders, as the working directory. -/
def twoFolders : FileTree where
  entries := [(["proj"], .directory), (["proj", "svc"], .directory),
    (["proj", "svc", "a.go"], .file (.text "package svc\n")),
    (["proj", "svc", "gen"], .directory),
    (["proj", "svc", "gen", "b.go"], .file (.text "package gen\n"))]
  workingDir := ["proj"]

/-- Settings for a scan of one of the folders. -/
def leavingOut (ignores : List String) : ScanOptions where
  includes := ["svc"]
  ignores := ignores
  outputFile := "zz_wiregen.go"
  cacheFile := ".wiregen-cache.json"

theorem wellNamed_twoFolders : twoFolders.WellNamed := by
  rw [FileTree.WellNamed]
  decide

theorem isLiteral_svc : ∀ pattern ∈ ["svc"], IsLiteral pattern := by
  decide

/-- Spellings of the working directory. -/
def spellings : List Path :=
  [⟨"."⟩, ⟨"../proj"⟩, ⟨"/proj"⟩]

theorem entryAt_spellings : ∀ base ∈ spellings,
    twoFolders.entryAt base = .ok (["proj"], .directory)
      ∧ twoFolders.entryAt (base.child "svc") = .ok (["proj", "svc"], .directory) := by
  rw [spellings, List.forall_mem_cons, List.forall_mem_cons, List.forall_mem_singleton]
  exact ⟨⟨rfl, rfl⟩, ⟨rfl, rfl⟩, ⟨rfl, rfl⟩⟩

theorem accepts_twoFolders (ignores : List String) {base : Path} (h : base ∈ spellings) :
    Accepts twoFolders (leavingOut ignores) ["proj"] base := by
  refine ⟨(entryAt_spellings base h).1, ?_⟩
  intro pattern hpattern
  rw [List.mem_singleton.mp hpattern]
  revert base
  decide

theorem below_twoFolders : twoFolders.below ["proj", "svc"]
    = [(["a.go"], .file (.text "package svc\n")), (["gen"], .directory),
      (["gen", "b.go"], .file (.text "package gen\n"))] := by
  refine List.mergeSort_of_pairwise ?_
  decide +kernel

theorem met_twoFolders (ignores : List String) {base : Path}
    (h : base ∈ spellings) : met twoFolders base (leavingOut ignores)
      = [base.join ⟨"svc/a.go"⟩, base.join ⟨"svc/gen/b.go"⟩] := by
  have hfiles : filesFound twoFolders ⟨"svc"⟩ (.ok (["proj", "svc"], .directory))
      = [⟨"svc/a.go"⟩, ⟨"svc/gen/b.go"⟩] := by
    rw [filesFound, FileTree.filesBelow, below_twoFolders]
    decide +kernel
  have hrels : relativeMet twoFolders base ["proj"] (leavingOut ignores)
      = [⟨"svc/a.go"⟩, ⟨"svc/gen/b.go"⟩] := by
    show filesFound twoFolders ⟨"svc"⟩ (twoFolders.entryAt (base.child "svc")) ++ [] = _
    rw [(entryAt_spellings base h).2, hfiles]
    rfl
  rw [met_eq wellNamed_twoFolders (accepts_twoFolders ignores h) isLiteral_svc, hrels]
  rfl

/-- A pattern for a folder below both spellings leaves out the same behind them. -/
theorem leavesOutAlike_gen : LeavesOutAlike twoFolders (leavingOut ["svc/old", "**/gen/**"])
    ⟨"."⟩ ⟨"../proj"⟩ "**/gen/**" := by
  intro rel hrel hmem
  rw [met_twoFolders _ (List.mem_cons_self ..)] at hmem
  rcases List.mem_pair.mp hmem with hsame | hsame
  · rw [Path.join_injective hrel (by decide) hsame]
    decide +kernel
  · rw [Path.join_injective hrel (by decide) hsame]
    decide +kernel

/-- A project is scanned as its working directory and by its name. -/
theorem sameBelow_folders_twoFolders :
    twoFolders.WellNamed
      ∧ Accepts twoFolders (leavingOut ["svc/old", "**/gen/**"]) ["proj"] ⟨"."⟩
      ∧ Accepts twoFolders (leavingOut ["svc/old", "**/gen/**"]) ["proj"] ⟨"../proj"⟩
      ∧ (∀ pattern ∈ ["svc"], IsLiteral pattern)
      ∧ (∀ ignore ∈ ["svc/old", "**/gen/**"], IsLiteral ignore ∨ LeavesOutAlike twoFolders
        (leavingOut ["svc/old", "**/gen/**"]) ⟨"."⟩ ⟨"../proj"⟩ ignore)
      ∧ SameBelow ⟨"."⟩ ⟨"../proj"⟩
        (Scan.folders twoFolders ⟨"."⟩ (leavingOut ["svc/old", "**/gen/**"]))
        (Scan.folders twoFolders ⟨"../proj"⟩ (leavingOut ["svc/old", "**/gen/**"])) := by
  have hbase : Accepts twoFolders (leavingOut ["svc/old", "**/gen/**"]) ["proj"] ⟨"."⟩ :=
    accepts_twoFolders _ (by decide)
  have hbase' : Accepts twoFolders (leavingOut ["svc/old", "**/gen/**"]) ["proj"] ⟨"../proj"⟩ :=
    accepts_twoFolders _ (by decide)
  have hignores : ∀ ignore ∈ ["svc/old", "**/gen/**"], IsLiteral ignore ∨ LeavesOutAlike twoFolders
      (leavingOut ["svc/old", "**/gen/**"]) ⟨"."⟩ ⟨"../proj"⟩ ignore := by
    intro ignore hignore
    rcases List.mem_pair.mp hignore with rfl | rfl
    · exact .inl (by decide)
    · exact .inr leavesOutAlike_gen
  exact ⟨wellNamed_twoFolders, hbase, hbase', isLiteral_svc, hignores,
    sameBelow_folders wellNamed_twoFolders hbase hbase' isLiteral_svc hignores⟩

/-- Whether a scan finds the same behind all spellings of a directory. -/
def SpellingFree (options : ScanOptions) : Prop :=
  ∀ (t : FileTree) (base base' : Path) (place : Place), t.WellNamed →
    Accepts t options place base → Accepts t options place base' →
    (∀ pattern ∈ options.includes, IsLiteral pattern) →
    SameBelow base base' (Scan.folders t base options) (Scan.folders t base' options)

/-- The number of folders that a scan finds. -/
theorem length_folders (t : FileTree) (base : Path) (options : ScanOptions) :
    (Scan.folders t base options).folders.length
      = (((met t base options).filter fun path => !isIgnored base options path).foldl
        (addFile options) []).length :=
  List.length_map _

/-- A pattern sees the name of the directory in one of its spellings only, and an absolute path
    leaves out nothing behind a relative spelling. -/
theorem not_spellingFree :
    ¬ SpellingFree (leavingOut ["**/proj/**"]) ∧ ¬ SpellingFree (leavingOut ["/proj/svc/gen"]) := by
  constructor
  · intro h
    have hsame := h twoFolders ⟨"."⟩ ⟨"../proj"⟩ ["proj"] wellNamed_twoFolders
      (accepts_twoFolders _ (by decide)) (accepts_twoFolders _ (by decide)) isLiteral_svc
    have hlength := List.Forall₂.length_eq hsame
    rw [length_folders, length_folders, met_twoFolders _ (by decide), met_twoFolders _ (by decide)]
      at hlength
    revert hlength
    decide +kernel
  · intro h
    have hsame := h twoFolders ⟨"."⟩ ⟨"/proj"⟩ ["proj"] wellNamed_twoFolders
      (accepts_twoFolders _ (by decide)) (accepts_twoFolders _ (by decide)) isLiteral_svc
    have hlength := List.Forall₂.length_eq hsame
    rw [length_folders, length_folders, met_twoFolders _ (by decide), met_twoFolders _ (by decide)]
      at hlength
    revert hlength
    decide +kernel

end Scan

end ServiceWiring
