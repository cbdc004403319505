import Mathlib.Data.List.Pairwise
import ServiceWiring.Proofs.PathOrder

/-!
# Every folder once

A scan lists its folders by the parts of their paths.  It lists a folder twice exactly when it
meets the folder under two spellings with different parts.

* `FileTree.SameFolder`, `FileTree.SameFile` — paths that lead to one folder, to one file;
* `Scan.Keyed` — the folders found so far, kept by every file;
* `Scan.OnceEach` — no folder and no source stands twice in what a scan finds;
* `Scan.onceEach_iff` — when that is so;
* `Scan.onceEach_of_below` — it is so when all roots are spelled below the base directory.
-/

namespace ServiceWiring

open Text

namespace FileTree

/-- Whether two paths lead to one folder. -/
def SameFolder (t : FileTree) (p q : Path) : Prop :=
  ∃ place, t.folderAt p = .ok place ∧ t.folderAt q = .ok place

/-- Whether two paths lead to one file. -/
def SameFile (t : FileTree) (p q : Path) : Prop :=
  ∃ place content, t.entryAt p = .ok (place, .file content) ∧ t.entryAt q = .ok (place, .file content)

variable {t : FileTree} {p q : Path}

theorem SameFolder.symm (h : t.SameFolder p q) : t.SameFolder q p := by
  obtain ⟨place, hp, hq⟩ := h
  exact ⟨place, hq, hp⟩

/-- Paths with the same parts lead to the same folders. -/
theorem SameFolder.congr {p' q' : Path} (h : t.SameFolder p q) (hp : p'.parts = p.parts)
    (hq : q'.parts = q.parts) : t.SameFolder p' q' := by
  obtain ⟨place, hplace, hplace'⟩ := h
  refine ⟨place, ?_, ?_⟩
  · rw [folderAt_congr (Path.leadsAlike_of_parts hp)]
    exact hplace
  · rw [folderAt_congr (Path.leadsAlike_of_parts hq)]
    exact hplace'

/-- Paths that lead to one file have one folder, and the same last name. -/
theorem SameFile.folders {d e : Path} (h : t.SameFile p q) (hd : p.parent? = some d)
    (he : q.parent? = some e) :
    t.SameFolder d e ∧ ∃ name, p.names.getLast? = some name ∧ q.names.getLast? = some name := by
  obtain ⟨place, content, hp, hq⟩ := h
  obtain ⟨dir, name, hname, hdir, hplace⟩ := file_of_entryAt hp hd
  obtain ⟨dir', name', hname', hdir', hplace'⟩ := file_of_entryAt hq he
  obtain ⟨rfl, hlast⟩ := List.append_inj' (hplace.symm.trans hplace') rfl
  obtain rfl : name = name' := (List.cons.inj hlast).1
  exact ⟨⟨dir, hdir, hdir'⟩, name, hname, hname'⟩

end FileTree

namespace Scan

variable {t : FileTree} {base : Path} {options : ScanOptions} {files : List Path}
  {folders : List PackageFolder}

/-! ## Sources -/

theorem pairwise_dedupBehind {kept : Path} {paths : List Path}
    (h : (kept :: paths).Pairwise fun p q => (p.compare q).isLE) :
    (kept :: dedupBehind kept paths).Pairwise fun p q => p.compare q = .lt := by
  induction paths generalizing kept with
  | nil => exact List.pairwise_singleton _ _
  | cons p rest ih =>
      obtain ⟨hkept, hrest⟩ := List.pairwise_cons.mp h
      by_cases hsame : kept.same p = true
      · rw [dedupBehind, if_pos hsame]
        refine ih (List.pairwise_cons.mpr ⟨fun q hq => ?_, (List.pairwise_cons.mp hrest).2⟩)
        exact hkept q (List.mem_cons_of_mem _ hq)
      · rw [dedupBehind, if_neg hsame]
        -- the list is ordered, and what is kept is not the same
        have hlt : kept.compare p = .lt := by
          have hle := hkept p (List.mem_cons_self ..)
          cases hcompare : kept.compare p with
          | lt => rfl
          | eq =>
              rw [Path.compare_eq_iff] at hcompare
              exact absurd (beq_iff_eq.mpr hcompare) hsame
          | gt =>
              rw [hcompare] at hle
              cases hle
        have htail := ih hrest
        refine List.pairwise_cons.mpr ⟨fun q hq => ?_, htail⟩
        rcases List.mem_cons.mp hq with rfl | hq
        · exact hlt
        · exact Std.TransCmp.lt_trans hlt ((List.pairwise_cons.mp htail).1 q hq)

/-- Sources in order have different parts. -/
theorem pairwise_ordered (sources : List Path) :
    (ordered sources).Pairwise fun p q => p.parts ≠ q.parts := by
  have hsorted : (sources.mergeSort fun p q => (p.compare q).isLE).Pairwise
      fun p q => (p.compare q).isLE := by
    refine List.pairwise_mergeSort (fun p q r => Std.TransCmp.isLE_trans) (fun p q => ?_) sources
    cases hcompare : p.compare q with
    | lt => rfl
    | eq => rfl
    | gt =>
        rw [Std.OrientedCmp.gt_iff_lt] at hcompare
        rw [hcompare]
        rfl
  unfold ordered
  cases hlist : sources.mergeSort fun p q => (p.compare q).isLE with
  | nil => exact List.Pairwise.nil
  | cons p rest =>
      rw [hlist] at hsorted
      exact (pairwise_dedupBehind hsorted).imp Path.parts_ne_of_lt

/-! ## Folders by the parts of their paths -/

/-- Whether a file makes a folder one of a scan's. -/
def Makes (options : ScanOptions) (p dir : Path) : Prop :=
  p.parent? = some dir ∧ (isSource options p = true ∨ isGeneratedState options p = true)

/-- The folders that files make, each once, with their sources. -/
structure Keyed (options : ScanOptions) (files : List Path) (folders : List PackageFolder) :
    Prop where
  increasing : folders.Pairwise fun f g => f.path.compare g.path = .lt
  /-- A folder is spelled as a file made it. -/
  made : ∀ f ∈ folders, ∃ p ∈ files, Makes options p f.path
  placed : ∀ p ∈ files, ∀ dir, Makes options p dir → ∃ f ∈ folders, f.path.parts = dir.parts
  sources : ∀ f ∈ folders, ∀ p ∈ f.sources,
    ∃ dir, Makes options p dir ∧ p ∈ files ∧ dir.parts = f.path.parts

/-- What stands among folders to which sources are added. -/
theorem mem_addTo_cases {dir : Path} {sources : List Path} {f : PackageFolder}
    (h : f ∈ addTo dir sources folders) :
    f ∈ folders ∨ f = ⟨dir, sources⟩ ∨ ∃ g ∈ folders, dir.parts = g.path.parts
      ∧ f = { g with sources := g.sources ++ sources } := by
  induction folders with
  | nil => exact .inr (.inl (List.mem_singleton.mp h))
  | cons first rest ih =>
      rw [addTo] at h
      cases hcompare : dir.compare first.path with
      | lt =>
          rw [hcompare] at h
          rcases List.mem_cons.mp h with rfl | h
          · exact .inr (.inl rfl)
          · exact .inl h
      | eq =>
          rw [hcompare] at h
          rcases List.mem_cons.mp h with rfl | h
          · exact .inr (.inr ⟨first, List.mem_cons_self .., Path.compare_eq_iff.mp hcompare, rfl⟩)
          · exact .inl (List.mem_cons_of_mem _ h)
      | gt =>
          rw [hcompare] at h
          rcases List.mem_cons.mp h with rfl | h
          · exact .inl (List.mem_cons_self ..)
          · rcases ih h with h | h | ⟨g, hg, heq⟩
            · exact .inl (List.mem_cons_of_mem _ h)
            · exact .inr (.inl h)
            · exact .inr (.inr ⟨g, List.mem_cons_of_mem _ hg, heq⟩)

/-- The folders are still there, and so is the one added to. -/
theorem exists_mem_addTo (dir : Path) (sources : List Path) (folders : List PackageFolder) :
    (∀ f ∈ folders, ∃ g ∈ addTo dir sources folders, g.path = f.path)
      ∧ ∃ g ∈ addTo dir sources folders, g.path.parts = dir.parts := by
  induction folders with
  | nil => exact ⟨fun _ h => (nomatch h), ⟨dir, sources⟩, List.mem_singleton_self _, rfl⟩
  | cons first rest ih =>
      rw [addTo]
      cases hcompare : dir.compare first.path with
      | lt =>
          exact ⟨fun f hf => ⟨f, List.mem_cons_of_mem _ hf, rfl⟩, _, List.mem_cons_self .., rfl⟩
      | eq =>
          refine ⟨fun f hf => ?_, _, List.mem_cons_self .., (Path.compare_eq_iff.mp hcompare).symm⟩
          rcases List.mem_cons.mp hf with rfl | hf
          · exact ⟨_, List.mem_cons_self .., rfl⟩
          · exact ⟨f, List.mem_cons_of_mem _ hf, rfl⟩
      | gt =>
          obtain ⟨hkept, added, hadded, hparts⟩ := ih
          refine ⟨fun f hf => ?_, added, List.mem_cons_of_mem _ hadded, hparts⟩
          rcases List.mem_cons.mp hf with rfl | hf
          · exact ⟨_, List.mem_cons_self .., rfl⟩
          · obtain ⟨g, hg, hpath⟩ := hkept f hf
            exact ⟨g, List.mem_cons_of_mem _ hg, hpath⟩

theorem increasing_addTo (h : folders.Pairwise fun f g => f.path.compare g.path = .lt) (dir : Path)
    (sources : List Path) :
    (addTo dir sources folders).Pairwise fun f g => f.path.compare g.path = .lt := by
  induction folders with
  | nil => exact List.pairwise_singleton _ _
  | cons first rest ih =>
      obtain ⟨hfirst, hrest⟩ := List.pairwise_cons.mp h
      rw [addTo]
      cases hcompare : dir.compare first.path with
      | lt =>
          refine List.pairwise_cons.mpr ⟨fun g hg => ?_, h⟩
          rcases List.mem_cons.mp hg with rfl | hg
          · exact hcompare
          · exact Std.TransCmp.lt_trans hcompare (hfirst g hg)
      | eq => exact List.pairwise_cons.mpr ⟨hfirst, hrest⟩
      | gt =>
          refine List.pairwise_cons.mpr ⟨fun g hg => ?_, ih hrest⟩
          rcases mem_addTo_cases hg with hg | rfl | ⟨old, hold, -, rfl⟩
          · exact hfirst g hg
          · exact Std.OrientedCmp.gt_iff_lt.mp hcompare
          · exact hfirst old hold

/-- More files leave what was said of the earlier ones. -/
theorem Keyed.add (h : Keyed options files folders) {path dir : Path} {sources : List Path}
    (hmakes : Makes options path dir) (hsources : ∀ p ∈ sources, p = path) :
    Keyed options (files ++ [path]) (addTo dir sources folders) where
  increasing := increasing_addTo h.increasing dir sources
  made := by
    intro f hf
    rcases mem_addTo_cases hf with hf | rfl | ⟨old, hold, -, rfl⟩
    · obtain ⟨p, hp, hmade⟩ := h.made f hf
      exact ⟨p, List.mem_append_left _ hp, hmade⟩
    · exact ⟨path, List.mem_concat_self .., hmakes⟩
    · obtain ⟨p, hp, hmade⟩ := h.made old hold
      exact ⟨p, List.mem_append_left _ hp, hmade⟩
  placed := by
    obtain ⟨hkept, added, hadded, hparts⟩ := exists_mem_addTo dir sources folders
    intro p hp dir' hmakes'
    rcases List.mem_append.mp hp with hp | hp
    · obtain ⟨f, hf, hpath⟩ := h.placed p hp dir' hmakes'
      obtain ⟨g, hg, hsame⟩ := hkept f hf
      exact ⟨g, hg, hsame ▸ hpath⟩
    · -- a path makes one folder only
      rw [List.mem_singleton.mp hp] at hmakes'
      obtain rfl : dir = dir' := Option.some.inj (hmakes.1.symm.trans hmakes'.1)
      exact ⟨added, hadded, hparts⟩
  sources := by
    have hold : ∀ f ∈ folders, ∀ p ∈ f.sources,
        ∃ d, Makes options p d ∧ p ∈ files ++ [path] ∧ d.parts = f.path.parts := by
      intro f hf p hp
      obtain ⟨d, hmade, hp, hparts⟩ := h.sources f hf p hp
      exact ⟨d, hmade, List.mem_append_left _ hp, hparts⟩
    intro f hf p hp
    rcases mem_addTo_cases hf with hf | rfl | ⟨g, hg, hdir, rfl⟩
    · exact hold f hf p hp
    · rw [hsources p hp]
      exact ⟨dir, hmakes, List.mem_concat_self .., rfl⟩
    · rcases List.mem_append.mp hp with hp | hp
      · exact hold g hg p hp
      · rw [hsources p hp]
        exact ⟨dir, hmakes, List.mem_concat_self .., hdir⟩

/-- A file that makes no folder changes nothing. -/
theorem Keyed.skip (h : Keyed options files folders) {path : Path}
    (hnot : ∀ dir, ¬ Makes options path dir) : Keyed options (files ++ [path]) folders where
  increasing := h.increasing
  made := by
    intro f hf
    obtain ⟨p, hp, hmade⟩ := h.made f hf
    exact ⟨p, List.mem_append_left _ hp, hmade⟩
  placed := by
    intro p hp dir hmakes
    rcases List.mem_append.mp hp with hp | hp
    · exact h.placed p hp dir hmakes
    · rw [List.mem_singleton.mp hp] at hmakes
      exact absurd hmakes (hnot dir)
  sources := by
    intro f hf p hp
    obtain ⟨d, hmade, hp, hparts⟩ := h.sources f hf p hp
    exact ⟨d, hmade, List.mem_append_left _ hp, hparts⟩

theorem Keyed.addFile (h : Keyed options files folders) (path : Path) :
    Keyed options (files ++ [path]) (addFile options folders path) := by
  unfold Scan.addFile
  cases hparent : path.parent? with
  | none =>
      refine h.skip fun dir hmakes => ?_
      rw [hmakes.1] at hparent
      cases hparent
  | some dir =>
      dsimp only
      by_cases hsource : isSource options path = true
      · rw [if_pos hsource]
        exact h.add ⟨hparent, .inl hsource⟩ fun p hp => List.mem_singleton.mp hp
      · rw [if_neg hsource]
        by_cases hstate : isGeneratedState options path = true
        · rw [if_pos hstate]
          exact h.add ⟨hparent, .inr hstate⟩ fun p hp => nomatch hp
        · rw [if_neg hstate]
          exact h.skip fun dir hmakes => hmakes.2.elim hsource hstate

theorem Keyed.foldl (h : Keyed options files folders) (more : List Path) :
    Keyed options (files ++ more) (more.foldl (Scan.addFile options) folders) := by
  induction more generalizing files folders with
  | nil =>
      rw [List.append_nil]
      exact h
  | cons path more ih =>
      have hmore := ih (h.addFile path)
      rw [List.append_assoc] at hmore
      exact hmore

/-! ## When every folder stands once -/

/-- The files that a scan looks at: those below its roots that are not left out. -/
def filesOf (t : FileTree) (base : Path) (options : ScanOptions) : List Path :=
  (((roots t base options).map (filesUnder? t)).flatMap (·.getD [])).filter
    fun path => !isIgnored base options path

theorem keyed_filesOf (t : FileTree) (base : Path) (options : ScanOptions) :
    Keyed options (filesOf t base options)
      ((filesOf t base options).foldl (Scan.addFile options) []) := by
  have hempty : Keyed options [] [] := by
    constructor
    · exact List.Pairwise.nil
    · exact fun _ h => nomatch h
    · exact fun _ h => nomatch h
    · exact fun _ h => nomatch h
  exact hempty.foldl (filesOf t base options)

theorem folders_eq_map (t : FileTree) (base : Path) (options : ScanOptions) :
    (Scan.folders t base options).folders
      = ((filesOf t base options).foldl (Scan.addFile options) []).map fun folder =>
          { folder with sources := ordered folder.sources } :=
  rfl

/-- No folder stands twice, and no file stands twice among all sources. -/
structure OnceEach (t : FileTree) (result : ScanResult) : Prop where
  folders : result.folders.Pairwise fun f g => ¬ t.SameFolder f.path g.path
  sources : (result.folders.flatMap (·.sources)).Pairwise fun p q => ¬ t.SameFile p q

/-- Every folder that a scan meets has one spelling, up to what leaves its parts the same. -/
def OneSpelling (t : FileTree) (base : Path) (options : ScanOptions) : Prop :=
  ∀ p ∈ filesOf t base options, ∀ q ∈ filesOf t base options, ∀ d e,
    Makes options p d → Makes options q e → t.SameFolder d e → d.parts = e.parts

theorem oneSpelling_of_onceEach (h : OnceEach t (Scan.folders t base options)) :
    OneSpelling t base options := by
  intro p hp q hq d e hd he hsame
  obtain ⟨f, hf, hfparts⟩ := (keyed_filesOf t base options).placed p hp d hd
  obtain ⟨g, hg, hgparts⟩ := (keyed_filesOf t base options).placed q hq e he
  by_contra hne
  have hfolders := h.folders
  rw [folders_eq_map, List.pairwise_map] at hfolders
  have hsymm : Std.Symm fun f g : PackageFolder => ¬ t.SameFolder f.path g.path :=
    ⟨fun _ _ hnot hsame => hnot hsame.symm⟩
  refine hfolders.forall hf hg ?_ (hsame.congr hfparts hgparts)
  rintro rfl
  exact hne (hfparts.symm.trans hgparts)

theorem onceEach_of_oneSpelling (h : OneSpelling t base options) :
    OnceEach t (Scan.folders t base options) := by
  have hkeyed := keyed_filesOf t base options
  rw [OneSpelling] at h
  constructor
  · rw [folders_eq_map, List.pairwise_map]
    refine hkeyed.increasing.imp_of_mem fun {f g} hf hg hlt hsame => ?_
    obtain ⟨p, hp, hmade⟩ := hkeyed.made f hf
    obtain ⟨q, hq, hmade'⟩ := hkeyed.made g hg
    exact Path.parts_ne_of_lt hlt (h p hp q hq _ _ hmade hmade' hsame)
  · rw [folders_eq_map, List.flatMap_map, List.pairwise_flatMap]
    constructor
    · -- two sources of one folder have its parts and a last part of their own
      intro f hf
      refine (pairwise_ordered f.sources).imp_of_mem fun {p q} hp hq hne hsame => ?_
      obtain ⟨d, hd, -, hdparts⟩ := hkeyed.sources f hf p (mem_of_mem_ordered hp)
      obtain ⟨e, he, -, heparts⟩ := hkeyed.sources f hf q (mem_of_mem_ordered hq)
      obtain ⟨-, name, hname, hname'⟩ := hsame.folders hd.1 he.1
      refine hne ?_
      rw [Path.parts_of_parent hname hd.1, Path.parts_of_parent hname' he.1, hdparts, heparts]
    · -- sources of two folders would make these the same
      refine hkeyed.increasing.imp_of_mem fun {f g} hf hg hlt p hp q hq hsame => ?_
      obtain ⟨d, hd, hp, hdparts⟩ := hkeyed.sources f hf p (mem_of_mem_ordered hp)
      obtain ⟨e, he, hq, heparts⟩ := hkeyed.sources g hg q (mem_of_mem_ordered hq)
      refine Path.parts_ne_of_lt hlt ?_
      rw [← hdparts, ← heparts]
      exact h p hp q hq d e hd he (hsame.folders hd.1 he.1).1

/-- A scan lists every folder and every source once exactly when it meets every folder under one
    spelling. -/
theorem onceEach_iff (t : FileTree) (base : Path) (options : ScanOptions) :
    OnceEach t (Scan.folders t base options) ↔ OneSpelling t base options :=
  ⟨oneSpelling_of_onceEach, onceEach_of_oneSpelling⟩

/-! ## Roots below the base directory -/

/-- Whether a path is spelled as one below a base, with no step up behind it. -/
def SpelledBelow (base p : Path) : Prop :=
  p.startPart = base.startPart ∧ ∃ names, p.names = base.names ++ names ∧ ".." ∉ names

theorem SpelledBelow.refl (base : Path) : SpelledBelow base base :=
  ⟨rfl, [], (List.append_nil _).symm, by simp⟩

theorem SpelledBelow.append {p q : Path} (h : SpelledBelow base p) {names : List String}
    (hstart : q.startPart = p.startPart) (hnames : q.names = p.names ++ names)
    (hup : ".." ∉ names) : SpelledBelow base q := by
  obtain ⟨hbase, before, hbefore, hup'⟩ := h
  refine ⟨hstart.trans hbase, before ++ names, ?_, ?_⟩
  · rw [hnames, hbefore, List.append_assoc]
  · exact fun hmem => (List.mem_append.mp hmem).elim hup' hup

theorem SpelledBelow.isAbsolute_eq {p : Path} (h : SpelledBelow base p) :
    p.isAbsolute = base.isAbsolute := by
  rw [Bool.eq_iff_iff, Path.isAbsolute_iff_startPart, Path.isAbsolute_iff_startPart, h.1]

/-- The folder of a path below the base directory is below it too, unless the path is the base
    itself. -/
theorem SpelledBelow.parent {p dir : Path} (h : SpelledBelow base p) (hne : p.names ≠ base.names)
    (hdir : p.parent? = some dir) : SpelledBelow base dir := by
  obtain ⟨hstart, names, hnames, hup⟩ := h
  have hbehind : names ≠ [] := by
    rintro rfl
    exact hne (hnames.trans (List.append_nil _))
  have hany : p.names ≠ [] := by
    rw [hnames]
    exact List.append_ne_nil_of_right_ne_nil _ hbehind
  refine ⟨(Path.startPart_of_parent hany hdir).trans hstart, names.dropLast, ?_, ?_⟩
  · rw [Path.names_of_parent hany hdir, hnames, List.dropLast_append_of_ne_nil hbehind]
  · exact fun hmem => hup (List.dropLast_subset _ hmem)

end Scan

namespace FileTree

/-- Whether all names in a tree are such as directories hold. -/
def WellNamed (t : FileTree) : Prop :=
  ∀ e ∈ t.entries, ∀ name ∈ e.1, IsEntryName name

variable {t : FileTree}

theorem names_of_mem_filesBelow (h : t.WellNamed) {dir names : Place} {content : Content}
    (hmem : (names, content) ∈ t.filesBelow dir) :
    names ≠ [] ∧ ∀ name ∈ names, IsEntryName name := by
  obtain ⟨⟨names', entry⟩, hbelow, hfile⟩ := List.mem_filterMap.mp hmem
  obtain ⟨⟨place, found⟩, hentry, hrelative⟩ := List.mem_filterMap.mp (List.mem_mergeSort.mp hbelow)
  obtain ⟨names'', hnames, heq⟩ := Option.map_eq_some_iff.mp hrelative
  obtain ⟨rfl, rfl⟩ := Prod.mk.inj heq
  have hsame : names'' = names := by
    cases found with
    | directory => cases hfile
    | file held => exact congrArg Prod.fst (Option.some.inj hfile)
  subst hsame
  rw [relative?] at hnames
  split at hnames
  · rename_i hprefix
    rw [Bool.and_eq_true, decide_eq_true_eq] at hprefix
    have hdrop := Option.some.inj hnames
    constructor
    · rintro rfl
      exact absurd (List.drop_eq_nil_iff.mp hdrop) (Nat.not_le_of_lt hprefix.2)
    · intro name hname
      rw [← hdrop] at hname
      exact h _ hentry name (List.drop_subset _ _ hname)
  · cases hnames

/-- Names without dots lead straight down. -/
theorem enterAll_eq_append {place dir : Place} {names : List String}
    (h : t.enterAll place names = .ok dir) (hdot : "." ∉ names) (hup : ".." ∉ names) :
    dir = place ++ names := by
  induction names generalizing place with
  | nil =>
      rw [List.append_nil]
      exact (Except.ok.inj h).symm
  | cons name names ih =>
      obtain ⟨next, hnext, hrest⟩ := bind_eq_ok h
      have hlater := ih hrest (fun hmem => hdot (List.mem_cons_of_mem _ hmem))
        fun hmem => hup (List.mem_cons_of_mem _ hmem)
      rcases enter_eq_ok_iff.mp hnext with ⟨rfl, -⟩ | ⟨-, rfl, -⟩ | ⟨-, -, -, -, rfl⟩
      · exact absurd (List.mem_cons_self ..) hdot
      · exact absurd (List.mem_cons_self ..) hup
      · rw [hlater, List.append_assoc]
        rfl

end FileTree

namespace Scan

variable {t : FileTree} {base : Path} {options : ScanOptions}

theorem parts_eq_of_spelledBelow {p q : Path} (hp : SpelledBelow base p)
    (hq : SpelledBelow base q) (h : t.SameFolder p q) : p.parts = q.parts := by
  have hplace : ∀ {r place}, SpelledBelow base r → t.folderAt r = .ok place →
      ∃ root names, t.folderAt base = .ok root ∧ r.names = base.names ++ names
        ∧ place = root ++ names := by
    intro r place hr hfolder
    obtain ⟨-, names, hnames, hup⟩ := id hr
    rw [FileTree.folderAt, hr.isAbsolute_eq, hnames, FileTree.enterAll_append] at hfolder
    obtain ⟨root, hroot, hbelow⟩ := bind_eq_ok hfolder
    have hdot : "." ∉ names := by
      intro hmem
      have hdot : "." ∈ r.names := hnames ▸ List.mem_append_right _ hmem
      exact Path.ne_dot_of_mem_names hdot rfl
    exact ⟨root, names, hroot, hnames, FileTree.enterAll_eq_append hbelow hdot hup⟩
  obtain ⟨place, hfolder, hfolder'⟩ := h
  obtain ⟨root, names, hroot, hnames, hsame⟩ := hplace hp hfolder
  obtain ⟨root', names', hroot', hnames', hsame'⟩ := hplace hq hfolder'
  obtain rfl : root = root' := Except.ok.inj (hroot.symm.trans hroot')
  have hbehind : names = names' := List.append_cancel_left (hsame.symm.trans hsame')
  rw [Path.parts_eq, Path.parts_eq, hp.1, hq.1, hnames, hnames', hbehind]

/-- The files below a root that is spelled below the base are so as well. -/
theorem spelledBelow_of_mem_filesUnder (hnamed : t.WellNamed) {place : Place}
    (hbase : t.folderAt base = .ok place) {root p : Path} (hroot : SpelledBelow base root)
    (hp : p ∈ (filesUnder? t root).getD []) :
    SpelledBelow base p ∧ p.names ≠ base.names := by
  rw [filesUnder?] at hp
  cases hentry : t.entryAt root with
  | error e =>
      rw [hentry] at hp
      cases hp
  | ok found =>
      obtain ⟨dir, entry⟩ := found
      rw [hentry] at hp
      cases entry with
      | file content =>
          -- a root that is a file is not the base, which is a folder
          obtain rfl : p = root := List.mem_singleton.mp hp
          refine ⟨hroot, fun hsame => ?_⟩
          rw [← FileTree.folderAt_congr ⟨hroot.isAbsolute_eq, hsame⟩] at hbase
          exact FileTree.not_folderAt_of_file hentry hbase
      | directory =>
          obtain ⟨⟨names, content⟩, hmem, hkept⟩ := List.mem_filterMap.mp hp
          obtain ⟨hne, hnames⟩ := FileTree.names_of_mem_filesBelow hnamed hmem
          dsimp only at hkept
          split at hkept
          · cases hkept
          · rw [← Option.some.inj hkept]
            have hall := Path.names_foldl_child root hnames
            constructor
            · refine hroot.append (Path.startPart_foldl_child root hnames) hall ?_
              exact fun hmem => (hnames _ hmem).2.2.1 rfl
            · obtain ⟨-, before, hbefore, -⟩ := hroot
              rw [hall, hbefore, List.append_assoc]
              intro hsame
              exact hne (List.append_eq_nil_iff.mp (List.append_right_eq_self.mp hsame)).2

/-- With all roots spelled below the base directory, a scan lists everything once. -/
theorem onceEach_of_below (hnamed : t.WellNamed) {place : Place}
    (hbase : t.folderAt base = .ok place)
    (hroots : ∀ root ∈ roots t base options, SpelledBelow base root) :
    OnceEach t (Scan.folders t base options) := by
  have hbelow : ∀ p ∈ filesOf t base options, ∀ dir, Makes options p dir →
      SpelledBelow base dir := by
    intro p hp dir hmakes
    obtain ⟨found, hfound, hmem⟩ := List.mem_flatMap.mp (List.mem_filter.mp hp).1
    obtain ⟨root, hroot, rfl⟩ := List.mem_map.mp hfound
    obtain ⟨hspelled, hne⟩ := spelledBelow_of_mem_filesUnder hnamed hbase (hroots root hroot) hmem
    exact hspelled.parent hne hmakes.1
  refine onceEach_of_oneSpelling ?_
  intro p hp q hq d e hd he hsame
  exact parts_eq_of_spelledBelow (hbelow p hp d hd) (hbelow q hq e he) hsame

/-- So it does with settings that name directories without wildcards, below the base directory
    and without steps up. -/
theorem onceEach_of_literal (hnamed : t.WellNamed) {place : Place}
    (hbase : t.folderAt base = .ok place) (hspelled : base.text ≠ "")
    (hincludes : ∀ pattern ∈ options.includes, Config.isWildcard pattern = false
      ∧ Path.isAbsolute ⟨pattern⟩ = false ∧ ".." ∉ Path.names ⟨pattern⟩) :
    OnceEach t (Scan.folders t base options) := by
  refine onceEach_of_below hnamed hbase fun root hroot => ?_
  rw [roots] at hroot
  split at hroot
  · rw [List.mem_singleton.mp hroot]
    exact .refl base
  · obtain ⟨pattern, hpattern, hroot⟩ := List.mem_flatMap.mp hroot
    obtain ⟨hliteral, hrelative, hup⟩ := hincludes pattern hpattern
    rw [rootsOf, hliteral, if_neg Bool.false_ne_true] at hroot
    split at hroot
    · rw [List.mem_singleton.mp hroot]
      have hne : base.text.toList ≠ [] := Path.toList_ne_nil hspelled
      exact (SpelledBelow.refl base).append (Path.startPart_join hne hrelative)
        (Path.names_join hne hrelative) hup
    · cases hroot

/-! ## One folder under two spellings -/

/-- A folder with one source, in the working directory. -/
def twiceFound : FileTree where
  entries := [(["svc"], .directory), (["svc", "a.go"], .file (.text "package svc\n"))]

/-- A scan of the working directory that is told to look into the given directories. -/
def lookingInto (includes : List String) : ScanOptions where
  includes := includes
  outputFile := "zz_wiregen.go"
  cacheFile := ".wiregen-cache.json"

theorem children_twiceFound : twiceFound.children [] = [("svc", .directory)] := by
  have hbelow : twiceFound.below []
      = [(["svc"], .directory), (["svc", "a.go"], .file (.text "package svc\n"))] := by
    refine List.mergeSort_of_pairwise ?_
    decide +kernel
  rw [FileTree.children, hbelow]
  rfl

theorem expand_twiceFound : GlobPattern.expand twiceFound ⟨"./*"⟩ = [⟨"svc"⟩] := by
  have hcomponents : (GlobPattern.components? "./*".toList).map GlobPattern.collapse
      = some [⟨[.char '.']⟩, ⟨[.anySequence]⟩] := by
    decide +kernel
  have hdot : GlobPattern.expandFrom twiceFound ⟨"."⟩ [⟨[.char '.']⟩, ⟨[.anySequence]⟩]
      = GlobPattern.expandFrom twiceFound ⟨"."⟩ [⟨[.anySequence]⟩] := by
    have hspell : GlobPattern.spell ⟨"."⟩ ["."] = ⟨"."⟩ := by decide
    have hfollow : GlobPattern.canFollow twiceFound ⟨"."⟩ ⟨"."⟩ "." = true := by decide +kernel
    show (if GlobPattern.canFollow twiceFound ⟨"."⟩ (GlobPattern.spell ⟨"."⟩ ["."]) "." then
      GlobPattern.expandFrom twiceFound (GlobPattern.spell ⟨"."⟩ ["."]) [⟨[.anySequence]⟩]
      else []) = _
    rw [hspell, hfollow, if_pos rfl]
  have hdirectory : twiceFound.directory? ⟨"."⟩ = some [] := by decide +kernel
  show ((GlobPattern.components? "./*".toList).map GlobPattern.collapse).elim []
    (GlobPattern.expandFrom twiceFound ⟨"."⟩) = _
  rw [hcomponents, Option.elim_some, hdot]
  rw [GlobPattern.expandFrom]
  simp only [hdirectory, children_twiceFound]
  decide +kernel

/-- A pattern finds a folder without the dot that the base directory is spelled with. -/
theorem filesOf_twiceFound_pattern : filesOf twiceFound ⟨"."⟩ (lookingInto ["svc", "*"])
    = [⟨"./svc/a.go"⟩, ⟨"svc/a.go"⟩] := by
  have hliteral : rootsOf twiceFound ⟨"."⟩ "svc" = [⟨"./svc"⟩] := by decide +kernel
  have hpattern : rootsOf twiceFound ⟨"."⟩ "*" = [⟨"svc"⟩] := by
    show (GlobPattern.expand twiceFound ⟨"./*"⟩).filter _ = _
    rw [expand_twiceFound]
    decide +kernel
  have hroots : roots twiceFound ⟨"."⟩ (lookingInto ["svc", "*"]) = [⟨"./svc"⟩, ⟨"svc"⟩] := by
    show rootsOf twiceFound ⟨"."⟩ "svc" ++ (rootsOf twiceFound ⟨"."⟩ "*" ++ []) = _
    rw [hliteral, hpattern]
    rfl
  rw [filesOf, hroots]
  decide +kernel

/-- A setting with two dots spells a folder by way of another one. -/
theorem filesOf_twiceFound_dots :
    filesOf twiceFound ⟨"."⟩ (lookingInto ["svc", "svc/../svc"])
      = [⟨"./svc/a.go"⟩, ⟨"./svc/../svc/a.go"⟩] := by
  decide +kernel

/-- The folder is listed twice, with a pattern beside the literal setting, and with two dots. -/
theorem not_onceEach_of_spellings :
    ¬ OnceEach twiceFound (Scan.folders twiceFound ⟨"."⟩ (lookingInto ["svc", "*"]))
      ∧ ¬ OnceEach twiceFound
        (Scan.folders twiceFound ⟨"."⟩ (lookingInto ["svc", "svc/../svc"])) := by
  constructor
  · intro h
    have hspelling := oneSpelling_of_onceEach h
    rw [OneSpelling, filesOf_twiceFound_pattern] at hspelling
    have hparts := hspelling ⟨"./svc/a.go"⟩ (by simp) ⟨"svc/a.go"⟩ (by simp) ⟨"./svc"⟩ ⟨"svc"⟩
      ⟨by decide, .inl (by decide)⟩ ⟨by decide, .inl (by decide)⟩
      ⟨["svc"], by rfl, by rfl⟩
    exact absurd hparts (by decide)
  · intro h
    have hspelling := oneSpelling_of_onceEach h
    rw [OneSpelling, filesOf_twiceFound_dots] at hspelling
    have hparts := hspelling ⟨"./svc/a.go"⟩ (by simp) ⟨"./svc/../svc/a.go"⟩ (by simp) ⟨"./svc"⟩
      ⟨"./svc/../svc"⟩ ⟨by decide, .inl (by decide)⟩ ⟨by decide, .inl (by decide)⟩
      ⟨["svc"], by rfl, by rfl⟩
    exact absurd hparts (by decide)

end Scan

end ServiceWiring
