import ServiceWiring.Folder.Scan
import ServiceWiring.Proofs.Path

/-!
# What a scan lists

The sources that a scan lists under a folder are Go files, none of them is the generated file,
and each of them stands in that folder, whatever the spelling of the two paths.

* `Path.leadsAlike_of_compare` — paths that compare as equal are followed alike;
* `Scan.Lists` — what holds of all folders found so far, kept by every file;
* `Scan.lists_folders` — what holds of the folders of a scan.
-/

namespace ServiceWiring

/-! ## Paths that compare as equal -/

theorem PathPart.eq_of_compare {a b : PathPart} (h : a.compare b = .eq) : a = b := by
  unfold compare at h
  split at h
  · rw [Std.compare_eq_iff_eq.mp h]
  · rename_i hnames
    have hrank := Std.compare_eq_iff_eq.mp h
    cases a with
    | name s =>
        cases b with
        | name r => exact absurd rfl (hnames s r rfl)
        | _ => cases hrank
    | root => cases b <;> first | rfl | cases hrank
    | here => cases b <;> first | rfl | cases hrank
    | up => cases b <;> first | rfl | cases hrank

namespace Path

theorem eq_of_compareParts {as bs : List PathPart} (h : compareParts as bs = .eq) : as = bs := by
  induction as generalizing bs with
  | nil =>
      cases bs with
      | nil => rfl
      | cons b bs => cases h
  | cons a as ih =>
      cases bs with
      | nil => cases h
      | cons b bs =>
          obtain ⟨hhead, htail⟩ := Ordering.then_eq_eq.mp h
          rw [PathPart.eq_of_compare hhead, ih htail]

/-- The part that a path starts with apart from its names. -/
def startPart (p : Path) : List PathPart :=
  match (lead p.text.toList).1 with
  | ['/'] => [.root]
  | ['.'] => [.here]
  | _ => []

theorem parts_eq (p : Path) : p.parts = p.startPart ++ p.names.map partOfName := by
  unfold parts
  dsimp only
  rw [filter_segments, map_partOf_solid]
  rfl

theorem isAbsolute_iff_startPart (p : Path) : p.isAbsolute = true ↔ p.startPart = [.root] := by
  unfold isAbsolute startPart
  generalize p.text.toList = cs
  fun_cases lead cs with
  | case1 rest => exact ⟨fun _ => rfl, fun _ => rfl⟩
  | case2 => exact ⟨(fun h => nomatch h), (fun h => nomatch h)⟩
  | case3 rest => exact ⟨(fun h => nomatch h), (fun h => nomatch h)⟩
  | case4 cs hroot _ _ =>
      constructor
      · intro h
        cases cs with
        | nil => cases h
        | cons c cs =>
            rw [List.head?_cons, beq_iff_eq] at h
            exact absurd (congrArg (· :: cs) (Option.some.inj h)) (hroot cs)
      · intro h
        cases h

theorem partOfName_injective {a b : String} (h : partOfName a = partOfName b) : a = b := by
  unfold partOfName at h
  by_cases ha : a = ".."
  · by_cases hb : b = ".."
    · rw [ha, hb]
    · rw [if_pos ha, if_neg hb] at h
      cases h
  · by_cases hb : b = ".."
    · rw [if_neg ha, if_pos hb] at h
      cases h
    · rw [if_neg ha, if_neg hb] at h
      exact PathPart.name.inj h

/-- Paths with the same parts are followed alike. -/
theorem leadsAlike_of_parts {p q : Path} (h : p.parts = q.parts) : p.LeadsAlike q := by
  -- a name never stands for the start of a path
  have hnot : ∀ (names : List String) (start : PathPart), start = .root ∨ start = .here →
      start ∉ names.map partOfName := by
    intro names start hstart hmem
    obtain ⟨name, -, hname⟩ := List.mem_map.mp hmem
    unfold partOfName at hname
    rcases hstart with rfl | rfl
    · split at hname <;> cases hname
    · split at hname <;> cases hname
  have hstarts : ∀ r : Path, r.startPart = [] ∨
      ∃ start, (start = PathPart.root ∨ start = .here) ∧ r.startPart = [start] := by
    intro r
    unfold startPart
    split
    · exact Or.inr ⟨_, Or.inl rfl, rfl⟩
    · exact Or.inr ⟨_, Or.inr rfl, rfl⟩
    · exact Or.inl rfl
  rw [parts_eq, parts_eq] at h
  have hboth : p.startPart = q.startPart ∧ p.names.map partOfName = q.names.map partOfName := by
    rcases hstarts p with hp | ⟨a, ha, hp⟩
    · rcases hstarts q with hq | ⟨b, hb, hq⟩
      · rw [hp, hq] at h
        exact ⟨hp.trans hq.symm, h⟩
      · -- a start among the names of the other path
        rw [hp, hq, List.nil_append] at h
        exact absurd (h ▸ List.mem_cons_self ..) (hnot p.names b hb)
    · rcases hstarts q with hq | ⟨b, hb, hq⟩
      · rw [hp, hq, List.nil_append] at h
        exact absurd (h ▸ List.mem_cons_self ..) (hnot q.names a ha)
      · rw [hp, hq] at h
        rw [hp, hq, (List.cons.inj h).1]
        exact ⟨rfl, (List.cons.inj h).2⟩
  refine ⟨?_, ?_⟩
  · rw [Bool.eq_iff_iff, isAbsolute_iff_startPart, isAbsolute_iff_startPart, hboth.1]
  · exact (List.map_inj_right fun _ _ => partOfName_injective).mp hboth.2

theorem leadsAlike_of_compare {p q : Path} (h : p.compare q = .eq) : p.LeadsAlike q :=
  leadsAlike_of_parts (eq_of_compareParts h)

end Path

/-! ## Listing -/

namespace Scan

variable {options : ScanOptions} {folders : List PackageFolder}

/-- Whether a source belongs to a folder: it is one, and the folder of its path is that folder. -/
def Belongs (options : ScanOptions) (folder p : Path) : Prop :=
  isSource options p = true ∧ ∃ dir, p.parent? = some dir ∧ dir.LeadsAlike folder

/-- All sources that are listed belong to their folders. -/
def Lists (options : ScanOptions) (folders : List PackageFolder) : Prop :=
  ∀ folder ∈ folders, ∀ p ∈ folder.sources, Belongs options folder.path p

theorem lists_addTo (h : Lists options folders) {dir : Path} {sources : List Path}
    (hsources : ∀ p ∈ sources, Belongs options dir p) :
    Lists options (addTo dir sources folders) := by
  induction folders with
  | nil =>
      intro folder hfolder
      rw [List.mem_singleton.mp hfolder]
      exact hsources
  | cons first rest ih =>
      have hfirst : ∀ p ∈ first.sources, Belongs options first.path p :=
        h first (List.mem_cons_self ..)
      have hrest : Lists options rest := fun folder hfolder =>
        h folder (List.mem_cons_of_mem _ hfolder)
      unfold addTo
      split
      · intro folder hfolder
        rcases List.mem_cons.mp hfolder with rfl | hfolder
        · exact hsources
        · exact h folder hfolder
      · rename_i heq
        intro folder hfolder
        rcases List.mem_cons.mp hfolder with rfl | hfolder
        · intro p hp
          rcases List.mem_append.mp hp with hp | hp
          · exact hfirst p hp
          · -- the folder has another spelling of the same parts
            obtain ⟨hsource, parent, hparent, halike⟩ := hsources p hp
            have hdir := Path.leadsAlike_of_compare heq
            exact ⟨hsource, parent, hparent, halike.1.trans hdir.1, halike.2.trans hdir.2⟩
        · exact hrest folder hfolder
      · intro folder hfolder
        rcases List.mem_cons.mp hfolder with rfl | hfolder
        · exact hfirst
        · exact ih hrest folder hfolder

theorem lists_addFile (h : Lists options folders) (path : Path) :
    Lists options (addFile options folders path) := by
  unfold addFile
  split
  · exact h
  · rename_i dir hdir
    split
    · rename_i hsource
      refine lists_addTo h ?_
      intro p hp
      rw [List.mem_singleton.mp hp]
      exact ⟨hsource, dir, hdir, rfl, rfl⟩
    · split
      · exact lists_addTo h fun p hp => nomatch hp
      · exact h

theorem mem_of_mem_dedupBehind {kept p : Path} {paths : List Path}
    (h : p ∈ dedupBehind kept paths) : p ∈ paths := by
  induction paths generalizing kept with
  | nil => cases h
  | cons q rest ih =>
      rw [dedupBehind] at h
      split at h
      · exact List.mem_cons_of_mem _ (ih h)
      · rcases List.mem_cons.mp h with rfl | hp
        · exact List.mem_cons_self ..
        · exact List.mem_cons_of_mem _ (ih hp)

theorem mem_of_mem_dedup {paths : List Path} {p : Path} (h : p ∈ dedup paths) : p ∈ paths := by
  cases paths with
  | nil => cases h
  | cons q rest =>
      rcases List.mem_cons.mp h with rfl | hp
      · exact List.mem_cons_self ..
      · exact List.mem_cons_of_mem _ (mem_of_mem_dedupBehind hp)

theorem mem_of_mem_ordered {sources : List Path} {p : Path} (h : p ∈ ordered sources) :
    p ∈ sources :=
  List.mem_mergeSort.mp (mem_of_mem_dedup h)

/-- All sources of a scan belong to their folders. -/
theorem lists_folders (t : FileTree) (base : Path) (options : ScanOptions) :
    Lists options (Scan.folders t base options).folders := by
  have hfold : ∀ (files : List Path) (found : List PackageFolder), Lists options found →
      Lists options (files.foldl (addFile options) found) := by
    intro files
    induction files with
    | nil => exact fun _ h => h
    | cons path files ih => exact fun found h => ih _ (lists_addFile h path)
  intro folder hfolder p hp
  obtain ⟨found, hfound, rfl⟩ := List.mem_map.mp hfolder
  exact hfold _ [] (fun _ h => nomatch h) found hfound p (mem_of_mem_ordered hp)

end Scan

end ServiceWiring
