import Mathlib.Data.List.Nodup
import ServiceWiring.Proofs.Import
import ServiceWiring.Proofs.Text

/-!
# What imports resolve to

The rules that the names and the order of resolved imports follow.

* `ResolvedImports.Merged` — a merged list: one entry for each path, under the first of the path's
  longest names;
* `ResolvedImports.Settles` — the name a base gets behind names that are taken;
* `ResolvedImports.Resolves` — what a resolved list is to the entries it comes from;
* `ResolvedImports.ofEntries_resolves` — entries always resolve, and resolving once more changes
  nothing.
-/

namespace ServiceWiring

namespace ResolvedImports

/-! ## The rules -/

/-- The names that entries give a path, in order. -/
def namesFor (entries : List ImportEntry) (path : String) : List String :=
  (entries.filter fun e => e.path == path).map (·.name)

/-- The first of the longest names. -/
def IsFirstLongest (names : List String) (base : String) : Prop :=
  ∃ before after, names = before ++ base :: after
    ∧ (∀ name ∈ before, name.utf8ByteSize < base.utf8ByteSize)
    ∧ ∀ name ∈ after, name.utf8ByteSize ≤ base.utf8ByteSize

/-- The name a base gets behind the taken names: itself, if it may stand, and the least free
    number behind it otherwise. -/
def Settles (taken : List String) (base name : String) : Prop :=
  if isGeneratedLocal base = false ∧ base ∉ taken then name = base
  else ∃ n, 1 ≤ n ∧ name = numbered base n ∧ numbered base n ∉ taken
    ∧ ∀ m, 1 ≤ m → m < n → numbered base m ∈ taken

/-- A resolved list, with respect to the entries it comes from. -/
structure Resolves (entries : List ImportEntry) (imports : ResolvedImports) : Prop where
  /-- The paths are those of the entries, in order of first appearance. -/
  paths : imports.entries.map (·.path) = (entries.map (·.path)).eraseDups
  /-- No name stands twice. -/
  distinct : (imports.entries.map (·.name)).Nodup
  /-- No name is one that generated functions use for themselves. -/
  visible : ∀ e ∈ imports.entries, isGeneratedLocal e.name = false
  /-- Every name is the settled form of the first of its path's longest names. -/
  names : ∀ before e after, imports.entries = before ++ e :: after →
    ∃ base, IsFirstLongest (namesFor entries e.path) base
      ∧ Settles (before.map (·.name)) base e.name

/-! ## The first of the longest names -/

theorem IsFirstLongest.singleton (name : String) : IsFirstLongest [name] name :=
  ⟨[], [], rfl, by simp, by simp⟩

/-- A longer name takes over. -/
theorem IsFirstLongest.longer {names : List String} {base name : String}
    (h : IsFirstLongest names base) (hlonger : base.utf8ByteSize < name.utf8ByteSize) :
    IsFirstLongest (names ++ [name]) name := by
  obtain ⟨before, after, rfl, hbefore, hafter⟩ := h
  refine ⟨before ++ base :: after, [], rfl, ?_, by simp⟩
  intro other hother
  rcases List.mem_append.mp hother with hother | hother
  · exact Nat.lt_trans (hbefore other hother) hlonger
  · rcases List.mem_cons.mp hother with rfl | hother
    · exact hlonger
    · exact Nat.lt_of_le_of_lt (hafter other hother) hlonger

/-- A name that is not longer changes nothing. -/
theorem IsFirstLongest.kept {names : List String} {base name : String}
    (h : IsFirstLongest names base) (hnot : ¬ base.utf8ByteSize < name.utf8ByteSize) :
    IsFirstLongest (names ++ [name]) base := by
  obtain ⟨before, after, rfl, hbefore, hafter⟩ := h
  refine ⟨before, after ++ [name], by simp, hbefore, ?_⟩
  intro other hother
  rcases List.mem_append.mp hother with hother | hother
  · exact hafter other hother
  · rw [List.mem_singleton.mp hother]
    exact Nat.le_of_not_lt hnot

/-! ## Merging -/

theorem namesFor_concat_same {entries : List ImportEntry} {entry : ImportEntry} {path : String}
    (h : entry.path = path) :
    namesFor (entries ++ [entry]) path = namesFor entries path ++ [entry.name] := by
  simp [namesFor, h]

theorem namesFor_concat_other {entries : List ImportEntry} {entry : ImportEntry} {path : String}
    (h : entry.path ≠ path) : namesFor (entries ++ [entry]) path = namesFor entries path := by
  simp [namesFor, h]

theorem namesFor_eq_nil {entries : List ImportEntry} {path : String}
    (h : path ∉ entries.map (·.path)) : namesFor entries path = [] := by
  refine List.map_eq_nil_iff.mpr (List.filter_eq_nil_iff.mpr fun e he => ?_)
  rw [beq_iff_eq]
  rintro rfl
  exact h (List.mem_map_of_mem he)

/-- A merged list, with respect to the entries it comes from. -/
structure Merged (entries merged : List ImportEntry) : Prop where
  paths : merged.map (·.path) = (entries.map (·.path)).eraseDups
  names : ∀ m ∈ merged, IsFirstLongest (namesFor entries m.path) m.name

theorem Merged.mem_paths_iff {entries merged : List ImportEntry} (h : Merged entries merged)
    {path : String} : path ∈ merged.map (·.path) ↔ path ∈ entries.map (·.path) := by
  rw [h.paths, List.mem_eraseDups]

theorem eraseDups_concat (paths : List String) (path : String) :
    (paths ++ [path]).eraseDups
      = if path ∈ paths then paths.eraseDups else paths.eraseDups ++ [path] := by
  rw [List.eraseDups_append]
  split
  · rename_i hin
    simp [List.removeAll, hin]
  · rename_i hnot
    simp [List.removeAll, hnot, List.eraseDups_cons]

/-- What stands in a merged list behind one more entry. -/
theorem mem_mergeInto_cases {merged : List ImportEntry} {entry m : ImportEntry}
    (h : m ∈ mergeInto merged entry) :
    (m ∈ merged ∧ m.path ≠ entry.path)
      ∨ (m = entry ∧ entry.path ∉ merged.map (·.path))
      ∨ ∃ old ∈ merged, old.path = entry.path ∧ m
          = if old.name.utf8ByteSize < entry.name.utf8ByteSize then entry else old := by
  unfold mergeInto at h
  split at h
  · obtain ⟨old, hold, rfl⟩ := List.mem_map.mp h
    by_cases hpath : old.path = entry.path
    · refine .inr (.inr ⟨old, hold, hpath, ?_⟩)
      simp [hpath]
    · refine .inl ?_
      simp [hpath, hold]
  · rename_i hany
    have hnew : ∀ old ∈ merged, old.path ≠ entry.path := by simpa using hany
    rcases List.mem_append.mp h with h | h
    · exact .inl ⟨h, hnew m h⟩
    · refine .inr (.inl ⟨List.mem_singleton.mp h, ?_⟩)
      simpa using hnew

theorem Merged.mergeInto {entries merged : List ImportEntry} (h : Merged entries merged)
    (entry : ImportEntry) : Merged (entries ++ [entry]) (mergeInto merged entry) where
  paths := by
    rw [paths_mergeInto, List.map_append, List.map_singleton, eraseDups_concat, h.paths]
    simp only [List.mem_eraseDups]
  names := by
    intro m hm
    rcases mem_mergeInto_cases hm with ⟨hm, hpath⟩ | ⟨rfl, hnew⟩ | ⟨old, hold, hpath, rfl⟩
    · rw [namesFor_concat_other (Ne.symm hpath)]
      exact h.names m hm
    · rw [h.mem_paths_iff] at hnew
      rw [namesFor_concat_same rfl, namesFor_eq_nil hnew]
      exact .singleton m.name
    · have hlongest := h.names old hold
      split
      · rename_i hlonger
        rw [namesFor_concat_same rfl, ← hpath]
        exact hlongest.longer hlonger
      · rename_i hnot
        rw [namesFor_concat_same hpath.symm]
        exact hlongest.kept hnot

theorem Merged.foldl {entries merged : List ImportEntry} (h : Merged entries merged)
    (rest : List ImportEntry) :
    Merged (entries ++ rest) (rest.foldl ResolvedImports.mergeInto merged) := by
  induction rest generalizing entries merged with
  | nil =>
      rw [List.append_nil]
      exact h
  | cons entry rest ih =>
      have hrest := ih (h.mergeInto entry)
      rw [List.append_assoc] at hrest
      exact hrest

theorem merged_merge (entries : List ImportEntry) : Merged entries (merge entries) := by
  have hempty : Merged [] [] := ⟨rfl, by simp⟩
  exact hempty.foldl entries

/-- Entries with different paths are merged as they are. -/
theorem merge_of_nodup {entries : List ImportEntry} (h : (entries.map (·.path)).Nodup) :
    merge entries = entries := by
  have hfold : ∀ merged rest : List ImportEntry, ((merged ++ rest).map (·.path)).Nodup →
      rest.foldl ResolvedImports.mergeInto merged = merged ++ rest := by
    intro merged rest
    induction rest generalizing merged with
    | nil => exact fun _ => (List.append_nil merged).symm
    | cons entry rest ih =>
        intro hnodup
        have hnew : (merged.any fun m => m.path == entry.path) = false := by
          rw [List.map_append] at hnodup
          rw [List.any_eq_false]
          intro m hm
          rw [beq_iff_eq]
          exact (List.nodup_append.mp hnodup).2.2 _ (List.mem_map_of_mem hm) _
            (List.mem_cons_self ..)
        rw [List.foldl_cons, ResolvedImports.mergeInto, hnew, if_neg Bool.false_ne_true, ih]
        · rw [List.append_assoc, List.singleton_append]
        · rw [List.append_assoc, List.singleton_append]
          exact hnodup
  exact hfold [] entries h

/-! ## Settled names -/

theorem underscore_mem_numbered (base : String) (n : Nat) : '_' ∈ (numbered base n).toList := by
  rw [toList_numbered]
  exact List.mem_append_right _ (List.mem_cons_self ..)

theorem isNumbered_eq_false {stem name : String} (hstem : '_' ∉ stem.toList)
    (h : '_' ∈ name.toList) : isNumbered stem name = false := by
  rw [Bool.eq_false_iff]
  intro hnumbered
  unfold isNumbered at hnumbered
  split at hnumbered
  · rename_i digits hafter
    rw [Text.after?_eq_some_iff.mp hafter] at h
    rcases List.mem_append.mp h with h | h
    · exact hstem h
    · rw [Bool.and_eq_true, List.all_eq_true] at hnumbered
      exact absurd (hnumbered.2 _ h) (by decide)
  · exact Bool.false_ne_true hnumbered

/-- No variable of the generated functions has an underscore in its name. -/
theorem isGeneratedLocal_of_underscore {name : String} (h : '_' ∈ name.toList) :
    isGeneratedLocal name = false := by
  have hlocals : ∀ reserved ∈ generatedLocals, '_' ∉ reserved.toList := by decide
  have hname : name ∉ generatedLocals := fun hmem => hlocals name hmem h
  rw [isGeneratedLocal, isNumbered_eq_false (by decide) h, isNumbered_eq_false (by decide) h]
  simpa using hname

theorem settles_finalName (taken : List String) (base : String) :
    Settles taken base (finalName taken base) := by
  unfold Settles finalName
  by_cases hkept : isGeneratedLocal base = false ∧ base ∉ taken
  · rw [if_pos hkept, if_neg]
    simp [hkept.1, hkept.2]
  · rw [if_neg hkept, if_pos]
    · exact freshName_eq_numbered taken base
    · rw [Bool.or_eq_true, List.contains_iff_mem]
      by_cases htaken : base ∈ taken
      · exact .inl htaken
      · exact .inr (by simpa [htaken] using hkept)

theorem Settles.isGeneratedLocal_eq_false {taken : List String} {base name : String}
    (h : Settles taken base name) : isGeneratedLocal name = false := by
  unfold Settles at h
  split at h
  · rename_i hkept
    rw [h]
    exact hkept.1
  · obtain ⟨n, -, rfl, -⟩ := h
    exact isGeneratedLocal_of_underscore (underscore_mem_numbered base n)

/-- Names that may stand, each once, are given as they are. -/
theorem renameFrom_of_nodup {taken : List String} {entries : List ImportEntry}
    (hnodup : (taken ++ entries.map (·.name)).Nodup)
    (hvisible : ∀ e ∈ entries, isGeneratedLocal e.name = false) :
    renameFrom taken entries = entries := by
  induction entries generalizing taken with
  | nil => rfl
  | cons entry entries ih =>
      have hnew : entry.name ∉ taken := fun hmem =>
        (List.nodup_append.mp hnodup).2.2 _ hmem _ (List.mem_cons_self ..) rfl
      have hname : finalName taken entry.name = entry.name := by
        rw [finalName, if_neg]
        simp [hnew, hvisible entry (List.mem_cons_self ..)]
      rw [renameFrom, hname, ih]
      · rw [List.append_assoc]
        exact hnodup
      · exact fun e he => hvisible e (List.mem_cons_of_mem _ he)

/-- Where an entry stands in a renamed list, and what name it had. -/
theorem renameFrom_eq_append {taken : List String} {entries before after : List ImportEntry}
    {e : ImportEntry} (h : renameFrom taken entries = before ++ e :: after) :
    ∃ m ∈ entries, e.path = m.path ∧ e.name = finalName (taken ++ before.map (·.name)) m.name := by
  induction entries generalizing taken before with
  | nil =>
      rw [renameFrom] at h
      exact absurd h (by simp)
  | cons entry entries ih =>
      cases before with
      | nil =>
          have hhead := (List.cons.inj h).1
          refine ⟨entry, List.mem_cons_self .., ?_, ?_⟩
          · rw [← hhead]
          · rw [← hhead, List.map_nil, List.append_nil]
      | cons first before =>
          obtain ⟨hhead, htail⟩ := List.cons.inj h
          obtain ⟨m, hm, hpath, hname⟩ := ih htail
          refine ⟨m, List.mem_cons_of_mem _ hm, hpath, ?_⟩
          rw [List.append_assoc] at hname
          rw [hname, List.map_cons, ← hhead]
          rfl

/-! ## Resolving -/

theorem resolves_renameFrom (entries : List ImportEntry) :
    Resolves entries ⟨renameFrom [] (merge entries)⟩ := by
  have hmerged := merged_merge entries
  have hnames : ∀ before e after, renameFrom [] (merge entries) = before ++ e :: after →
      ∃ base, IsFirstLongest (namesFor entries e.path) base
        ∧ Settles (before.map (·.name)) base e.name := by
    intro before e after hsplit
    obtain ⟨m, hm, hpath, hname⟩ := renameFrom_eq_append hsplit
    refine ⟨m.name, ?_, ?_⟩
    · rw [hpath]
      exact hmerged.names m hm
    · rw [hname]
      exact settles_finalName _ _
  refine ⟨?_, nodup_names_renameFrom [] _, ?_, hnames⟩
  · rw [paths_renameFrom]
    exact hmerged.paths
  · intro e he
    obtain ⟨before, after, hsplit⟩ := List.append_of_mem he
    obtain ⟨base, -, hsettles⟩ := hnames before e after hsplit
    exact hsettles.isGeneratedLocal_eq_false

theorem Resolves.nodup_paths {entries : List ImportEntry} {imports : ResolvedImports}
    (h : Resolves entries imports) : (imports.entries.map (·.path)).Nodup := by
  rw [h.paths, ← (merged_merge entries).paths]
  exact nodup_paths_merge entries

/-- In a list without repeated keys an element is what is found under its key. -/
theorem find?_of_nodup {α : Type} {key : α → String} {l : List α} (h : (l.map key).Nodup) {a : α}
    (ha : a ∈ l) : l.find? (fun other => key other == key a) = some a := by
  cases hfind : l.find? fun other => key other == key a with
  | none =>
      have hnot := List.find?_eq_none.mp hfind a ha
      exact absurd (beq_self_eq_true (key a)) hnot
  | some other =>
      have hkey : key other = key a := by simpa using List.find?_some hfind
      rw [List.inj_on_of_nodup_map h (List.mem_of_find?_eq_some hfind) ha hkey]

/-- Every path has the name of its entry. -/
theorem Resolves.nameOf?_of_mem {entries : List ImportEntry} {imports : ResolvedImports}
    (h : Resolves entries imports) {e : ImportEntry} (he : e ∈ imports.entries) :
    imports.nameOf? e.path = some e.name := by
  rw [nameOf?, find?_of_nodup h.nodup_paths he]
  rfl

/-- Entries always resolve, by the rules; resolving what they resolve to changes nothing. -/
theorem ofEntries_resolves (entries : List ImportEntry) :
    ∃ imports, ofEntries entries = .ok imports ∧ Resolves entries imports
      ∧ ofEntries imports.entries = .ok imports := by
  have hresolves := resolves_renameFrom entries
  refine ⟨_, ofEntries_eq_ok entries, hresolves, ?_⟩
  rw [ofEntries_eq_ok, merge_of_nodup hresolves.nodup_paths,
    renameFrom_of_nodup hresolves.distinct hresolves.visible]

end ResolvedImports

end ServiceWiring
