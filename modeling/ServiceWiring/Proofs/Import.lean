import ServiceWiring.Import.Resolved

/-!
# Imports always resolve

Resolving gives every path one entry and every entry a name of its own, so the check at the end
never finds an ambiguity.

* `ResolvedImports.freshName_eq_numbered` — a fresh name has the least free number; one is free,
  by counting;
* `ResolvedImports.nodup_names_renameFrom`, `ResolvedImports.nodup_paths_merge` — no name and no
  path stands twice;
* `ResolvedImports.ofEntries_eq_ok` — what entries resolve to.
-/

namespace ServiceWiring

namespace ResolvedImports

/-! ## Fresh names -/

theorem toList_numbered (base : String) (n : Nat) :
    (numbered base n).toList = base.toList ++ '_' :: Nat.toDigits 10 n := by
  simp [numbered, String.toList_append, toString]

theorem numbered_injective {base : String} {m n : Nat} (h : numbered base m = numbered base n) :
    m = n := by
  have hdigits : Nat.toDigits 10 m = Nat.toDigits 10 n := by
    have happend := congrArg String.toList h
    rw [toList_numbered, toList_numbered] at happend
    exact (List.cons.inj (List.append_cancel_left happend)).2
  rw [← @Nat.ofDigitChars_ten_toDigits m, hdigits, Nat.ofDigitChars_ten_toDigits]

theorem nodup_numbered (base : String) (count : Nat) :
    ((List.range count).map fun i => numbered base (i + 1)).Nodup := by
  refine List.pairwise_map.mpr (List.nodup_range.imp ?_)
  intro i j hne heq
  exact hne (Nat.succ.inj (numbered_injective heq))

/-- All candidates taken would be more names than there are. -/
theorem exists_numbered_not_mem (taken : List String) (base : String) :
    ∃ i < taken.length + 1, numbered base (i + 1) ∉ taken := by
  refine Classical.byContradiction fun hnone => ?_
  have hall : ∀ i < taken.length + 1, numbered base (i + 1) ∈ taken := by simpa using hnone
  have hsub : ((List.range (taken.length + 1)).map fun i => numbered base (i + 1)) ⊆ taken := by
    intro name hname
    obtain ⟨i, hi, rfl⟩ := List.mem_map.mp hname
    exact hall i (List.mem_range.mp hi)
  have hlength := (nodup_numbered base (taken.length + 1)).length_le_of_subset hsub
  rw [List.length_map, List.length_range] at hlength
  omega

/-- A fresh name has the least number that is free. -/
theorem freshName_eq_numbered (taken : List String) (base : String) :
    ∃ n, 1 ≤ n ∧ freshName taken base = numbered base n ∧ numbered base n ∉ taken
      ∧ ∀ m, 1 ≤ m → m < n → numbered base m ∈ taken := by
  unfold freshName
  dsimp only
  rw [List.find?_map]
  cases hfind : (List.range (taken.length + 1)).find?
      ((fun name => !taken.contains name) ∘ fun i => numbered base (i + 1)) with
  | some i =>
      obtain ⟨hfree, -, hbefore⟩ := List.find?_range_eq_some.mp hfind
      refine ⟨i + 1, Nat.le_add_left 1 i, rfl, by simpa using hfree, ?_⟩
      intro m hm hlt
      have htaken := hbefore (m - 1) (by omega)
      rw [Function.comp_apply, Nat.sub_add_cancel hm] at htaken
      simpa using htaken
  | none =>
      obtain ⟨i, hi, hnot⟩ := exists_numbered_not_mem taken base
      have htaken := List.find?_eq_none.mp hfind i (List.mem_range.mpr hi)
      exact absurd (by simpa using htaken) hnot

theorem freshName_not_mem (taken : List String) (base : String) :
    freshName taken base ∉ taken := by
  obtain ⟨n, -, hname, hnot, -⟩ := freshName_eq_numbered taken base
  rw [hname]
  exact hnot

theorem finalName_not_mem (taken : List String) (name : String) :
    finalName taken name ∉ taken := by
  unfold finalName
  split
  · exact freshName_not_mem taken name
  · rename_i h
    intro hmem
    exact h (by simp [hmem])

theorem not_mem_names_renameFrom {taken : List String} {entries : List ImportEntry}
    {name : String} (h : name ∈ taken) : name ∉ (renameFrom taken entries).map (·.name) := by
  induction entries generalizing taken with
  | nil => exact List.not_mem_nil
  | cons entry entries ih =>
      intro hmem
      rcases List.mem_cons.mp hmem with rfl | hmem
      · exact finalName_not_mem taken entry.name h
      · exact ih (List.mem_append_left _ h) hmem

theorem nodup_names_renameFrom (taken : List String) (entries : List ImportEntry) :
    ((renameFrom taken entries).map (·.name)).Nodup := by
  induction entries generalizing taken with
  | nil => exact List.nodup_nil
  | cons entry entries ih =>
      refine List.nodup_cons.mpr ⟨?_, ih _⟩
      exact not_mem_names_renameFrom (List.mem_append_right _ (List.mem_singleton_self _))

theorem paths_renameFrom (taken : List String) (entries : List ImportEntry) :
    (renameFrom taken entries).map (·.path) = entries.map (·.path) := by
  induction entries generalizing taken with
  | nil => rfl
  | cons entry entries ih => exact congrArg (entry.path :: ·) (ih _)

/-! ## Merging -/

theorem paths_mergeInto (merged : List ImportEntry) (entry : ImportEntry) :
    (mergeInto merged entry).map (·.path)
      = if entry.path ∈ merged.map (·.path) then merged.map (·.path)
        else merged.map (·.path) ++ [entry.path] := by
  have hany : (merged.any fun m => m.path == entry.path) = true
      ↔ entry.path ∈ merged.map (·.path) := by
    rw [List.any_eq_true, List.mem_map]
    refine exists_congr fun m => ?_
    rw [beq_iff_eq]
  unfold mergeInto
  by_cases hin : entry.path ∈ merged.map (·.path)
  · rw [if_pos (hany.mpr hin), if_pos hin, List.map_map]
    refine List.map_congr_left fun m _ => ?_
    show (if _ then entry else m).path = m.path
    split
    · rename_i hm
      rw [Bool.and_eq_true, beq_iff_eq] at hm
      exact hm.1.symm
    · rfl
  · rw [if_neg (fun h => hin (hany.mp h)), if_neg hin, List.map_append]
    rfl

theorem nodup_paths_mergeInto {merged : List ImportEntry} (h : (merged.map (·.path)).Nodup)
    (entry : ImportEntry) : ((mergeInto merged entry).map (·.path)).Nodup := by
  rw [paths_mergeInto]
  split
  · exact h
  · rename_i hin
    refine List.nodup_append.mpr ⟨h, List.pairwise_singleton _ _, ?_⟩
    rintro path hpath _ hlast rfl
    rw [List.mem_singleton.mp hlast] at hpath
    exact hin hpath

theorem nodup_paths_merge (entries : List ImportEntry) :
    ((merge entries).map (·.path)).Nodup := by
  have hfold : ∀ merged : List ImportEntry, (merged.map (·.path)).Nodup →
      ((entries.foldl mergeInto merged).map (·.path)).Nodup := by
    induction entries with
    | nil => exact fun _ h => h
    | cons entry entries ih => exact fun merged h => ih _ (nodup_paths_mergeInto h entry)
  exact hfold [] List.nodup_nil

/-! ## The check -/

theorem ambiguity?_eq_none {seen entries : List ImportEntry}
    (hnames : ((seen ++ entries).map (·.name)).Nodup)
    (hpaths : ((seen ++ entries).map (·.path)).Nodup) : ambiguity? seen entries = none := by
  induction entries generalizing seen with
  | nil => rfl
  | cons entry entries ih =>
      have happart : ∀ (key : ImportEntry → String), ((seen ++ entry :: entries).map key).Nodup →
          ∀ s ∈ seen, key s ≠ key entry := by
        intro key hnodup s hs
        rw [List.map_append] at hnodup
        exact (List.nodup_append.mp hnodup).2.2 (key s) (List.mem_map_of_mem hs) (key entry)
          (List.mem_cons_self ..)
      have hfind : seen.find? (fun s => s.name == entry.name) = none := by
        rw [List.find?_eq_none]
        intro s hs
        rw [beq_iff_eq]
        exact happart _ hnames s hs
      have hany : (seen.any fun s => s.path == entry.path) = false := by
        rw [List.any_eq_false]
        intro s hs
        rw [beq_iff_eq]
        exact happart _ hpaths s hs
      rw [ambiguity?, hfind, hany]
      refine ih ?_ ?_
      · rw [List.append_assoc]
        exact hnames
      · rw [List.append_assoc]
        exact hpaths

/-- Entries always resolve. -/
theorem ofEntries_eq_ok (entries : List ImportEntry) :
    ofEntries entries = .ok ⟨renameFrom [] (merge entries)⟩ := by
  have hcheck : ambiguity? [] (renameFrom [] (merge entries)) = none := by
    refine ambiguity?_eq_none (nodup_names_renameFrom [] _) ?_
    rw [List.nil_append, paths_renameFrom]
    exact nodup_paths_merge entries
  unfold ofEntries
  dsimp only
  rw [hcheck]

end ResolvedImports

end ServiceWiring
