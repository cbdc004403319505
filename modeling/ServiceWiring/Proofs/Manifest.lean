import ServiceWiring.Manifest
import ServiceWiring.Proofs.Json

/-!
# Manifests are read back, and compare as they should

A manifest that was written is read back as it was, and comparing sources with it finds every
difference.

* `Checksums.get?_ofPairs` — the map of some pairs holds these pairs;
* `Manifest.parse?_text` — the text of a manifest is read back;
* `all_unchanged_iff` — all sources are unchanged when the record lists them and nothing else.
-/

namespace ServiceWiring

namespace Checksums

variable {sums : Checksums} {entries pairs : List (String × String)} {name other sum : String}

/-! ## Maps -/

@[simp]
theorem get?_set_self (sums : Checksums) (name sum : String) :
    (sums.set name sum).get? name = some sum := by
  show ((setIn name sum sums.entries).find? fun entry => entry.1 = name).map (·.2) = some sum
  induction sums.entries with
  | nil => simp [setIn]
  | cons entry rest ih =>
      unfold setIn
      split
      · simp
      · simp
      · rename_i hgt
        have hne : entry.1 ≠ name := by
          rintro rfl
          rw [Std.compare_self] at hgt
          cases hgt
        simpa [hne] using ih

theorem get?_set_of_ne (sums : Checksums) (h : other ≠ name) (sum : String) :
    (sums.set name sum).get? other = sums.get? other := by
  show ((setIn name sum sums.entries).find? fun entry => entry.1 = other).map (·.2)
    = (sums.entries.find? fun entry => entry.1 = other).map (·.2)
  induction sums.entries with
  | nil => simp [setIn, h.symm]
  | cons entry rest ih =>
      unfold setIn
      split
      · simp [h.symm]
      · rename_i heq
        have hentry : entry.1 ≠ other := by
          rw [← Std.compare_eq_iff_eq.mp heq]
          exact h.symm
        simp [h.symm, hentry]
      · by_cases hentry : entry.1 = other
        · simp [hentry]
        · simpa [hentry] using ih

/-- A name behind all others goes to the end. -/
theorem setIn_eq_append (h : ∀ entry ∈ entries, compare entry.1 name = .lt) (sum : String) :
    setIn name sum entries = entries ++ [(name, sum)] := by
  induction entries with
  | nil => rfl
  | cons first rest ih =>
      have hgt : compare name first.1 = .gt :=
        Std.OrientedCmp.gt_of_lt (h first (List.mem_cons_self ..))
      unfold setIn
      rw [hgt, ih fun entry hentry => h entry (List.mem_cons_of_mem _ hentry)]
      rfl

theorem mem_of_get? (h : sums.get? name = some sum) : (name, sum) ∈ sums.entries := by
  obtain ⟨entry, hfind, rfl⟩ := Option.map_eq_some_iff.mp h
  have hname := List.find?_some hfind
  rw [decide_eq_true_eq] at hname
  rw [← hname]
  exact List.mem_of_find?_eq_some hfind

theorem Sorted.nodup (h : Sorted entries) : entries.Nodup := by
  refine h.imp ?_
  rintro a b hlt rfl
  rw [Std.compare_self] at hlt
  cases hlt

/-- A name has one entry. -/
theorem Sorted.eq_of_mem {a b : String × String} (h : Sorted entries) (ha : a ∈ entries)
    (hb : b ∈ entries) (hname : a.1 = b.1) : a = b := by
  induction entries with
  | nil => cases ha
  | cons first rest ih =>
      obtain ⟨hfirst, hrest⟩ := List.pairwise_cons.mp h
      have hapart : ∀ entry ∈ rest, first.1 ≠ entry.1 := by
        intro entry hentry heq
        have hlt := hfirst entry hentry
        rw [heq, Std.compare_self] at hlt
        cases hlt
      rcases List.mem_cons.mp ha with rfl | ha'
      · rcases List.mem_cons.mp hb with rfl | hb'
        · rfl
        · exact absurd hname (hapart b hb')
      · rcases List.mem_cons.mp hb with rfl | hb'
        · exact absurd hname.symm (hapart a ha')
        · exact ih hrest ha' hb'

/-- Sorted entries are determined by which they are. -/
theorem Sorted.eq_of_mem_iff {others : List (String × String)} (h : Sorted entries)
    (hothers : Sorted others) (hmem : ∀ entry, entry ∈ entries ↔ entry ∈ others) :
    entries = others := by
  refine List.Perm.eq_of_pairwise ?_ h hothers ?_
  · intro a b _ _ hab hba
    exact absurd (Std.TransCmp.lt_trans hab hba) (by rw [Std.compare_self]; decide)
  · exact (List.perm_ext_iff_of_nodup h.nodup hothers.nodup).mpr hmem

/-! ## Maps of pairs -/

/-- Pairs set one after another. -/
def setAll (sums : Checksums) (pairs : List (String × String)) : Checksums :=
  pairs.foldl (fun sums pair => set pair.1 pair.2 sums) sums

theorem entries_setAll (h : Sorted (sums.entries ++ pairs)) :
    (sums.setAll pairs).entries = sums.entries ++ pairs := by
  induction pairs generalizing sums with
  | nil => exact (List.append_nil sums.entries).symm
  | cons pair pairs ih =>
      have hset : (sums.set pair.1 pair.2).entries = sums.entries ++ [pair] := by
        refine setIn_eq_append ?_ pair.2
        intro entry hentry
        exact (List.pairwise_append.mp h).2.2 entry hentry pair (List.mem_cons_self ..)
      have happend : sums.entries ++ pair :: pairs = (sums.entries ++ [pair]) ++ pairs := by simp
      rw [happend, ← hset] at h ⊢
      exact ih h

/-- Sorted pairs make up their map as they are. -/
theorem entries_ofPairs (h : Sorted pairs) : (ofPairs pairs).entries = pairs :=
  @entries_setAll empty pairs h

@[simp]
theorem ofPairs_entries (sums : Checksums) : ofPairs sums.entries = sums :=
  Checksums.ext (entries_ofPairs sums.sorted)

theorem mem_setAll {entry : String × String} (h : entry ∈ (sums.setAll pairs).entries) :
    entry ∈ sums.entries ∨ entry ∈ pairs := by
  induction pairs generalizing sums with
  | nil => exact Or.inl h
  | cons pair pairs ih =>
      rcases ih h with h | h
      · rcases mem_setIn h with rfl | h
        · exact Or.inr (List.mem_cons_self ..)
        · exact Or.inl h
      · exact Or.inr (List.mem_cons_of_mem _ h)

/-- A map holds no more than the pairs it was made from. -/
theorem mem_of_mem_ofPairs {entry : String × String} (h : entry ∈ (ofPairs pairs).entries) :
    entry ∈ pairs := by
  rcases mem_setAll h with h | h
  · cases h
  · exact h

theorem get?_setAll_of_not_mem (h : name ∉ pairs.map (·.1)) :
    (sums.setAll pairs).get? name = sums.get? name := by
  induction pairs generalizing sums with
  | nil => rfl
  | cons pair pairs ih =>
      rw [List.map_cons, List.mem_cons, not_or] at h
      exact (ih h.2).trans (get?_set_of_ne sums h.1 pair.2)

theorem get?_setAll (hnodup : (pairs.map (·.1)).Nodup) (h : (name, sum) ∈ pairs) :
    (sums.setAll pairs).get? name = some sum := by
  induction pairs generalizing sums with
  | nil => cases h
  | cons pair pairs ih =>
      obtain ⟨hpair, hrest⟩ := List.nodup_cons.mp hnodup
      rcases List.mem_cons.mp h with rfl | h
      · exact (get?_setAll_of_not_mem hpair).trans (get?_set_self sums name sum)
      · exact ih hrest h

/-- The map of pairs with different names gives each of them its checksum. -/
theorem get?_ofPairs (hnodup : (pairs.map (·.1)).Nodup) (h : (name, sum) ∈ pairs) :
    (ofPairs pairs).get? name = some sum :=
  get?_setAll hnodup h

end Checksums

/-! ## Text -/

namespace Manifest

theorem areWritable_map (texts : List String) :
    JsonValue.AreWritable (texts.map fun s => .string (some s)) := by
  induction texts with
  | nil => exact trivial
  | cons text texts ih => exact ⟨rfl, ih⟩

theorem areWritableFields_map (pairs : List (String × String)) :
    JsonValue.AreWritableFields (pairs.map fun (name, sum) => (some name, .string (some sum))) := by
  induction pairs with
  | nil => exact trivial
  | cons pair pairs ih => exact ⟨rfl, rfl, ih⟩

theorem isWritable_toJson {m : Manifest} (h : m.version = currentVersion) :
    m.toJson.IsWritable := by
  refine ⟨rfl, ?_, rfl, areWritableFields_map m.files.entries, rfl, ?_, rfl, areWritable_map m.services,
    trivial⟩
  · rw [h]
    exact Or.inr ⟨by decide, by decide, List.forall_mem_singleton.mpr rfl⟩
  · cases m.output with
    | none => exact trivial
    | some sum => exact rfl

theorem pairs?_map (pairs : List (String × String)) :
    pairs? (.object (pairs.map fun (name, sum) => (some name, .string (some sum))))
      = some pairs := by
  induction pairs with
  | nil => rfl
  | cons pair pairs ih =>
      simp only [pairs?] at ih
      simp only [pairs?, List.map_cons, List.mapM_cons, ih]
      rfl

theorem strings?_map (texts : List String) :
    JsonValue.strings? (.array (texts.map fun s => .string (some s))) = some texts := by
  induction texts with
  | nil => rfl
  | cons text texts ih =>
      simp only [JsonValue.strings?] at ih
      simp only [JsonValue.strings?, List.map_cons, List.mapM_cons, ih]
      rfl

theorem ofJson?_toJson {m : Manifest} (h : m.version = currentVersion) :
    ofJson? m.toJson = some m := by
  have hversion : JsonValue.unsigned? (.number (Nat.toDigits 10 m.version)) = some m.version := by
    rw [h]
    rfl
  have houtput : sum? (m.output.elim .null fun s => .string (some s)) = some m.output := by
    cases m.output with
    | none => rfl
    | some sum => rfl
  simp [ofJson?, toJson, Draft.setAll?, Draft.set?, Draft.finish?, hversion, houtput,
    pairs?_map, strings?_map]

/-- The text of a manifest is read back. -/
theorem parse?_text {m : Manifest} (h : m.version = currentVersion) : parse? m.text = some m := by
  rw [parse?, text, JsonValue.parse?_pretty (isWritable_toJson h)]
  simp [ofJson?_toJson h, h]

end Manifest

/-! ## Comparing with the record -/

theorem FileState.of_eq_unchanged_iff {recorded : Checksums} {name sum : String} :
    FileState.of recorded name sum = .unchanged ↔ recorded.get? name = some sum := by
  unfold FileState.of
  split <;> simp [*]

/-- All sources are unchanged when each of them is recorded with its checksum and no other name
    is recorded. -/
theorem all_unchanged_iff {recorded : Option Manifest} {inputs : List (String × String)} :
    (fingerprint recorded inputs).all (·.2 == .unchanged) = true ↔
      (∀ input ∈ inputs, (recordedFiles recorded).get? input.1 = some input.2) ∧
      ∀ entry ∈ (recordedFiles recorded).entries, entry.1 ∈ inputs.map (·.1) := by
  rw [fingerprint, List.all_append, Bool.and_eq_true]
  refine and_congr ?_ ?_
  · rw [List.all_map, List.all_eq_true]
    refine forall_congr' fun input => forall_congr' fun _ => ?_
    show (FileState.of _ input.1 input.2 == .unchanged) = true ↔ _
    rw [beq_iff_eq, FileState.of_eq_unchanged_iff]
  · rw [List.all_map, List.all_eq_true]
    refine forall_congr' fun entry => ?_
    rw [List.mem_filter]
    constructor
    · intro h hentry
      by_cases hin : entry.1 ∈ inputs.map (·.1)
      · exact hin
      · -- it would be listed as gone
        refine absurd (h ⟨hentry, ?_⟩) Bool.false_ne_true
        rw [List.all_eq_true]
        intro input hinput
        rw [decide_eq_true_eq]
        rintro heq
        exact hin (heq ▸ List.mem_map_of_mem hinput)
    · rintro h ⟨hentry, hgone⟩
      obtain ⟨input, hinput, heq⟩ := List.mem_map.mp (h hentry)
      have hne := List.all_eq_true.mp hgone input hinput
      rw [decide_eq_true_eq] at hne
      exact absurd heq hne

/-- Sorted sources that are all unchanged are the recorded ones. -/
theorem eq_recordedFiles_of_unchanged {recorded : Option Manifest}
    {inputs : List (String × String)} (hinputs : Checksums.Sorted inputs)
    (h : (fingerprint recorded inputs).all (·.2 == .unchanged) = true) :
    inputs = (recordedFiles recorded).entries := by
  have hfiles := (recordedFiles recorded).sorted
  obtain ⟨hrecorded, hthere⟩ := all_unchanged_iff.mp h
  have hsub : ∀ input ∈ inputs, input ∈ (recordedFiles recorded).entries := fun input hinput =>
    Checksums.mem_of_get? (hrecorded input hinput)
  refine hinputs.eq_of_mem_iff hfiles fun entry => ⟨hsub entry, fun hentry => ?_⟩
  obtain ⟨input, hinput, hname⟩ := List.mem_map.mp (hthere entry hentry)
  rw [← hfiles.eq_of_mem (hsub input hinput) hentry hname]
  exact hinput

end ServiceWiring
