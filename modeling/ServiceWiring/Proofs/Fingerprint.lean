import Mathlib.Data.List.Forall2
import ServiceWiring.Proofs.Manifest

/-!
# Changed files are counted exactly

A fingerprint compares the inputs of a pass with the record of the last one.  It misses no name
and counts none twice, so that a pass may take it for the whole difference between the two.

* `Checksums.get?_eq_some_iff` — a map gives a name the checksum of its entry;
* `Checksums.ofPairs_eq_iff` — when pairs make up a given map;
* `Compared` — what a list of file states says about a record and the inputs;
* `fingerprint_compared` — a fingerprint says this, and it finds no change exactly when the
  inputs are the recorded files.
-/

namespace ServiceWiring

/-! ## Maps and their entries -/

namespace Checksums

variable {sums : Checksums}

theorem get?_eq_some_iff {name sum : String} :
    sums.get? name = some sum ↔ (name, sum) ∈ sums.entries := by
  constructor
  · exact mem_of_get?
  · intro hmem
    have hfound : (sums.entries.find? fun entry => entry.1 = name).isSome = true := by
      rw [List.find?_isSome]
      exact ⟨(name, sum), hmem, decide_eq_true rfl⟩
    obtain ⟨entry, hentry⟩ := Option.isSome_iff_exists.mp hfound
    -- a map has one entry for a name, whichever is found first
    have hname : entry.1 = name := by simpa using List.find?_some hentry
    have hsame : entry = (name, sum) :=
      sums.sorted.eq_of_mem (List.mem_of_find?_eq_some hentry) hmem hname
    show (sums.entries.find? _).map (·.2) = some sum
    rw [hentry, hsame]
    rfl

theorem nodup_names (sums : Checksums) : (sums.entries.map (·.1)).Nodup := by
  rw [List.Nodup, List.pairwise_map]
  refine sums.sorted.imp ?_
  intro a b hlt hname
  rw [hname, Std.compare_self] at hlt
  cases hlt

/-- Pairs with different names make up a map exactly when they are its entries, and no entry has
    another name. -/
theorem ofPairs_eq_iff {pairs : List (String × String)} (hpairs : (pairs.map (·.1)).Nodup) :
    ofPairs pairs = sums ↔
      (∀ pair ∈ pairs, pair ∈ sums.entries)
        ∧ ∀ entry ∈ sums.entries, entry.1 ∈ pairs.map (·.1) := by
  have hmem : ∀ pair : String × String, pair ∈ (ofPairs pairs).entries ↔ pair ∈ pairs := by
    rintro ⟨name, sum⟩
    constructor
    · exact mem_of_mem_ofPairs
    · intro hpair
      exact mem_of_get? (get?_ofPairs hpairs hpair)
  constructor
  · rintro rfl
    constructor
    · intro pair hpair
      exact (hmem pair).mpr hpair
    · intro entry hentry
      exact List.mem_map_of_mem ((hmem entry).mp hentry)
  · rintro ⟨hsub, hnames⟩
    refine Checksums.ext ((ofPairs pairs).sorted.eq_of_mem_iff sums.sorted ?_)
    intro entry
    rw [hmem]
    constructor
    · exact hsub entry
    · -- an entry with the name of a pair is that pair, since it is an entry too
      intro hentry
      obtain ⟨pair, hpair, hname⟩ := List.mem_map.mp (hnames entry hentry)
      obtain rfl : pair = entry := sums.sorted.eq_of_mem (hsub pair hpair) hentry hname
      exact hpair

end Checksums

/-! ## Fingerprints -/

/-- What file states say about a record and inputs: the state of each input, in the order of the
    inputs, and behind these the names that are no longer among them. -/
structure Compared (recorded : Checksums) (inputs : List (String × String))
    (found : List (String × FileState)) : Prop where
  present : List.Forall₂ (fun input f => f.1 = input.1 ∧ f.2 ≠ .deleted
    ∧ (f.2 = .unchanged ↔ input ∈ recorded.entries)) inputs (found.take inputs.length)
  gone : ∀ f, f ∈ found.drop inputs.length ↔
    f.2 = .deleted ∧ f.1 ∈ recorded.entries.map (·.1) ∧ f.1 ∉ inputs.map (·.1)
  /-- No name is counted twice. -/
  once : (found.map (·.1)).Nodup

variable {recorded : Option Manifest} {inputs : List (String × String)}

/-- The state of an input is never that of a file which is gone. -/
theorem FileState.of_ne_deleted (recorded : Checksums) (name sum : String) :
    FileState.of recorded name sum ≠ .deleted := by
  intro h
  rw [FileState.of] at h
  split at h
  · cases h
  · cases h

/-- The recorded names that are no longer among the inputs. -/
def goneNames (recorded : Checksums) (inputs : List (String × String)) : List String :=
  (recorded.entries.map (·.1)).filter fun name => name ∉ inputs.map (·.1)

theorem mem_goneNames {recorded : Checksums} {name : String} :
    name ∈ goneNames recorded inputs ↔
      name ∈ recorded.entries.map (·.1) ∧ name ∉ inputs.map (·.1) := by
  rw [goneNames, List.mem_filter, decide_eq_true_eq]

theorem fingerprint_eq (recorded : Option Manifest) (inputs : List (String × String)) :
    fingerprint recorded inputs
      = inputs.map (fun input => (input.1, .of (recordedFiles recorded) input.1 input.2))
        ++ (goneNames (recordedFiles recorded) inputs).map fun name => (name, .deleted) := by
  have htest : ∀ entry : String × String,
      inputs.all (fun input => decide (input.1 ≠ entry.1))
        = decide (entry.1 ∉ inputs.map (·.1)) := by
    intro entry
    rw [Bool.eq_iff_iff, List.all_eq_true, decide_eq_true_eq, List.mem_map]
    constructor
    · rintro hall ⟨input, hinput, hname⟩
      exact of_decide_eq_true (hall input hinput) hname
    · intro hnot input hinput
      rw [decide_eq_true_eq]
      intro hname
      exact hnot ⟨input, hinput, hname⟩
  rw [fingerprint, goneNames, List.filter_map, List.map_map]
  refine congrArg _ (congrArg _ (List.filter_congr ?_))
  intro entry _
  exact htest entry

theorem FileState.of_eq_unchanged_iff_mem {recorded : Checksums} {input : String × String} :
    FileState.of recorded input.1 input.2 = .unchanged ↔ input ∈ recorded.entries := by
  rw [FileState.of_eq_unchanged_iff, Checksums.get?_eq_some_iff]

theorem compared_fingerprint (recorded : Option Manifest) (hinputs : (inputs.map (·.1)).Nodup) :
    Compared (recordedFiles recorded) inputs (fingerprint recorded inputs) := by
  have hlength : (inputs.map fun input =>
      (input.1, FileState.of (recordedFiles recorded) input.1 input.2)).length
        = inputs.length := List.length_map _
  constructor
  · rw [fingerprint_eq, List.take_left' hlength, List.forall₂_map_right_iff, List.forall₂_same]
    intro input _
    exact ⟨rfl, FileState.of_ne_deleted _ _ _, FileState.of_eq_unchanged_iff_mem⟩
  · intro f
    rw [fingerprint_eq, List.drop_left' hlength, List.mem_map]
    constructor
    · rintro ⟨name, hname, rfl⟩
      exact ⟨rfl, mem_goneNames.mp hname⟩
    · rintro ⟨hdeleted, hgone⟩
      exact ⟨f.1, mem_goneNames.mpr hgone, Prod.ext rfl hdeleted.symm⟩
  · rw [fingerprint_eq, List.map_append, List.map_map, List.map_map]
    show (inputs.map (·.1) ++ (goneNames (recordedFiles recorded) inputs).map id).Nodup
    rw [List.map_id]
    refine List.nodup_append.mpr ⟨hinputs, (Checksums.nodup_names _).filter _, ?_⟩
    -- a name that is gone is none of an input
    rintro name hname _ hgone rfl
    exact (mem_goneNames.mp hgone).2 hname

theorem fingerprint_unchanged_iff (recorded : Option Manifest)
    (hinputs : (inputs.map (·.1)).Nodup) :
    (∀ f ∈ fingerprint recorded inputs, f.2 ≠ .updated ∧ f.2 ≠ .deleted) ↔
      Checksums.ofPairs inputs = recordedFiles recorded := by
  rw [Checksums.ofPairs_eq_iff hinputs, fingerprint_eq]
  constructor
  · intro h
    constructor
    · intro input hinput
      obtain ⟨hupdated, hdeleted⟩ := h _ (List.mem_append_left _ (List.mem_map_of_mem hinput))
      rw [← FileState.of_eq_unchanged_iff_mem]
      cases hcase : FileState.of (recordedFiles recorded) input.1 input.2 with
      | unchanged => rfl
      | updated => exact absurd hcase hupdated
      | deleted => exact absurd hcase hdeleted
    · intro entry hentry
      by_contra hnot
      have hgone : entry.1 ∈ goneNames (recordedFiles recorded) inputs :=
        mem_goneNames.mpr ⟨List.mem_map_of_mem hentry, hnot⟩
      exact (h _ (List.mem_append_right _ (List.mem_map_of_mem hgone))).2 rfl
  · rintro ⟨hsame, hnames⟩ f hf
    rcases List.mem_append.mp hf with hf | hf
    · obtain ⟨input, hinput, rfl⟩ := List.mem_map.mp hf
      rw [FileState.of_eq_unchanged_iff_mem.mpr (hsame input hinput)]
      exact ⟨FileState.noConfusion, FileState.noConfusion⟩
    · obtain ⟨name, hname, rfl⟩ := List.mem_map.mp hf
      obtain ⟨hrecord, hnot⟩ := mem_goneNames.mp hname
      obtain ⟨entry, hentry, rfl⟩ := List.mem_map.mp hrecord
      exact absurd (hnames entry hentry) hnot

/-- A fingerprint gives every input its state, in order, and then every recorded name that is gone.
    It finds no change exactly when the inputs, as a map, are the recorded files. -/
theorem fingerprint_compared (recorded : Option Manifest) (hinputs : (inputs.map (·.1)).Nodup) :
    Compared (recordedFiles recorded) inputs (fingerprint recorded inputs)
      ∧ ((∀ f ∈ fingerprint recorded inputs, f.2 ≠ .updated ∧ f.2 ≠ .deleted) ↔
        Checksums.ofPairs inputs = recordedFiles recorded) :=
  ⟨compared_fingerprint recorded hinputs, fingerprint_unchanged_iff recorded hinputs⟩

/-- A record of three files. -/
def threeFiles : Manifest where
  version := Manifest.currentVersion
  files := .ofPairs [("a.go", "17"), ("b.go", "23"), ("c.go", "42")]
  output := none
  services := []

/-- One input is as it was recorded, one has changed, and one is gone. -/
theorem fingerprint_compared_threeFiles :
    ([("b.go", "23"), ("a.go", "18")].map (·.1)).Nodup
      ∧ (recordedFiles (some threeFiles)).entries
          = [("a.go", "17"), ("b.go", "23"), ("c.go", "42")]
      ∧ Compared (recordedFiles (some threeFiles)) [("b.go", "23"), ("a.go", "18")]
          (fingerprint (some threeFiles) [("b.go", "23"), ("a.go", "18")])
      ∧ ((∀ f ∈ fingerprint (some threeFiles) [("b.go", "23"), ("a.go", "18")],
            f.2 ≠ .updated ∧ f.2 ≠ .deleted) ↔
          Checksums.ofPairs [("b.go", "23"), ("a.go", "18")]
            = recordedFiles (some threeFiles)) := by
  have hinputs : ([("b.go", "23"), ("a.go", "18")].map (·.1)).Nodup := by decide
  have hentries : (recordedFiles (some threeFiles)).entries
      = [("a.go", "17"), ("b.go", "23"), ("c.go", "42")] := by
    rfl
  exact ⟨hinputs, hentries, fingerprint_compared (some threeFiles) hinputs⟩

end ServiceWiring
