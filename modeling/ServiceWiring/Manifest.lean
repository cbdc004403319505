import ServiceWiring.Json.Parser
import ServiceWiring.Json.Printer

/-!
# Manifests

The manifest of a folder records what its last pass saw and wrote: a checksum for every source,
the checksum of the generated file and the services in it.  A manifest may be deleted at any
time: without one, every source counts as updated.

* `Manifest.text`, `Manifest.parse?` — the JSON text of a manifest;
* `fingerprint` — the sources compared with what is recorded;
* `outputMatches` — whether the generated file is the recorded one.
-/

namespace ServiceWiring

/-- By ascending names, one entry for a name. -/
def Checksums.Sorted (entries : List (String × String)) : Prop :=
  entries.Pairwise fun a b => compare a.1 b.1 = .lt

/-- A map from names to checksums. -/
@[ext]
structure Checksums where
  entries : List (String × String)
  sorted : Checksums.Sorted entries
  deriving DecidableEq, Repr

namespace Checksums

/-- Sets the checksum of a name among entries. -/
def setIn (name sum : String) : List (String × String) → List (String × String)
  | [] => [(name, sum)]
  | (other, previous) :: rest =>
      match compare name other with
      | .lt => (name, sum) :: (other, previous) :: rest
      | .eq => (name, sum) :: rest
      | .gt => (other, previous) :: setIn name sum rest

theorem mem_setIn {name sum : String} {entry : String × String} {entries : List (String × String)}
    (h : entry ∈ setIn name sum entries) : entry = (name, sum) ∨ entry ∈ entries := by
  induction entries with
  | nil => exact Or.inl (List.mem_singleton.mp h)
  | cons first rest ih =>
      unfold setIn at h
      split at h
      · exact List.mem_cons.mp h
      · exact (List.mem_cons.mp h).imp id (List.mem_cons_of_mem _)
      · rcases List.mem_cons.mp h with rfl | h
        · exact Or.inr (List.mem_cons_self ..)
        · exact (ih h).imp id (List.mem_cons_of_mem _)

theorem sorted_setIn {entries : List (String × String)} (h : Sorted entries)
    (name sum : String) : Sorted (setIn name sum entries) := by
  induction entries with
  | nil => exact List.pairwise_singleton _ _
  | cons first rest ih =>
      obtain ⟨hfirst, hrest⟩ := List.pairwise_cons.mp h
      unfold setIn
      split
      · rename_i hlt
        refine List.pairwise_cons.mpr ⟨?_, h⟩
        intro entry hentry
        rcases List.mem_cons.mp hentry with rfl | hentry
        · exact hlt
        · exact Std.TransCmp.lt_trans hlt (hfirst entry hentry)
      · rename_i heq
        rw [Std.compare_eq_iff_eq.mp heq]
        exact List.pairwise_cons.mpr ⟨hfirst, hrest⟩
      · rename_i hgt
        refine List.pairwise_cons.mpr ⟨?_, ih hrest⟩
        intro entry hentry
        rcases mem_setIn hentry with rfl | hentry
        · exact Std.OrientedCmp.lt_of_gt hgt
        · exact hfirst entry hentry

/-- Sets the checksum of a name. -/
def set (name sum : String) (sums : Checksums) : Checksums where
  entries := setIn name sum sums.entries
  sorted := sorted_setIn sums.sorted name sum

/-- The map without entries. -/
def empty : Checksums where
  entries := []
  sorted := List.Pairwise.nil

/-- The map of some pairs; the last one of a name counts. -/
def ofPairs (pairs : List (String × String)) : Checksums :=
  pairs.foldl (fun sums pair => set pair.1 pair.2 sums) empty

/-- The checksum of a name. -/
def get? (sums : Checksums) (name : String) : Option String :=
  (sums.entries.find? fun entry => entry.1 = name).map (·.2)

end Checksums

/-- The record of a pass. -/
structure Manifest where
  version : Nat
  /-- The checksums of the sources, by file name. -/
  files : Checksums
  /-- The checksum of the generated file, if there is one. -/
  output : Option String
  /-- The services in the generated file. -/
  services : List String
  deriving DecidableEq, Repr

namespace Manifest

/-- The version that is written and read. -/
def currentVersion : Nat := 1

/-! ## Text -/

/-- A manifest as JSON. -/
def toJson (m : Manifest) : JsonValue :=
  let text (s : String) : JsonValue := .string (some s)
  .object [
    (some "version", .number (Nat.toDigits 10 m.version)),
    (some "files", .object (m.files.entries.map fun (name, sum) => (some name, text sum))),
    (some "output", m.output.elim .null text),
    (some "services", .array (m.services.map text))]

/-- The text of a manifest. -/
def text (m : Manifest) : String :=
  m.toJson.pretty ++ "\n"

/-- The pairs of an object that holds strings only. -/
def pairs? : JsonValue → Option (List (String × String))
  | .object fields => fields.mapM fun (key, value) => do return (← key, ← value.string?)
  | _ => none

/-- A checksum that may be null. -/
def sum? : JsonValue → Option (Option String)
  | .null => some none
  | .string text => text.map some
  | _ => none

/-- The fields read so far. -/
structure Draft where
  version : Option Nat := none
  files : Option Checksums := none
  output : Option (Option String) := none
  services : Option (List String) := none

namespace Draft

/-- Reads one field.  A known field may come once; unknown ones do not count. -/
def set? (d : Draft) (key : String) (v : JsonValue) : Option Draft :=
  if key = "version" then
    if d.version.isSome then none else v.unsigned?.map fun n => { d with version := some n }
  else if key = "files" then
    if d.files.isSome then none
    else (pairs? v).map fun pairs => { d with files := some (.ofPairs pairs) }
  else if key = "output" then
    if d.output.isSome then none else (sum? v).map fun sum => { d with output := some sum }
  else if key = "services" then
    if d.services.isSome then none else v.strings?.map fun names => { d with services := some names }
  else some d

/-- Reads fields. -/
def setAll? (d : Draft) : List (Option String × JsonValue) → Option Draft
  | [] => some d
  | (none, _) :: _ => none
  | (some key, v) :: rest => (d.set? key v).bind (·.setAll? rest)

/-- The manifest of all fields; the output alone may be missing. -/
def finish? (d : Draft) : Option Manifest := do
  return {
    version := ← d.version
    files := ← d.files
    output := d.output.getD none
    services := ← d.services }

end Draft

/-- Reads a manifest: an object, or an array of the four fields in their order. -/
def ofJson? : JsonValue → Option Manifest
  | .object fields => (Draft.setAll? {} fields).bind Draft.finish?
  | .array [version, files, output, services] =>
      (Draft.setAll? {} [(some "version", version), (some "files", files), (some "output", output),
        (some "services", services)]).bind Draft.finish?
  | _ => none

/-- Reads a manifest of the current version. -/
def parse? (text : String) : Option Manifest :=
  ((JsonValue.parse? text).bind ofJson?).filter fun m => m.version = currentVersion

end Manifest

/-! ## Comparing with the record -/

/-- What happened to a source since the record was made. -/
inductive FileState where
  | updated
  | unchanged
  | deleted
  deriving DecidableEq, Repr

/-- The state of a source of the given name and checksum. -/
def FileState.of (recorded : Checksums) (name sum : String) : FileState :=
  if recorded.get? name = some sum then .unchanged else .updated

/-- The recorded checksums; none without a manifest. -/
def recordedFiles (recorded : Option Manifest) : Checksums :=
  recorded.elim .empty (·.files)

/-- The recorded services; none without a manifest. -/
def recordedServices (recorded : Option Manifest) : List String :=
  recorded.elim [] (·.services)

/-- The states of sources, given by name and checksum, and of the recorded names that are no
    longer among them. -/
def fingerprint (recorded : Option Manifest) (inputs : List (String × String)) :
    List (String × FileState) :=
  inputs.map (fun (name, sum) => (name, .of (recordedFiles recorded) name sum))
    ++ ((recordedFiles recorded).entries.filter fun entry => inputs.all (·.1 ≠ entry.1)).map
      fun entry => (entry.1, .deleted)

/-- Whether the current generated file is the recorded one. -/
def outputMatches (recorded : Option Manifest) (current : Option String) : Bool :=
  recorded.any fun m => m.output = current

end ServiceWiring
