import ServiceWiring.Digest.Sha256
import ServiceWiring.FileTree.Replace
import ServiceWiring.Folder.Generation

/-!
# Passes

One pass over a folder.  The pass is over at once if the generated file must not be touched or if
the manifest says that everything is as the last pass left it; otherwise it generates anew,
writes the file if that changes it, and then the manifest.

Sources with an error are not recorded, so the next pass reads them again.

* `PassDecision.ofState` — what a pass reports and writes, from the state of the folder alone;
* `FolderPass.run` — the pass itself.
-/

namespace ServiceWiring

/-- What a pass does to the generated file. -/
inductive OutputChange where
  | keep
  | replace (text : String)
  | remove
  deriving DecidableEq, Repr

/-- What a pass writes. -/
structure PassPlan where
  report : FolderReport
  output : OutputChange
  manifest : Manifest
  deriving DecidableEq, Repr

/-- Where reading a folder leads. -/
inductive PassDecision where
  /-- Nothing is written. -/
  | settled (report : FolderReport)
  | write (plan : PassPlan)
  deriving DecidableEq, Repr

/-- The checksum of a text.  Passes use `Sha256.ofText`. -/
abbrev Checksum := String → String

namespace PassPlan

/-- The names and checksums of sources. -/
def sums (checksum : Checksum) (inputs : List SourceInput) : List (String × String) :=
  inputs.map fun input => (input.name, checksum input.content)

/-- The manifest that counts for a pass. -/
def recorded (options : PassOptions) (state : FolderState) : Option Manifest :=
  if options.force then none else state.manifest

/-- Whether everything is as the manifest says: all sources read and unchanged, the generated file
    the recorded one, and no generated file left from services that are gone. -/
def isUpToDate (checksum : Checksum) (options : PassOptions) (state : FolderState)
    (previous : Option String) : Bool :=
  (fingerprint (recorded options state) (sums checksum state.inputs)).all (·.2 == .unchanged)
    && state.readIssues.isEmpty
    && !(previous.isSome && !state.anyMarker)
    && outputMatches (recorded options state) (previous.map checksum)

/-- The sources without an error. -/
def sound (issues : List Issue) (inputs : List SourceInput) : List SourceInput :=
  inputs.filter fun input => !issues.any fun i => i.isError && i.file == input.path.display

/-- The manifest of a generation. -/
def manifestOf (checksum : Checksum) (state : FolderState) (g : Generation) : Manifest where
  version := Manifest.currentVersion
  files := .ofPairs (sums checksum (sound g.issues state.inputs))
  output := g.text.map checksum
  services := g.services

/-- What a generation does to the generated file. -/
def changeOf (g : Generation) (previous : Option String) : OutputChange :=
  match g.outcome previous, g.text with
  | .deleted, _ => .remove
  | .generated, some text => .replace text
  | _, _ => .keep

/-- The plan of a generation. -/
def ofGeneration (checksum : Checksum) (folder : PackageFolder) (state : FolderState)
    (previous : Option String) (g : Generation) : PassPlan where
  report := {
    folder := folder.path, outcome := g.outcome previous, issues := g.issues
    services := g.services }
  output := changeOf g previous
  manifest := manifestOf checksum state g

end PassPlan

namespace PassDecision

open PassPlan

/-- Decides what a pass reports and writes. -/
def ofState (checksum : Checksum) (options : PassOptions) (folder : PackageFolder)
    (state : FolderState) : PassDecision :=
  let start : FolderReport := { folder := folder.path, issues := state.readIssues }
  match state.previous with
  | .error reason => .settled (start.withInternal (options.outputPath folder) reason)
  | .ok previous =>
      if isUpToDate checksum options state previous then
        .settled { start with services := recordedServices (recorded options state) }
      else
        match Generation.ofState options.runtime state previous with
        | .error (issues, ambiguity) =>
            .settled ({ start with issues }.withInternal folder.path ambiguity.message)
        | .ok g =>
            let plan := ofGeneration checksum folder state previous g
            if options.dryRun then .settled plan.report else .write plan

end PassDecision

namespace FolderPass

/-- Changes the generated file. -/
def changeOutput (t : FileTree) (path : Path) : OutputChange → Except FileFailure Unit × FileTree
  | .keep => (.ok (), t)
  | .replace text => t.replaceFile path text
  | .remove =>
      let (result, t) := t.removeIfPresent path
      (result.map fun _ => (), t)

/-- Writes what a plan says: the generated file, then the manifest.  A failure ends the pass. -/
def write (t : FileTree) (options : PassOptions) (folder : PackageFolder) (plan : PassPlan) :
    FolderReport × FileTree :=
  let outputPath := options.outputPath folder
  match changeOutput t outputPath plan.output with
  | (.error failure, t) => (plan.report.withInternal outputPath failure.message, t)
  | (.ok _, t) =>
      let cachePath := options.cachePath folder
      match t.replaceFile cachePath plan.manifest.text with
      | (.error failure, t) => (plan.report.withInternal cachePath failure.message, t)
      | (.ok _, t) => (plan.report, t)

/-- One pass, for any checksum. -/
def runWith (checksum : Checksum) (options : PassOptions) (folder : PackageFolder)
    (t : FileTree) : FolderReport × FileTree :=
  match PassDecision.ofState checksum options folder (.read t folder options) with
  | .settled report => (report, t)
  | .write plan => write t options folder plan

/-- One pass. -/
def run (options : PassOptions) (folder : PackageFolder) (t : FileTree) :
    FolderReport × FileTree :=
  runWith Sha256.ofText options folder t

/-- The steps that a plan performs when none of them fails. -/
def stepsOf (options : PassOptions) (folder : PackageFolder) (plan : PassPlan) : List FileStep :=
  let replacing (path : Path) (text : String) : List FileStep :=
    path.temporary?.elim [] fun temporary =>
      [.write temporary (.text text), .rename temporary path]
  let outputPath := options.outputPath folder
  (match plan.output with
    | .keep => []
    | .replace text => replacing outputPath text
    | .remove => [.remove outputPath])
    ++ replacing (options.cachePath folder) plan.manifest.text

end FolderPass

namespace PackageFolder

/-- Removes a generated file.  A file that was not generated stays. -/
def removeOutput (t : FileTree) (path : Path) : Except FileFailure (List Path) × FileTree :=
  match t.readText path with
  | .ok text =>
      if isGenerated text then
        let (result, t) := t.removeIfPresent path
        (result.map fun removed => if removed then [path] else [], t)
      else (.ok [], t)
  | .error _ => (.ok [], t)

/-- Removes the generated file and the manifest of a folder and tells which of them were there. -/
def clean (t : FileTree) (folder : Path) (outputFile cacheFile : String) :
    Except FileFailure (List Path) × FileTree :=
  match removeOutput t (folder.child outputFile) with
  | (.error failure, t) => (.error failure, t)
  | (.ok removed, t) =>
      let cachePath := folder.child cacheFile
      let (result, t) := t.removeIfPresent cachePath
      (result.map fun was => if was then removed ++ [cachePath] else removed, t)

end PackageFolder

end ServiceWiring
