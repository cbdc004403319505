import ServiceWiring.Command.Project
import ServiceWiring.Command.Terminal

/-!
# Running commands

* `Command.perform` — what a command does to a file tree;
* `CommandResult.exitCode` — zero if all went well, one for errors in the sources, two for
  failures outside of them; warnings do not count;
* `Command.run` — a command with its exit code and output.
-/

namespace ServiceWiring

open Terminal

/-- The result of a command. -/
inductive CommandResult where
  | generated (reports : List FolderReport) (outputFile : String) (dryRun : Bool)
  | checked (reports : List FolderReport) (outputFile : String)
  | cleaned (removed : List Path)
  | initialized
  /-- There is a configuration file already. -/
  | alreadyInitialized
  deriving DecidableEq, Repr

namespace Command

/-- Writes the default configuration to the working directory. -/
def writeDefaults (t : FileTree) : Except CommandFailure CommandResult × FileTree :=
  let path : Path := ⟨configFileName⟩
  if t.exists? path then (.ok .alreadyInitialized, t)
  else
    match t.perform (.write path (.text (Config.defaultText ++ "\n"))) with
    | .ok t => (.ok .initialized, t)
    | .error e => (.error (.file (.write path e)), t)

/-- Performs a command. -/
def perform (t : FileTree) : Command → Except CommandFailure CommandResult × FileTree
  | .generate arguments force dryRun =>
      match Project.ofArguments t arguments with
      | .error failure => (.error failure, t)
      | .ok project =>
          let options := project.passOptions force dryRun
          let (reports, t) := Project.processAll options (project.folders t) t
          (.ok (.generated reports options.outputFile dryRun), t)
  | .check arguments =>
      match Project.ofArguments t arguments with
      | .error failure => (.error failure, t)
      | .ok project =>
          let options := project.passOptions true true
          let (reports, t) := Project.processAll options (project.folders t) t
          (.ok (.checked reports options.outputFile), t)
  | .clean arguments =>
      match Project.ofArguments t arguments with
      | .error failure => (.error failure, t)
      | .ok project =>
          let (result, t) := Project.cleanAll project.config (project.folders t) t
          ((result.map .cleaned).mapError .file, t)
  | .init => writeDefaults t

end Command

namespace CommandResult

/-- All issues, in their order. -/
def issues : CommandResult → List Issue
  | .generated reports _ _ => Issue.sort (reports.flatMap (·.issues))
  | .checked reports _ => Issue.sort (reports.flatMap (·.issues))
  | _ => []

/-- The exit code of a result. -/
def exitCode (r : CommandResult) : Nat :=
  if r.issues.any (·.isInternal) then 2
  else if r.issues.any (·.isError) || r == .alreadyInitialized then 1
  else 0

/-- The number of reports with an outcome. -/
def count (reports : List FolderReport) (outcome : FolderOutcome) : Nat :=
  (reports.filter (·.outcome == outcome)).length

/-- The line on a generated file that changes. -/
def changeLine? (colors : Bool) (outputFile : String) (dryRun : Bool) (report : FolderReport) :
    Option String :=
  let path := (report.folder.child outputFile).display
  let styles : List Style := [.bold, if dryRun then .yellow else .green]
  match report.outcome with
  | .generated =>
      let label := paint colors styles (if dryRun then "Would generate" else "Generated")
      let services := plural report.services.length "service"
      some s!"{label} {path} ({services})"
  | .deleted =>
      let label := paint colors styles (if dryRun then "Would remove" else "Removed")
      some s!"{label} {path}"
  | _ => none

/-- The output of generating. -/
def generateLines (colors : Bool) (reports : List FolderReport) (outputFile : String)
    (dryRun : Bool) (issues : List Issue) : List String :=
  let changes := reports.filterMap (changeLine? colors outputFile dryRun)
  let generated := count reports .generated
  let removed := count reports .deleted
  let unchanged := count reports .unchanged
  let folders := plural reports.length "folder"
  changes
    ++ (if changes.isEmpty || issues.isEmpty then [] else [""])
    ++ reportLines colors issues
    ++ (if issues.any (·.isError) then []
      else [successLine colors
        s!"Processed {folders}: {generated} generated, {removed} removed, {unchanged} unchanged"])
    ++ (if dryRun && !changes.isEmpty then
      ["Run without " ++ paint colors [.cyan] "--dry-run" ++ " to write these files."]
      else [])

/-- The output of checking. -/
def checkLines (colors : Bool) (reports : List FolderReport) (outputFile : String)
    (issues : List Issue) : List String :=
  let note := paint colors [.bold] "note:"
  let stale := (reports.filter (·.outcome.isChange)).map fun report =>
    let path := (report.folder.child outputFile).display
    s!"{note} {path} is out of date"
  let folders := plural reports.length "folder"
  let services := plural (reports.flatMap (·.services)).length "service"
  reportLines colors issues
    ++ stale
    ++ (if issues.isEmpty then
      [successLine colors s!"Checked {folders}, {services} - no issues found"] else [])

/-- The output of cleaning. -/
def cleanLines (colors : Bool) (removed : List Path) : List String :=
  let label := paint colors [.bold, .green] "Removed"
  removed.map (fun path => s!"{label} {path.display}")
    ++ [successLine colors ("Removed " ++ plural removed.length "file")]

/-- The lines on standard output. -/
def outputLines (colors : Bool) (r : CommandResult) : List String :=
  match r with
  | .generated reports outputFile dryRun =>
      generateLines colors reports outputFile dryRun r.issues
  | .checked reports outputFile => checkLines colors reports outputFile r.issues
  | .cleaned removed => cleanLines colors removed
  | .initialized => [successLine colors ("Created " ++ configFileName)]
  | .alreadyInitialized => []

/-- The lines on standard error. -/
def errorLines : CommandResult → List String
  | .alreadyInitialized => ["Error: " ++ configFileName ++ " already exists"]
  | _ => []

end CommandResult

/-- What an invocation shows. -/
structure CommandOutput where
  exitCode : Nat
  output : String
  errors : String
  deriving DecidableEq, Repr

/-- Runs a command. -/
def Command.run (colors : Bool) (command : Command) (t : FileTree) : CommandOutput × FileTree :=
  match command.perform t with
  | (.error failure, t) =>
      ({ exitCode := 2, output := "", errors := s!"Error: {failure.message}\n" }, t)
  | (.ok result, t) =>
      ({ exitCode := result.exitCode
         output := Text.unlines (result.outputLines colors)
         errors := Text.unlines result.errorLines }, t)

end ServiceWiring
