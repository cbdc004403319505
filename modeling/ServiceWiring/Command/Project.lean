import ServiceWiring.Command.Arguments
import ServiceWiring.Config.Lookup
import ServiceWiring.Folder.Pass
import ServiceWiring.Folder.Scan

/-!
# Projects

The directory a command works on, with the settings that hold for it.
-/

namespace ServiceWiring

/-- Why a command ends without a result. -/
inductive CommandFailure where
  | notDirectory (path : Path)
  | config (failure : ConfigFailure)
  | file (failure : FileFailure)
  deriving DecidableEq, Repr

/-- The words for a failure. -/
def CommandFailure.message : CommandFailure → String
  | .notDirectory path => s!"Path is not a directory: {path.text}"
  | .config failure => failure.message
  | .file failure => failure.message

/-- A project. -/
structure Project where
  root : Path
  config : Config
  deriving DecidableEq, Repr

namespace Project

/-- Settings with another name for the generated file, checked once more. -/
def override (config : Config) : Option String → Except Config.Fault Config
  | none => .ok config
  | some outputFile => do
      let config := { config with outputFile }
      config.validate
      return config

/-- The project that arguments name.  The settings are looked for from the absolute path up. -/
def ofArguments (t : FileTree) (arguments : ProjectArguments) : Except CommandFailure Project := do
  let root : Path := ⟨arguments.path⟩
  match t.directory? root with
  | none => throw (.notDirectory root)
  | some place =>
      let loaded ← (Config.load t (.ofPlace place)).mapError .config
      let config ← (override loaded.config arguments.outputFile).mapError (.config ∘ .faulty)
      return { root, config }

/-- How folders of a project are looked for. -/
def scanOptions (project : Project) : ScanOptions where
  includes := project.config.includes
  ignores := project.config.ignores
  ignoreTestFiles := project.config.ignoreTestFiles
  outputFile := project.config.outputFile
  cacheFile := project.config.cacheFile

/-- The package folders of a project. -/
def folders (t : FileTree) (project : Project) : List PackageFolder :=
  (Scan.folders t project.root project.scanOptions).folders

/-- How the folders of a project are processed. -/
def passOptions (project : Project) (force dryRun : Bool) : PassOptions where
  outputFile := project.config.outputFile
  cacheFile := project.config.cacheFile
  runtime := ⟨project.config.runtimeImport, project.config.runtimeName⟩
  force
  dryRun

/-- Processes folders one after another. -/
def processAll (options : PassOptions) : List PackageFolder → FileTree →
    List FolderReport × FileTree
  | [], t => ([], t)
  | folder :: rest, t =>
      let (report, t) := FolderPass.run options folder t
      let (reports, t) := processAll options rest t
      (report :: reports, t)

/-- Cleans folders one after another; the first failure ends it. -/
def cleanAll (config : Config) : List PackageFolder → FileTree →
    Except FileFailure (List Path) × FileTree
  | [], t => (.ok [], t)
  | folder :: rest, t =>
      match PackageFolder.clean t folder.path config.outputFile config.cacheFile with
      | (.error failure, t) => (.error failure, t)
      | (.ok removed, t) =>
          let (result, t) := cleanAll config rest t
          (result.map (removed ++ ·), t)

end Project

end ServiceWiring
