import ServiceWiring.Import.Entry
import ServiceWiring.Issue

/-!
# Package folders

A folder with source files is one package and the unit of generation.  A pass over a folder ends
in a report.
-/

namespace ServiceWiring

/-- A package folder with its sources. -/
structure PackageFolder where
  path : Path
  sources : List Path
  deriving DecidableEq, Repr

/-- How folders are processed. -/
structure PassOptions where
  /-- The name of the generated file. -/
  outputFile : String
  /-- The name of the manifest. -/
  cacheFile : String
  /-- The package that the generated code calls into. -/
  runtime : ImportEntry
  /-- Whether the manifest is left aside. -/
  force : Bool := false
  /-- Whether nothing is written. -/
  dryRun : Bool := false
  deriving DecidableEq, Repr

namespace PassOptions

/-- The generated file of a folder. -/
def outputPath (options : PassOptions) (folder : PackageFolder) : Path :=
  folder.path.child options.outputFile

/-- The manifest of a folder. -/
def cachePath (options : PassOptions) (folder : PackageFolder) : Path :=
  folder.path.child options.cacheFile

end PassOptions

/-- What a pass does to the generated file. -/
inductive FolderOutcome where
  /-- It is up to date. -/
  | unchanged
  /-- It is written. -/
  | generated
  /-- It is removed. -/
  | deleted
  /-- There are no services, and there was no file. -/
  | noServices
  deriving DecidableEq, Repr

/-- Whether the generated file changes. -/
def FolderOutcome.isChange : FolderOutcome → Bool
  | .generated => true
  | .deleted => true
  | .unchanged => false
  | .noServices => false

/-- The report of a pass. -/
structure FolderReport where
  folder : Path
  outcome : FolderOutcome := .unchanged
  issues : List Issue := []
  /-- The services in the generated file. -/
  services : List String := []
  deriving DecidableEq, Repr

namespace FolderReport

/-- Whether a report has errors. -/
def hasErrors (report : FolderReport) : Bool :=
  report.issues.any (·.isError)

/-- A report with one more failure outside the sources. -/
def withInternal (report : FolderReport) (path : Path) (error : String) : FolderReport :=
  { report with issues := report.issues ++ [.internal path.display error] }

end FolderReport

end ServiceWiring
