import ServiceWiring.Config
import ServiceWiring.Folder.Basic
import ServiceWiring.Glob.Expansion

/-!
# Scanning for package folders

All folders below a base directory that hold sources, or that hold a generated file or a
manifest, which may have to be removed.  Hidden directories and those of other people's code
are left out.

* `Scan.roots` — the directories to look into;
* `Scan.isIgnored` — whether the settings leave a path out;
* `Scan.folders` — the package folders, by path.
-/

namespace ServiceWiring

/-- How to look for folders. -/
structure ScanOptions where
  /-- The directories to look into, literal or as patterns; the base directory if empty. -/
  includes : List String := []
  /-- The paths to leave out, literal or as patterns. -/
  ignores : List String := []
  ignoreTestFiles : Bool := true
  outputFile : String
  cacheFile : String
  deriving DecidableEq, Repr

/-- What a scan finds. -/
structure ScanResult where
  folders : List PackageFolder
  /-- The number of directories that could not be looked into. -/
  skipped : Nat
  deriving DecidableEq, Repr

namespace Scan

/-- The files that are tests. -/
def testFilePattern : String := "**/*_test.go"

/-- Directories that are never looked into. -/
def isSkippedName (name : String) : Bool :=
  name.toList.head? == some '.' || name.toList.head? == some '_'
    || ["vendor", "testdata", "node_modules"].contains name

/-- The literal paths to leave out. -/
def literalIgnores (base : Path) (options : ScanOptions) : List Path :=
  (options.ignores.filter fun p => !Config.isWildcard p).map base.child

/-- The patterns of paths to leave out; what is no pattern does not count. -/
def ignorePatterns (options : ScanOptions) : List GlobPattern :=
  let tests := if options.ignoreTestFiles then [testFilePattern] else []
  (options.ignores.filter Config.isWildcard ++ tests).filterMap fun p =>
    (GlobPattern.parse p.toList).toOption

/-- Whether a path is left out. -/
def isIgnored (base : Path) (options : ScanOptions) (path : Path) : Bool :=
  (literalIgnores base options).any path.startsWith
    || (ignorePatterns options).any (·.isMatch path.text.toList)

/-- What one setting of directories to look into stands for. -/
def rootsOf (t : FileTree) (base : Path) (pattern : String) : List Path :=
  let path := base.child pattern
  if Config.isWildcard pattern then
    (GlobPattern.expand t path).filter fun found => (t.directory? found).isSome
  else if t.exists? path then [path]
  else []

/-- The directories to look into. -/
def roots (t : FileTree) (base : Path) (options : ScanOptions) : List Path :=
  if options.includes.isEmpty then [base] else options.includes.flatMap (rootsOf t base)

/-- A path pattern up to its first component with a wildcard. -/
def literalLead (pattern : String) : String :=
  String.intercalate "/"
    (((Text.splitWhere (· == '/') pattern.toList).map String.ofList).takeWhile
      fun piece => !Config.isWildcard piece)

/-- Directories that hold everything a scan may look at. -/
def reach (base : Path) (options : ScanOptions) : List Path :=
  base :: options.includes.map fun pattern => base.child (literalLead pattern)

/-- The files below a root; none if the root does not exist. -/
def filesUnder? (t : FileTree) (root : Path) : Option (List Path) :=
  match t.entryAt root with
  | .error _ => none
  | .ok (_, .file _) => some [root]
  | .ok (place, .directory) =>
      some ((t.filesBelow place).filterMap fun (names, _) =>
        if names.dropLast.any isSkippedName then none else some (names.foldl Path.child root))

/-- Whether a file is a source. -/
def isSource (options : ScanOptions) (path : Path) : Bool :=
  path.extension? == some "go" && path.fileName? != some options.outputFile

/-- Whether a file is a generated file or a manifest. -/
def isGeneratedState (options : ScanOptions) (path : Path) : Bool :=
  path.fileName? == some options.outputFile || path.fileName? == some options.cacheFile

/-- Adds sources to the folder of a path. -/
def addTo (dir : Path) (sources : List Path) : List PackageFolder → List PackageFolder
  | [] => [⟨dir, sources⟩]
  | folder :: rest =>
      match dir.compare folder.path with
      | .lt => ⟨dir, sources⟩ :: folder :: rest
      | .eq => { folder with sources := folder.sources ++ sources } :: rest
      | .gt => folder :: addTo dir sources rest

/-- Adds a file to its folder, if it makes one. -/
def addFile (options : ScanOptions) (folders : List PackageFolder) (path : Path) :
    List PackageFolder :=
  match path.parent? with
  | none => folders
  | some dir =>
      if isSource options path then addTo dir [path] folders
      else if isGeneratedState options path then addTo dir [] folders
      else folders

/-- The paths behind a kept one, without those that have the parts of the last one kept. -/
def dedupBehind (kept : Path) : List Path → List Path
  | [] => []
  | p :: rest => if kept.same p then dedupBehind kept rest else p :: dedupBehind p rest

/-- Paths of which no two neighbours have the same parts. -/
def dedup : List Path → List Path
  | [] => []
  | p :: rest => p :: dedupBehind p rest

/-- Sources in their order, each once. -/
def ordered (sources : List Path) : List Path :=
  dedup (sources.mergeSort fun p q => (p.compare q).isLE)

/-- Looks for package folders. -/
def folders (t : FileTree) (base : Path) (options : ScanOptions) : ScanResult :=
  let found := (roots t base options).map (filesUnder? t)
  let files := (found.flatMap (·.getD [])).filter fun path => !isIgnored base options path
  { folders := (files.foldl (addFile options) []).map fun folder =>
      { folder with sources := ordered folder.sources }
    skipped := (found.filter (·.isNone)).length }

end Scan

end ServiceWiring
