import ServiceWiring.FileTree.Access
import ServiceWiring.Folder.Basic
import ServiceWiring.Generated.File
import ServiceWiring.Manifest

/-!
# The state of a folder

All that a pass reads: the sources, the generated file, the manifest and the name of the folder.
A pass is a function of this state and of its options.

* `FolderState.read` — the state of a folder in a tree;
* `FolderState.previous` — the generated file, if it may be written over.
-/

namespace ServiceWiring

/-- A source that could be read. -/
structure SourceInput where
  path : Path
  content : String
  deriving DecidableEq, Repr

/-- The name of a source in the manifest. -/
def SourceInput.name (input : SourceInput) : String :=
  input.path.fileName?.getD input.path.display

/-- What a pass reads. -/
structure FolderState where
  sources : List (Path × Except FileError String)
  /-- What reading the generated file gives. -/
  output : Except FileError String
  /-- The manifest, if there is a sound one. -/
  manifest : Option Manifest
  /-- The name of the folder itself. -/
  name : Option String

namespace FolderState

/-- The manifest at a path; none if it is missing or unsound. -/
def readManifest (t : FileTree) (path : Path) : Option Manifest :=
  (t.readText path).toOption.bind Manifest.parse?

/-- Reads the state of a folder. -/
def read (t : FileTree) (folder : PackageFolder) (options : PassOptions) : FolderState where
  sources := folder.sources.map fun path => (path, t.readText path)
  output := t.readText (options.outputPath folder)
  manifest := readManifest t (options.cachePath folder)
  name := (t.canonical? folder.path).bind (·.fileName?)

/-- The sources that could be read. -/
def inputs (state : FolderState) : List SourceInput :=
  state.sources.filterMap fun
    | (path, .ok content) => some ⟨path, content⟩
    | (_, .error _) => none

/-- The issues of the sources that could not be read. -/
def readIssues (state : FolderState) : List Issue :=
  state.sources.filterMap fun
    | (_, .ok _) => none
    | (path, .error e) => some (.unreadable path.display s!"Failed to read file: {e.message}")

/-- The generated file before the pass, if there is one; or why it must not be touched. -/
def previous (state : FolderState) : Except String (Option String) :=
  match state.output with
  | .ok text =>
      if isGenerated text then .ok (some text)
      else .error "refusing to overwrite a file that was not generated by wiregen"
  | .error .notFound => .ok none
  | .error e => .error s!"Failed to read output: {e.message}"

/-- Whether any source marks a service. -/
def anyMarker (state : FolderState) : Bool :=
  state.inputs.any fun input => hasMarker input.content

end FolderState

end ServiceWiring
