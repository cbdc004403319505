import ServiceWiring.Folder.State
import ServiceWiring.Service.Aggregate

/-!
# Generating for a folder

The generated file that the sources of a folder ask for, with every issue on the way there.  A
change of one source can change what another one contributes, so all sources take part.

* `Generation.ofState` — the issues, services and text of a folder;
* `Generation.outcome` — what that means for the file that is there.
-/

namespace ServiceWiring

/-- What a source contributes. -/
structure SourceFindings where
  file : SourceFile
  annotations : List Annotation
  issues : List Issue

namespace SourceFindings

/-- What the directives of a source give; none for a source without any. -/
def ofSource? (file : SourceFile) (content : String) : Option SourceFindings :=
  if hasDirectives content then
    let collected := Collected.ofFile file
    let validated := Placement.validate file collected.annotations
    some {
      file
      annotations := validated.annotations
      issues := collected.issues ++ validated.issues }
  else none

/-- The part of a source that services are made from. -/
def contribution (f : SourceFindings) : Contribution :=
  { file := f.file, annotations := f.annotations }

end SourceFindings

/-- The result of generating for a folder. -/
structure Generation where
  issues : List Issue
  services : List String
  /-- The generated file, if there are services. -/
  text : Option String

namespace Generation

/-- The package of a folder: that of its first source with a package clause, else the name of the
    folder, where a hyphen gives way to an underscore. -/
def packageName (files : List SourceFile) (folderName : Option String) : String :=
  let stated := (files.filterMap fun f => f.index.package).find? fun name => !name.isEmpty
  let name := (stated.or folderName).getD "main"
  name.map fun c => if c = '-' then '_' else c

/-- The issue of a service whose code cannot be written. -/
def rejectedIssue : Service × Conflict → Issue
  | (service, conflict) => .conflict service.loc service.name conflict.message none

/-- Generates for a folder; `previous` is the generated file that is there.  Fails with the issues
    so far if imports cannot be told apart. -/
def ofState (runtime : ImportEntry) (state : FolderState) (previous : Option String) :
    Except (List Issue × ImportAmbiguity) Generation :=
  let parsed := state.inputs.map fun input =>
    (SourceFile.parse input.path input.content, input.content)
  let files := parsed.map (·.1)
  let findings := parsed.filterMap fun (file, content) => SourceFindings.ofSource? file content
  let aggregate : Aggregate :=
    if state.anyMarker then .ofFiles (findings.map (·.contribution))
    else {}
  let issues := state.readIssues ++ findings.flatMap (·.issues) ++ aggregate.issues
  let parts : FileParts :=
    { package := packageName files state.name
      services := aggregate.services
      blocks := (previous.map PreservedBlock.extract).getD [] }
  match Emission.ofServices runtime (textHooks files) parts with
  | .error ambiguity => .error (issues, ambiguity)
  | .ok emission => .ok {
      issues := Issue.sort (issues ++ emission.rejected.map rejectedIssue)
      services := emission.services
      text := emission.text }

/-- What becomes of the generated file. -/
def outcome (g : Generation) (previous : Option String) : FolderOutcome :=
  match g.text, previous with
  | none, some _ => .deleted
  | none, none => .noServices
  | some text, some old => if text = old then .unchanged else .generated
  | some _, none => .generated

end Generation

end ServiceWiring
