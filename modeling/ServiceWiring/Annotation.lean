import ServiceWiring.Directive.Basic
import ServiceWiring.Issue

/-!
# Annotations

A directive bound to its place in a file: the line it stands on and the first line of code
behind it.  A malformed directive is an issue of its line and hides nothing else.

* `Collected.ofFile` — the annotations and issues of all directive lines of a file;
* `Placement.check` — whether an annotation stands in front of the right kind of declaration;
* `Placement.validate` — a file's annotations after that check.  One misplaced directive takes
  the whole file out; a field directive of a struct without a marker is dropped with a warning.
-/

namespace ServiceWiring

open Text

/-- A directive at its place in a file. -/
structure Annotation where
  directive : Directive
  /-- The arguments as written. -/
  arguments : Arguments
  /-- The line of the directive. -/
  line : Nat
  /-- The first line of code behind it. -/
  targetLine : Option Nat
  /-- The name declared on that line. -/
  target : Option String
  deriving DecidableEq, Repr

/-- What the directive lines of a file give. -/
structure Collected where
  annotations : List Annotation := []
  issues : List Issue := []
  deriving DecidableEq, Repr

namespace Collected

/-- The name a line declares; of several fields the first. -/
def targetName? (file : SourceFile) (line : Nat) : Option String :=
  match file.index.targetAt line with
  | .declaration d => some d.name
  | .field f => f.names.head?
  | .other => none

/-- The annotation of a directive on a line. -/
def bind (file : SourceFile) (line : Nat) (directive : Directive) (arguments : Arguments) :
    Annotation :=
  let targetLine := file.nextCodeLine? line
  { directive, arguments, line, targetLine, target := targetLine.bind (targetName? file) }

/-- What one line gives. -/
def ofLine (file : SourceFile) (line : Nat) (text : String) : Collected :=
  match LineClass.ofLine text.toList with
  | .directive body =>
      match Directive.parse? body with
      | .ok none => {}
      | .ok (some (directive, arguments)) =>
          { annotations := [bind file line directive arguments] }
      | .error e =>
          { issues := [.malformed (file.locate line) (String.ofList (Directive.nameOf body))
              e.message] }
  | _ => {}

/-- What the lines of a file give, each list in line order. -/
def ofFile (file : SourceFile) : Collected :=
  let found := file.lines.zipIdx.map fun (text, i) => ofLine file (i + 1) text
  { annotations := found.flatMap (·.annotations), issues := found.flatMap (·.issues) }

end Collected

namespace Placement

/-- What a directive has to stand in front of. -/
def expected : DirectiveKind → String
  | .service => "struct declaration"
  | .router => "struct declaration"
  | .inject => "single-name struct field"
  | .config => "single-name struct field"
  | .route => "method declaration"

/-- Whether a line is what a directive has to stand in front of. -/
def fits : DirectiveKind → LineTarget → Bool
  | .service, .declaration d => d.kind == .struct
  | .router, .declaration d => d.kind == .struct
  | .inject, .field f => f.names.length == 1
  | .config, .field f => f.names.length == 1
  | .route, .declaration d => d.kind == .method
  | _, _ => false

/-- The words for what a directive stands in front of. -/
def describe (file : SourceFile) : Option Nat → String
  | none => "end of file"
  | some line =>
      match file.index.targetAt line with
      | .declaration d => s!"{d.kind.describe} `{d.name}`"
      | .field f => "field list `" ++ String.intercalate ", " f.names ++ "`"
      | .other => "`" ++ trimmed ((file.line? line).getD "") ++ "`"

/-- The issue of an annotation that stands in front of the wrong line. -/
def check (file : SourceFile) (a : Annotation) : Option Issue :=
  let kind := a.directive.kind
  if a.targetLine.any fun line => fits kind (file.index.targetAt line) then none
  else
    some (.misplaced (file.locate a.line) kind.label (expected kind)
      (describe file a.targetLine))

/-- A file's annotations after the check. -/
structure Validated where
  /-- The annotations that take part in generation. -/
  annotations : List Annotation := []
  issues : List Issue := []
  /-- Whether a misplaced directive took the file out. -/
  rejected : Bool := false
  deriving DecidableEq, Repr

/-- The structs that a marker of the file names. -/
def markedStructs (annotations : List Annotation) : List String :=
  (annotations.filter fun a => a.directive.isMarker).filterMap (·.target)

/-- The struct without a marker that the field of an annotation belongs to. -/
def unmarkedOwner? (file : SourceFile) (marked : List String) (a : Annotation) : Option String :=
  if a.directive.isFieldDirective then
    match a.targetLine.bind file.index.fieldAt? with
    | some field => if marked.contains field.owner then none else some field.owner
    | none => none
  else none

/-- The warning of a field directive in a struct without a marker. -/
def unmarkedIssue (file : SourceFile) (a : Annotation) (owner : String) : Issue :=
  .ignored (file.locate a.line) a.directive.label
    s!"struct `{owner}` has no @Service or @Router marker"

/-- Checks the annotations of a file. -/
def validate (file : SourceFile) (annotations : List Annotation) : Validated :=
  let misplaced := annotations.filterMap (check file)
  if misplaced.isEmpty then
    let marked := markedStructs annotations
    { annotations := annotations.filter fun a => (unmarkedOwner? file marked a).isNone
      issues := annotations.filterMap fun a =>
        (unmarkedOwner? file marked a).map (unmarkedIssue file a) }
  else { issues := misplaced, rejected := true }

end Placement

end ServiceWiring
