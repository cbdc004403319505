import ServiceWiring.Source.File

/-!
# Issues

Every problem that is reported to a user.  An issue carries what is needed to show it: its
place, the offending line and its words.

* `Issue.message`, `Issue.note?`, `Issue.hint?` — the words of an issue;
* `Issue.compare` — the order issues are reported in: file, line, column, rule, message;
* `Issue.sort` — a stable sort by that order.
-/

namespace ServiceWiring

/-- How bad an issue is. -/
inductive Severity where
  | error
  | warning
  deriving DecidableEq, Repr

/-- The word for a severity. -/
def Severity.label : Severity → String
  | .error => "error"
  | .warning => "warning"

/-- The rule an issue breaks. -/
inductive Rule where
  | directiveText
  | placement
  | conflict
  | ignoredDirective
  | readError
  | internal
  deriving DecidableEq, Repr

namespace Rule

/-- The name of a rule. -/
def label : Rule → String
  | .directiveText => "directive-syntax"
  | .placement => "placement"
  | .conflict => "conflict"
  | .ignoredDirective => "ignored-directive"
  | .readError => "read-error"
  | .internal => "internal"

/-- The place of a rule among the rules. -/
def rank : Rule → Nat
  | .directiveText => 0
  | .placement => 1
  | .conflict => 2
  | .ignoredDirective => 3
  | .readError => 4
  | .internal => 5

end Rule

/-- A problem found in a folder. -/
inductive Issue where
  /-- The text of a directive cannot be read. -/
  | malformed (loc : Location) (directive error : String)
  /-- A directive stands in front of the wrong kind of declaration.  Its file generates
      nothing. -/
  | misplaced (loc : Location) (directive expected found : String)
  /-- The parts of a service contradict each other.  The service is left out. -/
  | conflict (loc : Location) (service message : String) (other : Option String)
  /-- A well-formed directive without effect. -/
  | ignored (loc : Location) (directive reason : String)
  /-- A source cannot be read. -/
  | unreadable (file error : String)
  /-- A folder failed for a reason outside its sources. -/
  | internal (file error : String)
  deriving DecidableEq, Repr

namespace Issue

/-- The rule of an issue. -/
def rule : Issue → Rule
  | .malformed .. => .directiveText
  | .misplaced .. => .placement
  | .conflict .. => .conflict
  | .ignored .. => .ignoredDirective
  | .unreadable .. => .readError
  | .internal .. => .internal

/-- Only ignored directives are warnings. -/
def severity : Issue → Severity
  | .ignored .. => .warning
  | _ => .error

/-- Whether an issue is an error. -/
def isError (i : Issue) : Bool :=
  i.severity == .error

/-- Whether an issue is a failure outside the sources. -/
def isInternal : Issue → Bool
  | .internal .. => true
  | _ => false

/-- The source line of an issue, if it has one. -/
def location? : Issue → Option Location
  | .malformed loc _ _ => some loc
  | .misplaced loc _ _ _ => some loc
  | .conflict loc _ _ _ => some loc
  | .ignored loc _ _ => some loc
  | .unreadable _ _ => none
  | .internal _ _ => none

/-- The file of an issue. -/
def file : Issue → String
  | .malformed loc _ _ => loc.file
  | .misplaced loc _ _ _ => loc.file
  | .conflict loc _ _ _ => loc.file
  | .ignored loc _ _ => loc.file
  | .unreadable file _ => file
  | .internal file _ => file

/-- The line of an issue, zero without one. -/
def line (i : Issue) : Nat :=
  i.location?.elim 0 (·.line)

/-- The column of an issue, zero without one. -/
def column (i : Issue) : Nat :=
  i.location?.elim 0 (·.column)

/-- The words of an issue. -/
def message : Issue → String
  | .malformed _ directive error => s!"malformed @{directive}: {error}"
  | .misplaced _ directive expected found =>
      s!"@{directive} must precede a {expected}, found {found}"
  | .conflict _ _ message _ => message
  | .ignored _ directive reason => s!"@{directive} is ignored: {reason}"
  | .unreadable _ error => error
  | .internal _ error => error

/-- What an issue means for the generated code. -/
def note? : Issue → Option String
  | .misplaced .. => some "no code is generated for this file until the directive is moved"
  | .conflict _ service _ (some other) =>
      some s!"service `{service}` is skipped; also declared at {other}"
  | .conflict _ service _ none => some s!"service `{service}` is skipped"
  | _ => none

/-- Advice on an issue. -/
def hint? : Issue → Option String
  | .internal .. => some "this is a bug in wiregen; please report it"
  | _ => none

/-- The order of issues: by file, line, column, rule and message. -/
def compare (a b : Issue) : Ordering :=
  (Ord.compare a.file b.file)
    |>.then (Ord.compare a.line b.line)
    |>.then (Ord.compare a.column b.column)
    |>.then (Ord.compare a.rule.rank b.rule.rank)
    |>.then (Ord.compare a.message b.message)

/-- Issues in their order; equal ones keep their places. -/
def sort (issues : List Issue) : List Issue :=
  issues.mergeSort fun a b => (a.compare b).isLE

end Issue

end ServiceWiring
