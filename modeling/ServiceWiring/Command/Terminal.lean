import ServiceWiring.Folder.Basic

/-!
# Issues on a terminal

Every issue with its place, the source line and a caret under the directive, and a count at the
end.  Colours are escape sequences around a text; without colours the text stands alone.
-/

namespace ServiceWiring

/-- How a text is shown. -/
inductive Style where
  | bold
  | dimmed
  | red
  | green
  | yellow
  | blue
  | cyan
  deriving DecidableEq, Repr

/-- The code of a style. -/
def Style.code : Style → String
  | .bold => "1"
  | .dimmed => "2"
  | .red => "31"
  | .green => "32"
  | .yellow => "33"
  | .blue => "34"
  | .cyan => "36"

namespace Terminal

/-- A text in some styles. -/
def paint (colors : Bool) (styles : List Style) (text : String) : String :=
  if colors then
    "\x1b[" ++ String.intercalate ";" (styles.map (·.code)) ++ "m" ++ text ++ "\x1b[0m"
  else text

/-- Blanks. -/
def blanks (count : Nat) : String :=
  String.ofList (List.replicate count ' ')

/-- A text with blanks in front, up to a width. -/
def alignRight (width : Nat) (text : String) : String :=
  blanks (width - text.length) ++ text

/-- The number of cells of what stands in front of a directive, which is blanks and slashes only.
    Of these, the ideographic blank alone takes two cells. -/
def cells (text : List Char) : Nat :=
  text.length + text.count '\u3000'

/-- The style of a severity. -/
def severityStyle : Severity → Style
  | .error => .red
  | .warning => .yellow

/-- The lines that show a source line, behind a margin of the given width. -/
def sourceLines (colors : Bool) (width : Nat) (severity : Severity) (loc : Location) :
    List String :=
  let bar := paint colors [.blue] "|"
  let number := paint colors [.blue] (alignRight width (toString loc.line))
  let indent := blanks (cells (loc.text.toList.take (loc.column - 1)))
  let caret := paint colors [severityStyle severity] "^"
  [s!"{blanks width} {bar}",
    s!"{number} {bar} {loc.text}",
    s!"{blanks width} {bar} {indent}{caret}"]

/-- A line that adds something to an issue. -/
def addition (colors : Bool) (width : Nat) (styles : List Style) (label text : String) : String :=
  let sign := paint colors [.blue] "="
  let label := paint colors styles label
  s!"{blanks width} {sign} {label} {text}"

/-- The lines of an issue, an empty one behind them included. -/
def issueLines (colors : Bool) (width : Nat) (i : Issue) : List String :=
  let label := paint colors [.bold, severityStyle i.severity] i.severity.label
  let rule := paint colors [.dimmed, .cyan] i.rule.label
  let arrow := paint colors [.blue] "-->"
  let place := match i.location? with
    | some loc =>
        s!"  {arrow} {loc.file}:{loc.line}:{loc.column}"
          :: sourceLines colors width i.severity loc
    | none => [s!"  {arrow} {i.file}"]
  [s!"{label}: {i.message}  {rule}"]
    ++ place
    ++ (i.note?.map (addition colors width [.bold] "note:")).toList
    ++ (i.hint?.map (addition colors width [.bold, .cyan] "hint:")).toList
    ++ [""]

/-- The width of the margin: that of the highest line number. -/
def marginWidth (issues : List Issue) : Nat :=
  match (issues.filterMap fun i => i.location?.map (·.line)).max? with
  | some line => (toString line).length
  | none => 1

/-- A word for a count. -/
def counted (count : Nat) (word : String) : String :=
  if count = 1 then word else word ++ "s"

/-- A count with its word. -/
def plural (count : Nat) (word : String) : String :=
  toString count ++ " " ++ counted count word

/-- The line that counts issues. -/
def countLine (colors : Bool) (issues : List Issue) : String :=
  let errors := (issues.filter (·.isError)).length
  let warnings := issues.length - errors
  let mark := paint colors [.red] "✘"
  let errorWord := paint colors [.red] (counted errors "error")
  let warningWord := paint colors [.yellow] (counted warnings "warning")
  s!"{mark} {issues.length} problems ({errors} {errorWord}, {warnings} {warningWord})"

/-- The lines of issues, nothing without any. -/
def reportLines (colors : Bool) (issues : List Issue) : List String :=
  if issues.isEmpty then []
  else issues.flatMap (issueLines colors (marginWidth issues)) ++ [countLine colors issues]

/-- A line that says that all went well. -/
def successLine (colors : Bool) (text : String) : String :=
  let mark := paint colors [.green] "✓"
  let shown := paint colors [.green] text
  s!"{mark} {shown}"

end Terminal

end ServiceWiring
