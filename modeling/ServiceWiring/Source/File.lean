import ServiceWiring.Path
import ServiceWiring.Text.Lines
import ServiceWiring.Source.Index

/-!
# Source files

A source file with its raw lines, the code of each line and the declaration index.  Lines are
counted from one.
-/

namespace ServiceWiring

open Text

/-- A source file. -/
structure SourceFile where
  path : Path
  lines : List String
  /-- The lines without comments and literal contents. -/
  code : List (List Char)
  index : DeclarationIndex
  deriving DecidableEq, Repr

/-- A line of a source file, with its text for display. -/
structure Location where
  file : String
  line : Nat
  /-- In characters, counted from one. -/
  column : Nat
  text : String
  deriving DecidableEq, Repr

namespace SourceFile

/-- Reads a source file. -/
def parse (path : Path) (content : String) : SourceFile :=
  let raw := Text.lines content.toList
  let code := Code.ofLines raw
  { path, lines := raw.map String.ofList, code, index := .ofCode raw code }

/-- The text of a line. -/
def line? (file : SourceFile) (line : Nat) : Option String :=
  if line = 0 then none else file.lines[line - 1]?

/-- The number of the first line behind `line` that holds code. -/
def nextCodeLine? (file : SourceFile) (line : Nat) : Option Nat :=
  ((file.code.drop line).findIdx? fun code => !(trim code).isEmpty).map (line + · + 1)

/-- The column of a line: that of its first directive sigil, else that of its first visible
    character, else one. -/
def columnOf (text : List Char) : Nat :=
  match text.findIdx? (· == '@') with
  | some i => i + 1
  | none =>
      match text.findIdx? fun c => !isBlank c with
      | some i => i + 1
      | none => 1

/-- The location of a line. -/
def locate (file : SourceFile) (line : Nat) : Location :=
  let text := (file.line? line).getD ""
  { file := file.path.display, line, column := columnOf text.toList, text }

end SourceFile

/-- The `file:line` form of a location. -/
def Location.origin (loc : Location) : String :=
  s!"{loc.file}:{loc.line}"

end ServiceWiring
