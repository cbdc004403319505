/-!
# Lines of generated code

Generated code is a list of lines with their indentation, rendered last.
-/

namespace ServiceWiring

/-- A line of code behind some tabs. -/
structure CodeLine where
  indent : Nat
  text : String
  deriving DecidableEq, Repr

namespace CodeLine

/-- The line as written, without its line end. -/
def written (line : CodeLine) : String :=
  String.ofList (List.replicate line.indent '\t') ++ line.text

/-- A line moved to the right. -/
def shift (n : Nat) (line : CodeLine) : CodeLine :=
  { line with indent := line.indent + n }

end CodeLine

/-- Lines of code. -/
abbrev CodeBlock := List CodeLine

namespace CodeBlock

/-- One line without indentation. -/
def line (text : String) : CodeBlock :=
  [⟨0, text⟩]

/-- Lines moved one tab to the right. -/
def nested (block : CodeBlock) : CodeBlock :=
  block.map (·.shift 1)

/-- Lines moved `n` tabs to the right. -/
def indented (n : Nat) (block : CodeBlock) : CodeBlock :=
  block.map (·.shift n)

/-- The lines as written. -/
def written (block : CodeBlock) : List String :=
  block.map (·.written)

end CodeBlock

end ServiceWiring
