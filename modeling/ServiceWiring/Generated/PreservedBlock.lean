import ServiceWiring.Text.Lines

/-!
# Preserved blocks

Hand-written parts of a generated file stand between marker lines and are carried over when the
file is generated anew.  A block without an end marker runs to the end of the file.  Of blocks
with one name the first counts.
-/

namespace ServiceWiring

open Text

/-- A hand-written part of a generated file. -/
structure PreservedBlock where
  name : String
  /-- The lines between the markers. -/
  body : List String
  deriving DecidableEq, Repr

namespace PreservedBlock

/-- Starts the line in front of a block. -/
def beginMarker : String := "// wiregen:user-begin"

/-- Starts the line behind a block. -/
def endMarker : String := "// wiregen:user-end"

/-- The name on a marker line. -/
def markedName? (marker : String) (line : String) : Option String :=
  (after? marker.toList (trim line.toList)).map fun rest => String.ofList (trim rest)

/-- The text between the markers. -/
def bodyText (block : PreservedBlock) : String :=
  unlines block.body

/-- Adds a block unless its name is taken. -/
def push (blocks : List PreservedBlock) (block : PreservedBlock) : List PreservedBlock :=
  if blocks.any fun b => b.name == block.name then blocks else blocks ++ [block]

/-- Finds the blocks of the remaining lines, with the block that is open. -/
def extractFrom (blocks : List PreservedBlock) :
    Option PreservedBlock → List String → List PreservedBlock
  | none, [] => blocks
  | some block, [] => push blocks block
  | none, line :: rest =>
      match markedName? beginMarker line with
      | some name => extractFrom blocks (some ⟨name, []⟩) rest
      | none => extractFrom blocks none rest
  | some block, line :: rest =>
      if markedName? endMarker line = some block.name then
        extractFrom (push blocks block) none rest
      else extractFrom blocks (some { block with body := block.body ++ [line] }) rest

/-- The blocks of a generated file. -/
def extract (text : String) : List PreservedBlock :=
  extractFrom [] none (linesOf text)

/-- The lines of a block with its markers. -/
def markedLines (block : PreservedBlock) : List String :=
  s!"{beginMarker} {block.name}" :: block.body ++ [s!"{endMarker} {block.name}"]

end PreservedBlock

end ServiceWiring
