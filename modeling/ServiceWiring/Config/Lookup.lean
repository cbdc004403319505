import ServiceWiring.Config
import ServiceWiring.FileTree.Access

/-!
# Finding the configuration

The configuration file is looked for in a directory and in those above it, up to the top of the
repository.  Without one, the defaults hold.
-/

namespace ServiceWiring

/-- Why there are no settings. -/
inductive ConfigFailure where
  | unreadable (path : Path) (error : FileError)
  | malformed (path : Path)
  | faulty (fault : Config.Fault)
  deriving DecidableEq, Repr

/-- The words for a failure. -/
def ConfigFailure.message : ConfigFailure → String
  | .unreadable path error => s!"Failed to read config file: {path.text}: {error.message}"
  | .malformed path => s!"Failed to parse config file: {path.text}"
  | .faulty fault => fault.message

/-- Settings, and whether a file gave them. -/
structure LoadedConfig where
  config : Config
  fromFile : Bool
  deriving DecidableEq, Repr

namespace Config

/-- The directories from a path up.  The number bounds their count. -/
def climb : Nat → Path → List Path
  | 0, _ => []
  | n + 1, dir => dir :: (dir.parent?.elim [] (climb n))

/-- The directories from a path up to the root, or to the working directory. -/
def lineage (dir : Path) : List Path :=
  climb (dir.text.length + 2) dir

/-- The first configuration file of some directories, of which one that holds a repository is the
    last to count. -/
def findIn (t : FileTree) : List Path → Option Path
  | [] => none
  | dir :: rest =>
      let path := dir.child configFileName
      if t.exists? path then some path
      else if t.exists? (dir.child ".git") then none
      else findIn t rest

/-- The configuration file that holds for a directory. -/
def find? (t : FileTree) (dir : Path) : Option Path :=
  findIn t (lineage dir)

/-- Reads a configuration file. -/
def readAt (t : FileTree) (path : Path) : Except ConfigFailure Config := do
  let text ← (t.readText path).mapError (.unreadable path)
  match parse? text with
  | none => throw (.malformed path)
  | some config =>
      config.validate.mapError .faulty
      return config

/-- The settings that hold for a directory. -/
def load (t : FileTree) (dir : Path) : Except ConfigFailure LoadedConfig :=
  match find? t dir with
  | none => .ok { config := {}, fromFile := false }
  | some path => (readAt t path).map fun config => { config, fromFile := true }

end Config

end ServiceWiring
