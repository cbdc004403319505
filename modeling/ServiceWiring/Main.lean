import ServiceWiring.Command.Run

/-!
# The program

The part of the file system that a command can see is read into a tree, the command runs on
that tree, and the files it changed are written back.
-/

namespace ServiceWiring.Program

/-- The file of a path, seen from the working directory. -/
def fileAt (path : String) :=
  (· / path) <$> IO.currentDir

/-- The place a path leads to, if it exists. -/
def placeAt? (path : String) : IO (Option Place) := do
  let file ← fileAt path
  if ← file.pathExists then
    return some (Path.mk (← IO.FS.realPath file).toString).steps
  else return none

/-- What is at a place, links aside. -/
def entryAt? (place : Place) : IO (Option Entry) := do
  let file ← fileAt (Path.ofPlace place).text
  try
    match (← file.symlinkMetadata).type with
    | .dir => return some .directory
    | .file => return some (.file (.ofBytes (← IO.FS.readBinFile file).toList))
    | _ => return none
  catch _ => return none

/-- Everything below a directory. -/
partial def loadBelow (place : Place) : IO (List (Place × Entry)) := do
  let dir ← fileAt (Path.ofPlace place).text
  let names ← try pure ((← dir.readDir).toList.map (·.fileName)) catch _ => pure []
  let loaded ← names.mapM fun name => do
    let child := place ++ [name]
    match ← entryAt? child with
    | some .directory => return (child, .directory) :: (← loadBelow child)
    | some entry => return [(child, entry)]
    | none => return []
  return loaded.flatten

/-- The directories that lead to a place, with what the search for settings looks at. -/
def loadLineage (place : Place) : IO (List (Place × Entry)) := do
  let dirs := (List.range (place.length + 1)).map place.take
  let loaded ← dirs.mapM fun dir => do
    let marks ← [configFileName, ".git"].filterMapM fun name => do
      return (← entryAt? (dir ++ [name])).map (dir ++ [name], ·)
    return (if dir.isEmpty then [] else [(dir, .directory)]) ++ marks
  return loaded.flatten

/-- Adds what is at a place, with all that is in it and the directories that lead there. -/
def addPlace (t : FileTree) (place : Place) : IO FileTree := do
  let lineage ← loadLineage place.dropLast
  let outside := (t.entries ++ lineage).eraseDups.filter fun e => !place.isPrefixOf e.1
  match ← entryAt? place with
  | none => return t
  | some .directory =>
      return { t with entries := outside ++ (place, .directory) :: (← loadBelow place) }
  | some entry => return { t with entries := outside ++ [(place, entry)] }

/-- The tree that a command can see. -/
def loadTree (command : Command) : IO FileTree := do
  let workingDir := (← placeAt? ".").getD []
  let named ← match command.project? with
    | some arguments => placeAt? arguments.path
    | none => pure none
  let entries := (← (workingDir :: named.toList).mapM loadLineage).flatten
  let t : FileTree := { entries := entries.eraseDups, workingDir }
  match command.project?.map (Project.ofArguments t) with
  | some (.ok project) =>
      let places ← (Scan.reach project.root project.scanOptions).filterMapM fun path =>
        placeAt? path.text
      places.foldlM addPlace t
  | _ => return t

/-- Writes a changed file through a temporary file beside it, or removes it. -/
def store (place : Place) (content : Option Content) : IO Unit := do
  let path := Path.ofPlace place
  let file ← fileAt path.text
  match content with
  | none => IO.FS.removeFile file
  | some content =>
      let data := match content with
        | .text s => s.toUTF8
        | .bytes data => ⟨data.toArray⟩
      let temporary ← fileAt (path.temporary?.getD path).text
      IO.FS.writeBinFile temporary data
      IO.FS.rename temporary file

/-- What is shown when no command is asked for. -/
def usage : String :=
  "Usage: wiregen [generate|check|clean] [PATH] [--output-file NAME] [--verbose]\n"
    ++ "       wiregen generate [--force] [--dry-run]\n"
    ++ "       wiregen init\n"

/-- Shows why no command runs. -/
def showUsage : UsageError → IO Unit
  | .help => IO.print usage
  | .version => IO.println "wiregen 0.1.0"
  | .unknownCommand => IO.eprint ("error: unrecognized subcommand\n\n" ++ usage)
  | .unknownArgument => IO.eprint ("error: unexpected argument\n\n" ++ usage)
  | .invalidValue => IO.eprint ("error: a value is required\n\n" ++ usage)
  | .repeatedArgument => IO.eprint ("error: an argument is used multiple times\n\n" ++ usage)
  | .unexpectedValue => IO.eprint ("error: unexpected value\n\n" ++ usage)

/-- Runs a command on the file system. -/
def run (command : Command) : IO UInt32 := do
  let before ← loadTree command
  let (shown, after) := command.run (← (← IO.getStdout).isTty) before
  for (place, content) in before.changes after [] do
    store place content
  IO.print shown.output
  IO.eprint shown.errors
  return UInt32.ofNat shown.exitCode

end ServiceWiring.Program

open ServiceWiring in
/-- The program. -/
def main (arguments : List String) : IO UInt32 := do
  match Command.parse arguments with
  | .error error =>
      Program.showUsage error
      return UInt32.ofNat error.exitCode
  | .ok none =>
      IO.print Program.usage
      return 0
  | .ok (some command) =>
      try Program.run command
      catch e =>
        IO.eprintln ("Error: " ++ toString e)
        return 2
