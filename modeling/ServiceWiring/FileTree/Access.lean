import ServiceWiring.FileTree.Basic
import ServiceWiring.Path

/-!
# Access by path

Reading and changing a tree by spelled paths.  A path is followed name by name: every name but
the last has to be a directory, `.` stays and `..` goes up.  What a path that ends in a
separator names has to be a directory.  Names and whole paths are limited in length, and no path
holds a NUL character.

* `FileTree.entryAt` — what a path leads to;
* `FileTree.readText`, `FileTree.perform` — reading a file, and the three steps that change one;
* `FileTree.makeDirectories`, `FileTree.removeAll` — whole directories.
-/

namespace ServiceWiring

open Text

/-- Why an access fails. -/
inductive FileError where
  | notFound
  | notDirectory
  | isDirectory
  /-- A rename onto a directory that the path names by a dot. -/
  | busy
  /-- A name or a whole path beyond its limit. -/
  | nameTooLong
  | nulInName
  | notText
  deriving DecidableEq, Repr

/-- The words for a failed access. -/
def FileError.message : FileError → String
  | .notFound => "No such file or directory (os error 2)"
  | .notDirectory => "Not a directory (os error 20)"
  | .isDirectory => "Is a directory (os error 21)"
  | .busy => "Device or resource busy (os error 16)"
  | .nameTooLong => "File name too long (os error 36)"
  | .nulInName => "file name contained an unexpected NUL byte"
  | .notText => "stream did not contain valid UTF-8"

namespace Path

/-- The names to follow, dots included. -/
def steps (p : Path) : List String :=
  ((splitWhere (· == '/') p.text.toList).filter fun s => !s.isEmpty).map String.ofList

/-- Whether a path ends in a separator. -/
def endsOpen (p : Path) : Bool :=
  p.text.toList.getLast? == some '/'

/-- The absolute path of a place. -/
def ofPlace (place : Place) : Path :=
  ⟨"/" ++ String.intercalate "/" place⟩

/-- The longest path that an access takes, in bytes. -/
def maxBytes : Nat := 4095

/-- Refuses a path that no access takes, whatever the tree holds. -/
def checkText (p : Path) : Except FileError Unit :=
  if p.text.toList.contains '\x00' then .error .nulInName
  else if maxBytes < p.text.utf8ByteSize then .error .nameTooLong
  else .ok ()

end Path

/-- The longest name that a directory holds, in bytes. -/
def maxNameBytes : Nat := 255

/-- Refuses a name that no directory holds. -/
def checkEntryName (name : String) : Except FileError Unit :=
  if maxNameBytes < name.utf8ByteSize then .error .nameTooLong else .ok ()

/-- Where a path leads. -/
inductive Target where
  /-- A directory that the path names by dots, or the root. -/
  | directory (place : Place)
  /-- A name in a directory, whether or not anything is there. -/
  | named (parent : Place) (name : String) (endsOpen : Bool)
  deriving DecidableEq, Repr

namespace FileTree

/-- Follows one name to a directory. -/
def enter (t : FileTree) (place : Place) (name : String) : Except FileError Place :=
  if name = "." then .ok place
  else if name = ".." then .ok place.dropLast
  else do
    checkEntryName name
    match t.find? (place ++ [name]) with
    | some .directory => return place ++ [name]
    | some (.file _) => throw .notDirectory
    | none => throw .notFound

/-- Follows names to a directory. -/
def enterAll (t : FileTree) : Place → List String → Except FileError Place
  | place, [] => .ok place
  | place, name :: rest => do t.enterAll (← t.enter place name) rest

/-- Where a path leads. -/
def target (t : FileTree) (p : Path) : Except FileError Target := do
  p.checkText
  if p.text.isEmpty then throw .notFound
  else
    let start := if p.isAbsolute then [] else t.workingDir
    match p.steps.getLast? with
    | none => return .directory []
    | some last =>
        let dir ← t.enterAll start p.steps.dropLast
        if last = "." then return .directory dir
        else if last = ".." then return .directory dir.dropLast
        else
          checkEntryName last
          return .named dir last p.endsOpen

/-- What a path leads to. -/
def entryAt (t : FileTree) (p : Path) : Except FileError (Place × Entry) := do
  match ← t.target p with
  | .directory place => return (place, .directory)
  | .named parent name endsOpen =>
      let place := parent ++ [name]
      match t.find? place with
      | none => throw .notFound
      | some .directory => return (place, .directory)
      | some (.file content) => if endsOpen then throw .notDirectory else return (place, .file content)

/-- The directory a path leads to. -/
def directory? (t : FileTree) (p : Path) : Option Place :=
  match t.entryAt p with
  | .ok (place, .directory) => some place
  | _ => none

/-- Whether a path leads to anything. -/
def exists? (t : FileTree) (p : Path) : Bool :=
  (t.entryAt p).isOk

/-- The absolute path of what a path leads to, without dots. -/
def canonical? (t : FileTree) (p : Path) : Option Path :=
  match t.entryAt p with
  | .ok (place, _) => some (.ofPlace place)
  | .error _ => none

/-- The text of a file. -/
def readText (t : FileTree) (p : Path) : Except FileError String := do
  match ← t.entryAt p with
  | (_, .directory) => throw .isDirectory
  | (_, .file (.bytes _)) => throw .notText
  | (_, .file (.text s)) => return s

end FileTree

/-- A step that changes one file. -/
inductive FileStep where
  | write (path : Path) (content : Content)
  /-- A file under a new path, in place of what was there. -/
  | rename (source dest : Path)
  | remove (path : Path)
  deriving DecidableEq, Repr

namespace FileTree

/-- The place of a file that is written to a target. -/
def writable (t : FileTree) : Target → Except FileError Place
  | .directory _ => .error .isDirectory
  | .named parent name endsOpen =>
      if endsOpen || t.find? (parent ++ [name]) = some .directory then .error .isDirectory
      else .ok (parent ++ [name])

/-- The place and content of the file at a target. -/
def existing (t : FileTree) : Target → Except FileError (Place × Content)
  | .directory _ => .error .isDirectory
  | .named parent name endsOpen =>
      match t.find? (parent ++ [name]) with
      | none => .error .notFound
      | some .directory => .error .isDirectory
      | some (.file content) =>
          if endsOpen then .error .notDirectory else .ok (parent ++ [name], content)

/-- Moves the file at one target to another one. -/
def move (t : FileTree) : Target → Target → Except FileError FileTree
  | .named parent name endsOpen, .named parent' name' endsOpen' => do
      let (place, content) ← t.existing (.named parent name endsOpen)
      if endsOpen' then throw .notDirectory
      let place' ← t.writable (.named parent' name' false)
      return (t.erase place).put place' (.file content)
  | _, _ => .error .busy

/-- Performs a step. -/
def perform (t : FileTree) : FileStep → Except FileError FileTree
  | .write path content => do
      let place ← t.writable (← t.target path)
      return t.put place (.file content)
  | .rename source dest => do t.move (← t.target source) (← t.target dest)
  | .remove path => do
      let (place, _) ← t.existing (← t.target path)
      return t.erase place

/-! ## Directories -/

/-- Follows names from a place and makes the directories that are missing, as far as nothing
    stands in the way. -/
def makeAll (t : FileTree) : Place → List String → Except FileError Unit × FileTree
  | _, [] => (.ok (), t)
  | place, name :: rest =>
      match t.enter place name with
      | .ok dir => t.makeAll dir rest
      | .error .notFound =>
          (t.put (place ++ [name]) .directory).makeAll (place ++ [name]) rest
      | .error e => (.error e, t)

/-- Makes a directory and those above it.  What was made before a failure stays.  The last name is
    not made when a dot stands behind it: it has to be a directory already. -/
def makeDirectories (t : FileTree) (p : Path) : Except FileError Unit × FileTree :=
  match p.checkText with
  | .error e => (.error e, t)
  | .ok () =>
      let start := if p.isAbsolute then [] else t.workingDir
      let names := p.steps.filter (· ≠ ".")
      if p.steps.getLast? = some "." then
        let (made, t) := t.makeAll start names.dropLast
        (made.bind fun _ => (t.enterAll start names).map fun _ => (), t)
      else t.makeAll start names

/-- The tree without anything below a directory. -/
def clear (t : FileTree) (dir : Place) : FileTree :=
  { t with entries := t.entries.filter fun e => (relative? dir e.1).isNone }

/-- Removes a file, or a directory with all that is in it, and tells whether it is gone.  A
    directory that the path names by dots loses what is in it and stays. -/
def removeAll (t : FileTree) (p : Path) : Bool × FileTree :=
  match t.target p, t.entryAt p with
  | .ok (.directory place), _ => (false, t.clear place)
  | _, .ok (place, _) => (true, (t.clear place).erase place)
  | _, .error _ => (false, t)

end FileTree

end ServiceWiring
