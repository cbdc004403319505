import ServiceWiring.FileTree.Access

/-!
# Replacing and removing files

A file is replaced in two steps: the new text goes to a temporary file beside it, and a rename
puts that in its place.  At no point does the path hold a part of the text.

* `FileTree.replaceFile` — replaces a file; what is left of a failed rename is removed;
* `FileTree.removeIfPresent` — removes a file that may be missing.
-/

namespace ServiceWiring

/-- Why a file cannot be replaced or removed. -/
inductive FileFailure where
  /-- The path ends in no name. -/
  | noFileName (path : Path)
  | write (path : Path) (error : FileError)
  | replace (path : Path) (error : FileError)
  | remove (path : Path) (error : FileError)
  deriving DecidableEq, Repr

/-- The words for a failure. -/
def FileFailure.message : FileFailure → String
  | .noFileName path => s!"Invalid output path: {path.text}"
  | .write path error => s!"Failed to write file: {path.text}: {error.message}"
  | .replace path error => s!"Failed to replace file: {path.text}: {error.message}"
  | .remove path error => s!"Failed to remove file: {path.text}: {error.message}"

/-- The temporary file beside a file. -/
def Path.temporary? (p : Path) : Option Path :=
  p.fileName?.map fun name => p.sibling s!".{name}.tmp"

namespace FileTree

/-- Replaces a file through its temporary file. -/
def replaceFile (t : FileTree) (path : Path) (text : String) :
    Except FileFailure Unit × FileTree :=
  match path.temporary? with
  | none => (.error (.noFileName path), t)
  | some temporary =>
      match t.perform (.write temporary (.text text)) with
      | .error e => (.error (.write temporary e), t)
      | .ok written =>
          match written.perform (.rename temporary path) with
          | .ok renamed => (.ok (), renamed)
          | .error e =>
              let cleaned := (written.perform (.remove temporary)).toOption.getD written
              (.error (.replace path e), cleaned)

/-- Removes a file and tells whether it was there. -/
def removeIfPresent (t : FileTree) (path : Path) : Except FileFailure Bool × FileTree :=
  match t.perform (.remove path) with
  | .ok removed => (.ok true, removed)
  | .error .notFound => (.ok false, t)
  | .error e => (.error (.remove path e), t)

end FileTree

end ServiceWiring
