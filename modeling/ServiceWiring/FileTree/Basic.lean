/-!
# File trees

A file system without links: places hold directories or files, and one directory is the working
directory.  A tree is seen through `FileTree.find?`.

* `FileTree.put`, `FileTree.erase` — one place changed, all others kept;
* `FileTree.below` — everything below a directory, each directory in front of its entries;
* `FileTree.changes` — the files that differ between two trees.
-/

namespace ServiceWiring

/-- A place in a tree: the names from the root down. -/
abbrev Place := List String

/-- What a file holds. -/
inductive Content where
  | text (s : String)
  /-- Bytes that are no UTF-8 text. -/
  | bytes (data : List UInt8)
  deriving DecidableEq, Repr

/-- The content of the given bytes. -/
def Content.ofBytes (data : List UInt8) : Content :=
  match String.fromUTF8? ⟨data.toArray⟩ with
  | some s => .text s
  | none => .bytes data

/-- What is at a place. -/
inductive Entry where
  | directory
  | file (content : Content)
  deriving DecidableEq, Repr

/-- A file system. -/
structure FileTree where
  /-- The entries below the root. -/
  entries : List (Place × Entry) := []
  workingDir : Place := []
  deriving Repr

namespace FileTree

/-- What is at a place.  The root is a directory. -/
def find? (t : FileTree) (place : Place) : Option Entry :=
  if place = [] then some .directory
  else (t.entries.find? fun e => e.1 = place).map (·.2)

/-- The tree without a place. -/
def erase (t : FileTree) (place : Place) : FileTree :=
  { t with entries := t.entries.filter fun e => e.1 ≠ place }

/-- The tree with an entry at a place. -/
def put (t : FileTree) (place : Place) (entry : Entry) : FileTree :=
  { t with entries := (place, entry) :: (t.erase place).entries }

@[simp]
theorem find?_put_self (t : FileTree) {place : Place} (h : place ≠ []) (entry : Entry) :
    (t.put place entry).find? place = some entry := by
  simp [find?, put, h]

theorem find?_put_of_ne (t : FileTree) {place other : Place} (h : other ≠ place) (entry : Entry) :
    (t.put place entry).find? other = t.find? other := by
  simp only [find?, put, erase]
  split
  · rfl
  · congr 1
    simp only [List.find?_cons, decide_eq_false (Ne.symm h), List.find?_filter]
    congr 1
    funext e
    by_cases he : e.1 = other <;> simp [he, h]

theorem find?_erase_self (t : FileTree) {place : Place} (h : place ≠ []) :
    (t.erase place).find? place = none := by
  simp [find?, erase, h, List.find?_filter]

theorem find?_erase_of_ne (t : FileTree) {place other : Place} (h : other ≠ place) :
    (t.erase place).find? other = t.find? other := by
  simp only [find?, erase]
  split
  · rfl
  · congr 1
    rw [List.find?_filter]
    congr 1
    funext e
    by_cases he : e.1 = other <;> simp [he, h]

/-! ## Listing -/

/-- The names that lead from a directory to a place below it. -/
def relative? (dir place : Place) : Option Place :=
  if dir.isPrefixOf place && dir.length < place.length then some (place.drop dir.length) else none

/-- Everything below a directory, by the names that lead there, in their order. -/
def below (t : FileTree) (dir : Place) : List (Place × Entry) :=
  (t.entries.filterMap fun e => (relative? dir e.1).map (·, e.2)).mergeSort
    fun a b => (List.compareLex compare a.1 b.1).isLE

/-- The entries of a directory. -/
def children (t : FileTree) (dir : Place) : List (String × Entry) :=
  (t.below dir).filterMap fun
    | ([name], entry) => some (name, entry)
    | _ => none

/-- The files below a directory. -/
def filesBelow (t : FileTree) (dir : Place) : List (Place × Content) :=
  (t.below dir).filterMap fun
    | (place, .file content) => some (place, content)
    | (_, .directory) => none

/-- The files below a directory that are new or changed in `after`, with their content, and those
    that are gone. -/
def changes (before after : FileTree) (dir : Place) : List (Place × Option Content) :=
  let old := before.filesBelow dir
  let new := after.filesBelow dir
  (new.filter (!old.contains ·)).map (fun (place, content) => (place, some content))
    ++ (old.filter fun (place, _) => new.all (·.1 ≠ place)).map fun (place, _) => (place, none)

end FileTree

end ServiceWiring
