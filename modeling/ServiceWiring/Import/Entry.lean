import ServiceWiring.Text.Blank

/-!
# Imports

An import pairs the path of a package with the name code uses for it.

* `ImportEntry.conventionalName` — the name a package has by convention, read off its path;
* `ImportEntry.isStandard` — whether the package belongs to the standard library;
* `isGeneratedLocal` — the names that generated functions use for their own variables and
  parameters, and that no import may have.
-/

namespace ServiceWiring

open Text

/-- A package path and the name it goes by. -/
structure ImportEntry where
  path : String
  name : String
  deriving DecidableEq, Repr

namespace ImportEntry

/-- Whether a path segment is a major version such as `v2`. -/
def isMajorVersion : List Char → Bool
  | 'v' :: digits => !digits.isEmpty && digits.all Char.isDigit
  | _ => false

/-- The last path segment, or the one before it when the last is a major version. -/
def lastSegment (path : List Char) : List Char :=
  match (splitWhere (· == '/') path).reverse with
  | last :: previous :: _ => if isMajorVersion last then previous else last
  | [last] => last
  | [] => []

/-- A segment without a version suffix such as `.v3`. -/
def dropVersion (segment : List Char) : List Char :=
  let back := segment.reverse
  match back.dropWhile Char.isDigit with
  | 'v' :: '.' :: rest =>
      if (back.takeWhile Char.isDigit).isEmpty then segment else rest.reverse
  | _ => segment

/-- The name a package has by convention: the last segment of its path without version parts
    and without a leading `go-`, with hyphens and dots as underscores. -/
def conventionalName (path : String) : String :=
  let segment := dropVersion (lastSegment path.toList)
  let plain := (after? "go-".toList segment).getD segment
  String.ofList (plain.map fun c => if c = '-' || c = '.' then '_' else c)

/-- An import under the conventional name. -/
def conventional (path : String) : ImportEntry :=
  ⟨path, conventionalName path⟩

/-- Paths of the standard library have no dot in their first segment. -/
def isStandard (entry : ImportEntry) : Bool :=
  !(entry.path.toList.takeWhile (· != '/')).contains '.'

end ImportEntry

/-- Variables and parameters of the generated functions. -/
def generatedLocals : List String :=
  ["r", "c", "cfg", "svc", "instance", "router", "ctx", "v", "ok", "parsed", "part", "err"]

/-- Whether a name is `stem` followed by decimal digits. -/
def isNumbered (stem : String) (name : String) : Bool :=
  match after? stem.toList name.toList with
  | some digits => !digits.isEmpty && digits.all Char.isDigit
  | none => false

/-- Whether an import of this name would be hidden inside a generated function. -/
def isGeneratedLocal (name : String) : Bool :=
  generatedLocals.contains name || isNumbered "arg" name || isNumbered "res" name

end ServiceWiring
