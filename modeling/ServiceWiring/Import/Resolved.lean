import ServiceWiring.Import.TypeExpr

/-!
# Resolved imports

Generated code collects imports from several files, each with names of its own.  Resolving them
gives one list in which no path and no name stands twice:

* entries of one path merge; the longest name wins, among equally long ones the first;
* a name that an earlier entry has, or that a generated function uses for itself, gets a number:
  `name_1`, `name_2` and so on.

`ResolvedImports.ofEntries` checks the outcome once more and would report an ambiguity.
-/

namespace ServiceWiring

open Text

/-- Two resolved imports that cannot be told apart. -/
structure ImportAmbiguity where
  name : String
  paths : List String
  deriving DecidableEq, Repr

/-- The words for an ambiguity. -/
def ImportAmbiguity.message (a : ImportAmbiguity) : String :=
  s!"import alias `{a.name}` is ambiguous between " ++ String.intercalate ", " a.paths

/-- Imports that agree on their names, in order of first appearance. -/
structure ResolvedImports where
  entries : List ImportEntry
  deriving DecidableEq, Repr

namespace ResolvedImports

/-- Adds an entry to merged ones.  A longer name replaces the one its path had. -/
def mergeInto (merged : List ImportEntry) (entry : ImportEntry) : List ImportEntry :=
  if merged.any fun m => m.path == entry.path then
    merged.map fun m =>
      if m.path == entry.path && m.name.utf8ByteSize < entry.name.utf8ByteSize then entry else m
  else merged ++ [entry]

/-- Entries merged by path. -/
def merge (entries : List ImportEntry) : List ImportEntry :=
  entries.foldl mergeInto []

/-- A name with a number behind it. -/
def numbered (base : String) (n : Nat) : String :=
  s!"{base}_{n}"

/-- The base with the least number from one on that makes it differ from all taken names.  Of
    one number more than there are taken names, some number does. -/
def freshName (taken : List String) (base : String) : String :=
  let candidates := (List.range (taken.length + 1)).map fun i => numbered base (i + 1)
  (candidates.find? fun name => !taken.contains name).getD base

/-- The name an entry gets behind entries with the taken names. -/
def finalName (taken : List String) (name : String) : String :=
  if taken.contains name || isGeneratedLocal name then freshName taken name else name

/-- Renames entries in order. -/
def renameFrom (taken : List String) : List ImportEntry → List ImportEntry
  | [] => []
  | entry :: rest =>
      let name := finalName taken entry.name
      { entry with name } :: renameFrom (taken ++ [name]) rest

/-- The first entry that shares its name or its path with an earlier one. -/
def ambiguity? (seen : List ImportEntry) : List ImportEntry → Option ImportAmbiguity
  | [] => none
  | entry :: rest =>
      match seen.find? fun s => s.name == entry.name with
      | some other => some ⟨entry.name, [other.path, entry.path]⟩
      | none =>
          if seen.any fun s => s.path == entry.path then some ⟨entry.name, [entry.path]⟩
          else ambiguity? (seen ++ [entry]) rest

/-- Resolves the collected entries. -/
def ofEntries (entries : List ImportEntry) : Except ImportAmbiguity ResolvedImports :=
  let renamed := renameFrom [] (merge entries)
  match ambiguity? [] renamed with
  | some a => .error a
  | none => .ok ⟨renamed⟩

/-- The name of a path. -/
def nameOf? (imports : ResolvedImports) (path : String) : Option String :=
  (imports.entries.find? fun e => e.path == path).map (·.name)

/-- The name of a package of the standard library. -/
def nameOfStandard (imports : ResolvedImports) (path : String) : String :=
  (imports.nameOf? path).getD path

/-- The text of a type under the resolved names. -/
def renderType (imports : ResolvedImports) (type : TypeExpr) : String :=
  type.renderWith imports.nameOf?

/-- An import line.  The name is written only where it differs from the conventional one. -/
def importLine (entry : ImportEntry) : String :=
  if entry.name == ImportEntry.conventionalName entry.path then s!"\t\"{entry.path}\""
  else s!"\t{entry.name} \"{entry.path}\""

/-- The lines of a group of imports, sorted by path. -/
def groupLines (entries : List ImportEntry) : List String :=
  (entries.mergeSort fun a b => (Ord.compare a.path b.path).isLE).map importLine

/-- The import block: the standard library, an empty line, and the rest.  Without imports there
    is no block. -/
def blockLines (imports : ResolvedImports) : List String :=
  if imports.entries.isEmpty then []
  else
    let standard := groupLines (imports.entries.filter (·.isStandard))
    let others := groupLines (imports.entries.filter fun e => !e.isStandard)
    let gap := if standard.isEmpty || others.isEmpty then [] else [""]
    "import (" :: standard ++ gap ++ others ++ [")"]

end ResolvedImports

end ServiceWiring
