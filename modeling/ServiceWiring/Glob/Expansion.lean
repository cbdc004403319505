import ServiceWiring.FileTree.Access
import ServiceWiring.Glob.Pattern

/-!
# Expanding path patterns

The paths of a tree that match a path pattern.  The pattern is taken component by component: a
component without wildcards is followed by its name, one with wildcards is matched against the
names in the directory reached so far, and `**` stands for all names below that directory.

Paths found from the working directory are spelled without a dot in front.
-/

namespace ServiceWiring

open Text

namespace GlobPattern

/-- The path of an entry, by the names that lead to it from a path. -/
def spell (current : Path) : List String → Path
  | [] => current
  | name :: rest =>
      rest.foldl Path.child (if current.same ⟨"."⟩ then ⟨name⟩ else current.child name)

/-- Whether a component can be followed by its name alone. -/
def canFollow (t : FileTree) (current next : Path) (name : String) : Bool :=
  if name = "." || name = ".." then (t.directory? current).isSome else t.exists? next

/-- The dots that a component matches, which has to start with one itself. -/
def dotsFor (p : GlobPattern) : List String :=
  if p.tokens.head? = some (.char '.') then
    ["..", "."].filter fun dots => p.isMatch dots.toList
  else []

/-- The paths that match components from a path on. -/
def expandFrom (t : FileTree) (current : Path) : List GlobPattern → List Path
  | [] => [current]
  | p :: rest =>
      match p.literal?.map String.ofList with
      | some name =>
          let next := spell current [name]
          if canFollow t current next name then expandFrom t next rest else []
      | none =>
          match t.directory? current with
          | none => []
          | some place =>
              if p.isRecursive then
                (t.below place).flatMap fun (names, entry) =>
                  let path := spell current names
                  match rest with
                  | [] => if entry = .directory then [path] else []
                  | q :: more =>
                      if q.isMatch (names.getLastD "").toList then expandFrom t path more else []
              else
                (p.dotsFor.flatMap fun dots => expandFrom t (current.child dots) rest)
                  ++ (t.children place).flatMap fun (name, _) =>
                    if p.isMatch name.toList then expandFrom t (spell current [name]) rest else []

/-- Components where a run of `**` is one. -/
def collapse : List GlobPattern → List GlobPattern
  | p :: q :: rest =>
      if p.isRecursive && q.isRecursive then collapse (q :: rest) else p :: collapse (q :: rest)
  | ps => ps

/-- The components of a path pattern; none if it, or one of them, is no pattern.  A separator at
    the end does not count. -/
def components? (text : List Char) : Option (List GlobPattern) :=
  let whole := (parse text).toOption
  let pieces := splitWhere (· == '/') text
  let pieces := if pieces.getLast? = some [] then pieces.dropLast else pieces
  whole.bind fun _ => pieces.mapM fun piece => (parse piece).toOption

/-- The paths that match a path pattern. -/
def expand (t : FileTree) (pattern : Path) : List Path :=
  match pattern.text.toList with
  | '/' :: rest => ((components? rest).map collapse).elim [] (expandFrom t ⟨"/"⟩)
  | text => ((components? text).map collapse).elim [] (expandFrom t ⟨"."⟩)

end GlobPattern

end ServiceWiring
