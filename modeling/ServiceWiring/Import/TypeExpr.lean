import ServiceWiring.Text.Alphanumeric
import ServiceWiring.Source.Index

/-!
# Type expressions

The text of a Go type, with the packages its qualified names refer to.  A qualified name is an
ASCII identifier at a word boundary, a dot and another ASCII identifier.

* `TypeText.segments` — a text as qualified names and the characters between them;
* `TypeExpr.resolve` — a type with its qualifiers looked up in a file's import table;
* `TypeExpr.renderWith` — the text with its qualifiers renamed, all else unchanged.
-/

namespace ServiceWiring

open Text

namespace TypeText

/-- A piece of a type's text. -/
inductive Segment where
  | char (c : Char)
  | qualified (qualifier member : List Char)
  deriving DecidableEq, Repr

/-- The text of a segment. -/
def Segment.text : Segment → List Char
  | .char c => [c]
  | .qualified qualifier member => qualifier ++ '.' :: member

/-- The qualified name at the start of a text, and what follows it. -/
def qualified? (cs : List Char) : Option ((List Char × List Char) × List Char) :=
  match asciiName? cs with
  | some (qualifier, '.' :: rest) =>
      match asciiName? rest with
      | some (member, rest) => some ((qualifier, member), rest)
      | none => none
  | _ => none

theorem length_asciiName? {cs name rest : List Char} (h : asciiName? cs = some (name, rest)) :
    rest.length < cs.length := by
  cases cs with
  | nil => simp [asciiName?] at h
  | cons c cs =>
      rw [asciiName?] at h
      split at h
      · simp only [Option.some.injEq, Prod.mk.injEq] at h
        have := (List.dropWhile_sublist (l := cs) isAsciiNameChar).length_le
        rw [← h.2, List.length_cons]
        omega
      · simp at h

theorem length_qualified? {cs rest : List Char} {q : List Char × List Char}
    (h : qualified? cs = some (q, rest)) : rest.length < cs.length := by
  unfold qualified? at h
  split at h
  · rename_i hq
    split at h
    · rename_i hm
      simp only [Option.some.injEq, Prod.mk.injEq] at h
      have h1 := length_asciiName? hq
      have h2 := length_asciiName? hm
      rw [List.length_cons] at h1
      rw [← h.2]
      omega
    · simp at h
  · simp at h

/-- The segments of a text; `inWord` tells whether the character in front continues a word. -/
def segmentsFrom (inWord : Bool) (cs : List Char) : List Segment :=
  match cs with
  | [] => []
  | c :: rest =>
      match h : if inWord then none else qualified? (c :: rest) with
      | some ((qualifier, member), after) =>
          have : after.length ≤ rest.length := by
            split at h
            · simp at h
            · exact Nat.le_of_lt_succ (length_qualified? h)
          .qualified qualifier member :: segmentsFrom true after
      | none => .char c :: segmentsFrom (isWordChar c) rest
termination_by cs.length

/-- The segments of a text. -/
def segments (cs : List Char) : List Segment :=
  segmentsFrom false cs

end TypeText

/-- A type as written, with the imports its qualifiers stand for. -/
structure TypeExpr where
  text : String
  /-- The qualifiers that name an import, each once, in order of appearance. -/
  qualifiers : List (String × ImportEntry)
  deriving DecidableEq, Repr

namespace TypeExpr

/-- Adds a qualifier that is new and names an import of the file. -/
def addQualifier (index : DeclarationIndex) (found : List (String × ImportEntry))
    (qualifier : String) : List (String × ImportEntry) :=
  if found.any fun pair => pair.1 == qualifier then found
  else
    match index.importNamed? qualifier with
    | some entry => found ++ [(qualifier, entry)]
    | none => found

/-- A type with its qualifiers looked up in a file's import table. -/
def resolve (text : String) (index : DeclarationIndex) : TypeExpr :=
  let names := (TypeText.segments text.toList).filterMap fun
    | .qualified qualifier _ => some (String.ofList qualifier)
    | .char _ => none
  { text, qualifiers := names.foldl (addQualifier index) [] }

/-- The imports a type needs. -/
def imports (type : TypeExpr) : List ImportEntry :=
  type.qualifiers.map (·.2)

/-- Whether the type is the member `name` of the package `path`. -/
def isMember (type : TypeExpr) (path name : String) : Bool :=
  match type.text.toList.dropWhile (· != '.') with
  | _ :: rest =>
      let qualifier := String.ofList (type.text.toList.takeWhile (· != '.'))
      String.ofList rest == name
        && type.qualifiers.any fun pair => pair.1 == qualifier && pair.2.path == path
  | [] => false

/-- The text of the type with every qualifier that names an import spelled as `nameOf` tells for
    the package's path, if it tells. -/
def renderWith (nameOf : String → Option String) (type : TypeExpr) : String :=
  let rename (qualifier : String) : String :=
    match type.qualifiers.find? fun pair => pair.1 == qualifier with
    | some (_, entry) => (nameOf entry.path).getD qualifier
    | none => qualifier
  String.ofList ((TypeText.segments type.text.toList).flatMap fun
    | .char c => [c]
    | .qualified qualifier member =>
        (rename (String.ofList qualifier)).toList ++ '.' :: member)

end TypeExpr

end ServiceWiring
