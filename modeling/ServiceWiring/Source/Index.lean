import ServiceWiring.Source.Code
import ServiceWiring.Source.Declaration

/-!
# The declaration index of a file

A line-oriented view of a Go file: it answers what is declared on a line, and holds the table of
the file's imports.  Only lines at brace depth zero declare something, and only lines directly
inside the body of an indexed struct declare fields.

* `Nesting` — what the lines read so far mean for the next one: brace depth, open group and open
  struct body;
* `Nesting.read` — what one line declares, and the nesting behind it;
* `DeclarationIndex.ofCode` — the index of all lines.
-/

namespace ServiceWiring

open Text

/-- The parenthesised groups of top-level declarations. -/
inductive Group where
  | imports
  | types
  | other
  deriving DecidableEq, Repr

/-- What the lines above mean for a line. -/
structure Nesting where
  depth : Int := 0
  group : Option Group := none
  /-- The struct whose body is open, with the depth of that body. -/
  openStruct : Option (String × Int) := none
  deriving DecidableEq, Repr

/-- What a line declares. -/
structure LineFacts where
  /-- The name of a package clause; a clause may lack it. -/
  package : Option (Option String) := none
  importSpec : Option FileImport := none
  declaration : Option Declaration := none
  field : Option StructField := none
  deriving DecidableEq, Repr

/-- Signatures with more lines than this are cut. -/
def maxSignatureLines : Nat := 32

/-- The trimmed code lines of a signature, joined by blanks, up to the line that closes the
    last parenthesis. -/
def signatureText : Nat → Int → List Char → List (List Char) → List Char
  | 0, _, text, _ => text
  | _, _, text, [] => text
  | limit + 1, parens, text, line :: rest =>
      let text := if text.isEmpty then trim line else text ++ ' ' :: trim line
      let parens := parens + Code.parenChange line
      if parens ≤ 0 then text else signatureText limit parens text rest

/-- Drops every copy of a word at the start of a text; `skip` characters still belong to a copy
    already seen. -/
def dropLeadingFrom (word : List Char) : Nat → List Char → List Char
  | _, [] => []
  | skip + 1, _ :: cs => dropLeadingFrom word skip cs
  | 0, c :: cs =>
      if startsWith word (c :: cs) then dropLeadingFrom word (word.length - 1) cs else c :: cs

/-- The raw text of an import specification behind its keyword. -/
def importText (raw : List Char) : List Char :=
  trim (dropLeadingFrom "import".toList 0 (trim raw))

/-- What a line at depth zero outside of groups declares, and the group it opens. -/
def readTopLevel (line : Nat) (raw code : List Char) (following : List (List Char)) :
    LineFacts × Option Group :=
  let keyword := String.ofList ((trim code).takeWhile isNameChar)
  let rest := trimStart ((trim code).dropWhile isNameChar)
  let opensGroup := rest.head? = some '('
  if keyword = "package" then
    ({ package := some ((words rest).head?.map String.ofList) }, none)
  else if keyword = "import" then
    if opensGroup then ({}, some .imports)
    else ({ importSpec := parseImport? (importText raw) line }, none)
  else if keyword = "type" then
    if opensGroup then ({}, some .types)
    else ({ declaration := parseTypeSpec? rest line }, none)
  else if keyword = "var" || keyword = "const" then
    ({}, if opensGroup then some .other else none)
  else if keyword = "func" then
    let signature := signatureText maxSignatureLines 0 [] (code :: following)
    ({ declaration := parseFunction? signature line }, none)
  else ({}, none)

/-- What a line at depth zero declares, and the group open behind it. -/
def readAtDepthZero (group : Option Group) (line : Nat) (raw code : List Char)
    (following : List (List Char)) : LineFacts × Option Group :=
  match group with
  | none => readTopLevel line raw code following
  | some open_ =>
      if (trim code).head? = some ')' then ({}, none)
      else
        match open_ with
        | .imports => ({ importSpec := parseImport? (trim raw) line }, group)
        | .types => ({ declaration := parseTypeSpec? (trim code) line }, group)
        | .other => ({}, group)

namespace Nesting

/-- The field a line declares in the open struct body. -/
def fieldOn (nesting : Nesting) (line : Nat) (code : List Char) : Option StructField :=
  match nesting.openStruct with
  | none => none
  | some (owner, body) =>
      let text := trim code
      if nesting.depth = body && !text.isEmpty && text.head? != some '\x7d' then
        parseField? text owner line
      else none

/-- The struct body open behind a line, given the struct it declares and the depth behind it. -/
def bodyBehind (nesting : Nesting) (declared : Option Declaration) (depth : Int) :
    Option (String × Int) :=
  let opened :=
    match declared with
    | some d => if d.kind = DeclarationKind.struct && nesting.depth < depth then some (d.name, depth) else none
    | none => none
  match opened.or nesting.openStruct with
  | some (owner, body) => if depth < body then none else some (owner, body)
  | none => none

/-- What a line declares, and the nesting behind it. -/
def read (nesting : Nesting) (line : Nat) (raw code : List Char) (following : List (List Char)) :
    LineFacts × Nesting :=
  let (facts, group) :=
    if nesting.depth = 0 && !(trim code).isEmpty then
      readAtDepthZero nesting.group line raw code following
    else ({}, nesting.group)
  let depth := nesting.depth + Code.braceChange code
  ({ facts with field := nesting.fieldOn line code },
    { depth, group, openStruct := nesting.bodyBehind facts.declaration depth })

/-- What the lines of a nesting declare; `line` is the number of the first. -/
def readAll (nesting : Nesting) (line : Nat) : List (List Char × List Char) → List LineFacts
  | [] => []
  | (raw, code) :: rest =>
      let (facts, next) := nesting.read line raw code (rest.map (·.2))
      facts :: next.readAll (line + 1) rest

end Nesting

/-- What a file declares, line by line. -/
structure DeclarationIndex where
  package : Option String
  imports : List FileImport
  /-- In line order. -/
  declarations : List Declaration
  /-- In line order. -/
  fields : List StructField
  deriving DecidableEq, Repr

/-- What a line declares. -/
inductive LineTarget where
  | declaration (d : Declaration)
  | field (f : StructField)
  | other
  deriving DecidableEq, Repr

namespace DeclarationIndex

/-- The index of raw lines and their code. -/
def ofCode (raw code : List (List Char)) : DeclarationIndex :=
  let facts := ({} : Nesting).readAll 1 (raw.zip code)
  { package := (facts.filterMap (·.package)).getLast?.join
    imports := facts.filterMap (·.importSpec)
    declarations := facts.filterMap (·.declaration)
    fields := facts.filterMap (·.field) }

/-- The declaration that starts on a line. -/
def declarationAt? (index : DeclarationIndex) (line : Nat) : Option Declaration :=
  index.declarations.find? fun d => d.line == line

/-- The fields declared on a line. -/
def fieldAt? (index : DeclarationIndex) (line : Nat) : Option StructField :=
  index.fields.find? fun f => f.line == line

/-- What a line declares. -/
def targetAt (index : DeclarationIndex) (line : Nat) : LineTarget :=
  match index.declarationAt? line with
  | some d => .declaration d
  | none =>
      match index.fieldAt? line with
      | some f => .field f
      | none => .other

/-- The methods of a receiver type, in line order. -/
def methodsOf (index : DeclarationIndex) (receiver : String) : List Declaration :=
  index.declarations.filter fun d => d.kind == .method && d.receiver == some receiver

/-- The import a file refers to by a name. -/
def importNamed? (index : DeclarationIndex) (name : String) : Option ImportEntry :=
  (index.imports.find? fun i => i.entry.name == name).map (·.entry)

end DeclarationIndex

end ServiceWiring
