import ServiceWiring.Text.Blank
import ServiceWiring.Text.Alphanumeric
import ServiceWiring.Import.Entry

/-!
# Declarations

What a Go file declares, as far as directives need to know it: imports, types, functions,
methods and struct fields, and the readers for single declarations.  The readers work on code
without comments and literal contents.
-/

namespace ServiceWiring

open Text

/-- The kinds of top-level declarations. -/
inductive DeclarationKind where
  | struct
  | interface
  | typeName
  | function
  | method
  deriving DecidableEq, Repr

/-- The word for a kind in reports. -/
def DeclarationKind.describe : DeclarationKind → String
  | .struct => "struct"
  | .interface => "interface"
  | .typeName => "type alias"
  | .function => "function"
  | .method => "method"

/-- A parameter; without a name its name is empty. -/
structure Param where
  name : String
  type : String
  deriving DecidableEq, Repr

/-- A top-level declaration. -/
structure Declaration where
  name : String
  kind : DeclarationKind
  /-- The line it starts on, counted from one. -/
  line : Nat
  /-- The receiver's type name, for methods. -/
  receiver : Option String
  params : List Param
  results : List String
  deriving DecidableEq, Repr

/-- The fields declared on one line of a struct body. -/
structure StructField where
  names : List String
  type : String
  line : Nat
  /-- The enclosing struct. -/
  owner : String
  deriving DecidableEq, Repr

/-- An entry of a file's import table. -/
structure FileImport where
  entry : ImportEntry
  /-- Whether the name was written down. -/
  explicit : Bool
  line : Nat
  deriving DecidableEq, Repr

/-! ## Brackets -/

/-- The text up to the bracket that closes the one just opened, and what follows it; `depth`
    more brackets are open inside. -/
def closeBracket (opening closing : Char) : Nat → List Char → Option (List Char × List Char)
  | _, [] => none
  | depth, c :: cs =>
      if c = opening then
        (closeBracket opening closing (depth + 1) cs).map fun (inner, rest) => (c :: inner, rest)
      else if c = closing then
        match depth with
        | 0 => some ([], cs)
        | depth + 1 =>
            (closeBracket opening closing depth cs).map fun (inner, rest) => (c :: inner, rest)
      else (closeBracket opening closing depth cs).map fun (inner, rest) => (c :: inner, rest)

/-- The inside of the bracketed text at the start, and what follows it. -/
def takeBracketed (opening closing : Char) : List Char → Option (List Char × List Char)
  | c :: cs => if c = opening then closeBracket opening closing 0 cs else none
  | [] => none

/-- The parts of a text between the commas at bracket depth zero. -/
def splitOutside : Int → List Char → List (List Char)
  | _, [] => [[]]
  | depth, c :: cs =>
      if c = '(' || c = '[' || c = '\x7b' then extendHead c (splitOutside (depth + 1) cs)
      else if c = ')' || c = ']' || c = '\x7d' then extendHead c (splitOutside (depth - 1) cs)
      else if c = ',' && depth = 0 then [] :: splitOutside depth cs
      else extendHead c (splitOutside depth cs)

/-- The non-empty, trimmed parts between the commas outside of brackets. -/
def splitTopLevel (cs : List Char) : List (List Char) :=
  ((splitOutside 0 cs).map trim).filter fun part => !part.isEmpty

/-! ## Parameters and functions -/

/-- Words that can start a type and are therefore no parameter names. -/
def typeKeywords : List String :=
  ["chan", "func", "map", "struct", "interface"]

/-- Reads an ASCII identifier, blanks and a rest that starts with a visible character. -/
def namedPiece? (cs : List Char) : Option (List Char × List Char) :=
  match asciiName? cs with
  | none => none
  | some (name, rest) =>
      if rest.head?.any isBlank && !(trimStart rest).isEmpty then some (name, trimStart rest)
      else none

/-- Whether a piece of a parameter list is a name with its type. -/
def isNamedParam (piece : List Char) : Bool :=
  match namedPiece? piece with
  | some (name, _) => !typeKeywords.contains (String.ofList name)
  | none => false

/-- Reads the pieces of a list with names.  Names without a type wait for the next type. -/
def namedParams : List String → List (List Char) → List Param
  | _, [] => []
  | waiting, piece :: rest =>
      match namedPiece? piece with
      | some (name, type) =>
          let type := String.ofList (trim type)
          (waiting ++ [String.ofList name]).map (fun name => ⟨name, type⟩) ++ namedParams [] rest
      | none => namedParams (waiting ++ [String.ofList piece]) rest

/-- Reads a parameter list.  Either every parameter has a name or none has. -/
def parseParams (cs : List Char) : List Param :=
  let pieces := splitTopLevel cs
  if pieces.any isNamedParam then namedParams [] pieces
  else pieces.map fun piece => ⟨"", String.ofList piece⟩

/-- The type name of a receiver: the last word without stars and type parameters. -/
def receiverType? (inner : List Char) : Option String :=
  match (words inner).getLast? with
  | none => none
  | some word =>
      let base := (trimStartWhere (· == '*') word).takeWhile (· != '[')
      if base.isEmpty then none else some (String.ofList base)

/-- The receiver at the start of a signature, if it has one, and the rest.  None when a receiver
    is opened and cannot be read. -/
def splitReceiver? (cs : List Char) : Option (Option String × List Char) :=
  if cs.head? = some '(' then do
    let (inner, rest) ← takeBracketed '(' ')' cs
    let receiver ← receiverType? inner
    return (some receiver, trimStart rest)
  else some (none, cs)

/-- Drops a type parameter list at the start. -/
def skipTypeParams? (cs : List Char) : Option (List Char) :=
  if cs.head? = some '[' then
    (takeBracketed '[' ']' cs).map fun (_, rest) => trimStart rest
  else some cs

/-- The result types of a signature, read from the text behind the parameters. -/
def parseResults? (cs : List Char) : Option (List String) :=
  let text := trim (cs.takeWhile (· != '\x7b'))
  if text.head? = some '(' then
    (takeBracketed '(' ')' text).map fun (inner, _) => (parseParams inner).map (·.type)
  else if text.isEmpty then some []
  else some [String.ofList text]

/-- Reads a function or method signature. -/
def parseFunction? (signature : List Char) (line : Nat) : Option Declaration := do
  let rest ← after? "func".toList signature
  let (receiver, rest) ← splitReceiver? (trimStart rest)
  let name := rest.takeWhile isNameChar
  if name.isEmpty then none
  else
    let rest ← skipTypeParams? (trimStart (rest.dropWhile isNameChar))
    let (params, rest) ← takeBracketed '(' ')' rest
    let results ← parseResults? rest
    return {
      name := String.ofList name
      kind := if receiver.isSome then .method else .function
      line
      receiver
      params := parseParams params
      results }

/-! ## Types, fields and imports -/

/-- Whether a text starts with a keyword that ends there, at a blank or at a brace. -/
def startsWithKeyword (keyword : String) (cs : List Char) : Bool :=
  match after? keyword.toList cs with
  | some [] => true
  | some (c :: _) => isBlank c || c == '\x7b'
  | none => false

/-- Drops a bracketed list of type parameters directly behind a type's name. -/
def skipBrackets (cs : List Char) : List Char :=
  match cs with
  | '[' :: rest =>
      match rest.dropWhile (· != ']') with
      | _ :: rest => rest
      | [] => cs
  | _ => cs

/-- Reads a type specification such as `X struct` or `X = Y`. -/
def parseTypeSpec? (spec : List Char) (line : Nat) : Option Declaration :=
  match asciiName? spec with
  | none => none
  | some (name, rest) =>
      let body := trimStart (skipBrackets rest)
      let kind : DeclarationKind :=
        if body.head? = some '=' then .typeName
        else if startsWithKeyword "struct" (trim body) then .struct
        else if startsWithKeyword "interface" (trim body) then .interface
        else .typeName
      some {
        name := String.ofList name
        kind
        line
        receiver := none
        params := []
        results := [] }

/-- The ways to split a field line into its first names and the rest, shortest list of names
    first.  Names are separated by commas with blanks around them. -/
def fieldSplitsFrom (names : List (List Char)) (rest : List Char) :
    List (List (List Char) × List Char) :=
  (names, rest) ::
    match ht : trimStart rest with
    | ',' :: more =>
        match hn : asciiName? (trimStart more) with
        | some (name, rest') =>
            have : rest'.length < rest.length := by
              have h1 := (List.dropWhile_sublist (l := rest) isBlank).length_le
              have h2 := (List.dropWhile_sublist (l := more) isBlank).length_le
              have h3 : trimStart rest = rest.dropWhile isBlank := rfl
              have h4 : trimStart more = more.dropWhile isBlank := rfl
              rw [← h3, ht, List.length_cons] at h1
              rw [← h4] at h2
              have h5 : rest'.length ≤ (trimStart more).length := by
                cases hm : trimStart more with
                | nil => rw [hm] at hn; simp [asciiName?] at hn
                | cons c cs =>
                    rw [hm, asciiName?] at hn
                    split at hn
                    · simp only [Option.some.injEq, Prod.mk.injEq] at hn
                      rw [← hn.2]
                      exact Nat.le_trans
                        (List.dropWhile_sublist (l := cs) isAsciiNameChar).length_le
                        (Nat.le_succ _)
                    · simp at hn
              omega
            fieldSplitsFrom (names ++ [name]) rest'
        | none => []
    | _ => []
termination_by rest.length

/-- Reads a field line.  The longest list of names that leaves blanks and a type counts.  A tag
    behind the type is dropped. -/
def parseField? (code : List Char) (owner : String) (line : Nat) : Option StructField :=
  let text := trim (code.takeWhile (· != '\x60'))
  match asciiName? text with
  | none => none
  | some (name, rest) =>
      let typed := (fieldSplitsFrom [name] rest).reverse.find? fun (_, rest) =>
        rest.head?.any isBlank && !(trimStart rest).isEmpty
      typed.map fun (names, rest) => {
        names := names.map String.ofList
        type := String.ofList (trim rest)
        line
        owner }

/-- Reads an import specification.  Blank and dot imports name no package and give none. -/
def parseImport? (spec : List Char) (line : Nat) : Option FileImport :=
  let (written, rest) : Option (List Char) × List Char :=
    match spec with
    | '.' :: rest => (some ['.'], rest)
    | _ =>
        match asciiName? spec with
        | some (name, rest) => (some name, rest)
        | none => (none, spec)
  match trimStart rest with
  | '"' :: quoted =>
      let path := quoted.takeWhile (· != '"')
      if path.isEmpty || (quoted.dropWhile (· != '"')).isEmpty then none
      else
        let path := String.ofList path
        match written with
        | none =>
            if rest.head?.any isBlank then none
            else some ⟨.conventional path, false, line⟩
        | some name =>
            if !rest.head?.any isBlank || name == ['_'] || name == ['.'] then none
            else some ⟨⟨path, String.ofList name⟩, true, line⟩
  | _ => none

end ServiceWiring
