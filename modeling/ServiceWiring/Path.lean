import ServiceWiring.Text.Blank

/-!
# Paths

A path is kept as it was spelled: reports and answers show the spelling.  Two paths are compared
by their parts, where repeated separators, `.` behind the start and a trailing separator do not
count.

* `Path.parts` — the parts of a path;
* `Path.join`, `Path.parent?`, `Path.fileName?`, `Path.sibling` — spelling-preserving steps;
* `Path.compare` — the order of paths, part by part;
* `Path.display` — the spelling shown to users.
-/

namespace ServiceWiring

open Text

/-- A part of a path. -/
inductive PathPart where
  | root
  /-- The dot a relative path starts with. -/
  | here
  | up
  | name (text : String)
  deriving DecidableEq, Repr

namespace PathPart

/-- The place of the parts that are no names, in front of all names. -/
def rank : PathPart → Nat
  | .root => 0
  | .here => 1
  | .up => 2
  | .name _ => 3

/-- The order of parts. -/
def compare : PathPart → PathPart → Ordering
  | .name a, .name b => Ord.compare a b
  | a, b => Ord.compare a.rank b.rank

end PathPart

/-- A path as it was spelled. -/
structure Path where
  text : String
  deriving DecidableEq, Repr

namespace Path

/-- The start of a path that is no part between separators, and the rest. -/
def lead : List Char → List Char × List Char
  | '/' :: rest => (['/'], rest)
  | ['.'] => (['.'], [])
  | '.' :: '/' :: rest => (['.'], '/' :: rest)
  | cs => ([], cs)

/-- The texts between the separators behind the lead. -/
def segments (cs : List Char) : List (List Char) :=
  splitWhere (· == '/') (lead cs).2

/-- Whether a segment names nothing. -/
def isVoid (segment : List Char) : Bool :=
  segment.isEmpty || segment == ['.']

/-- The part a segment stands for. -/
def partOf (segment : List Char) : PathPart :=
  if segment == ['.', '.'] then .up else .name (String.ofList segment)

/-- The parts of a path. -/
def parts (p : Path) : List PathPart :=
  let cs := p.text.toList
  let first : List PathPart :=
    match (lead cs).1 with
    | ['/'] => [.root]
    | ['.'] => [.here]
    | _ => []
  first ++ ((segments cs).filter fun s => !isVoid s).map partOf

/-- Whether a path starts at the root. -/
def isAbsolute (p : Path) : Bool :=
  p.text.toList.head? == some '/'

/-- A path below another one.  An absolute path stands for itself. -/
def join (base below : Path) : Path :=
  if below.isAbsolute then below
  else
    match base.text.toList.getLast? with
    | none => below
    | some '/' => ⟨base.text ++ below.text⟩
    | some _ => ⟨base.text ++ "/" ++ below.text⟩

/-- `join` with a plain text. -/
def child (base : Path) (name : String) : Path :=
  base.join ⟨name⟩

/-- Segments without the void ones at their end. -/
def dropVoid (segments : List (List Char)) : List (List Char) :=
  (segments.reverse.dropWhile isVoid).reverse

/-- The path without its last part; none for the root and the empty path. -/
def parent? (p : Path) : Option Path :=
  let cs := p.text.toList
  match (dropVoid (segments cs)).reverse with
  | _ :: rest =>
      let kept := dropVoid rest.reverse
      some ⟨String.ofList ((lead cs).1 ++ (['/'].intercalate kept))⟩
  | [] => if (lead cs).1 == ['.'] then some ⟨""⟩ else none

/-- The last part of a path when it is a name. -/
def fileName? (p : Path) : Option String :=
  match p.parts.getLast? with
  | some (.name text) => some text
  | _ => none

/-- The path with its last name replaced. -/
def sibling (p : Path) (name : String) : Path :=
  match p.fileName?, p.parent? with
  | some _, some dir => dir.child name
  | _, _ => p.child name

/-- What follows the last dot of the file name, unless the name starts with that dot. -/
def extension? (p : Path) : Option String :=
  match p.fileName? with
  | none => none
  | some name =>
      let back := name.toList.reverse
      let ext := back.takeWhile (· != '.')
      match back.dropWhile (· != '.') with
      | _ :: _ :: _ => some (String.ofList ext.reverse)
      | _ => none

/-- Whether the parts of `base` are the first parts of `p`. -/
def startsWith (p base : Path) : Bool :=
  base.parts.isPrefixOf p.parts

/-- The order of two lists of parts. -/
def compareParts : List PathPart → List PathPart → Ordering
  | [], [] => .eq
  | [], _ :: _ => .lt
  | _ :: _, [] => .gt
  | a :: as, b :: bs => (a.compare b).then (compareParts as bs)

/-- The order of paths. -/
def compare (p q : Path) : Ordering :=
  compareParts p.parts q.parts

/-- Whether two spellings have the same parts. -/
def same (p q : Path) : Bool :=
  p.parts == q.parts

/-- The spelling shown to users: forward slashes and no `./` in front. -/
def display (p : Path) : String :=
  let cs := p.text.toList.map fun c => if c = '\\' then '/' else c
  match cs with
  | '.' :: '/' :: rest => String.ofList rest
  | _ => String.ofList cs

end Path

end ServiceWiring
