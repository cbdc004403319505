import ServiceWiring.Text.Blank

/-!
# The code of a source line

Comments and the contents of literals must not be taken for code.  `Code.ofLines` removes
comments and empties literals line by line.  The delimiters of a literal stay, so that a line
that holds nothing but a literal still counts as code.

Block comments and raw strings run across line ends; other literals end with their line at the
latest.
-/

namespace ServiceWiring.Code

/-- Where the reading of a line stands. -/
inductive State where
  /-- In code. -/
  | code
  /-- In a block comment. -/
  | comment
  /-- In a raw string. -/
  | raw
  /-- In a literal with the given delimiter. -/
  | literal (quote : Char)
  /-- Behind a backslash in such a literal. -/
  | escape (quote : Char)
  deriving DecidableEq, Repr

/-- The code of the rest of a line, and the state at the start of the next line. -/
def ofLine : State → List Char → List Char × State
  | .literal q, [] => ([q], .code)
  | .escape q, [] => ([q], .code)
  | state, [] => ([], state)
  | .comment, '*' :: '/' :: cs =>
      let (out, state) := ofLine .code cs
      (' ' :: out, state)
  | .comment, _ :: cs => ofLine .comment cs
  | .raw, c :: cs =>
      if c = '\x60' then
        let (out, state) := ofLine .code cs
        (c :: out, state)
      else ofLine .raw cs
  | .escape q, _ :: cs => ofLine (.literal q) cs
  | .literal q, c :: cs =>
      if c = '\\' then ofLine (.escape q) cs
      else if c = q then
        let (out, state) := ofLine .code cs
        (q :: out, state)
      else ofLine (.literal q) cs
  | .code, '/' :: '/' :: _ => ([], .code)
  | .code, '/' :: '*' :: cs => ofLine .comment cs
  | .code, c :: cs =>
      let next : State :=
        if c = '\x60' then .raw else if c = '"' || c = '\'' then .literal c else .code
      let (out, state) := ofLine next cs
      (c :: out, state)

/-- The code of consecutive lines, from the state the first of them starts in. -/
def ofLinesFrom : State → List (List Char) → List (List Char)
  | _, [] => []
  | state, line :: rest =>
      let (out, next) := ofLine state line
      out :: ofLinesFrom next rest

/-- The code of the lines of a file. -/
def ofLines (lines : List (List Char)) : List (List Char) :=
  ofLinesFrom .code lines

/-- The change of brace depth over a piece of code. -/
def braceChange : List Char → Int
  | [] => 0
  | c :: cs => (if c = '\x7b' then 1 else if c = '\x7d' then -1 else 0) + braceChange cs

/-- The change of parenthesis depth over a piece of code. -/
def parenChange : List Char → Int
  | [] => 0
  | c :: cs => (if c = '(' then 1 else if c = ')' then -1 else 0) + parenChange cs

end ServiceWiring.Code
