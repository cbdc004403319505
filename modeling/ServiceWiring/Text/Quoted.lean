/-!
# Interpreted string literals

`quote` writes a text as an interpreted string literal of Go: the double quote, the backslash,
the line feed and the tab are escaped, every other character stands for itself.
-/

namespace ServiceWiring.Text

/-- How one character is written inside an interpreted string literal. -/
def escapeChar (c : Char) : List Char :=
  if c = '"' then ['\\', '"']
  else if c = '\\' then ['\\', '\\']
  else if c = '\n' then ['\\', 'n']
  else if c = '\t' then ['\\', 't']
  else [c]

/-- A text as an interpreted string literal, quotes included. -/
def quoteChars (cs : List Char) : List Char :=
  '"' :: (cs.flatMap escapeChar ++ ['"'])

/-- `quoteChars` on strings. -/
def quote (s : String) : String :=
  String.ofList (quoteChars s.toList)

end ServiceWiring.Text
