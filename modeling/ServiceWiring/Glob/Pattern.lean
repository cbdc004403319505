/-!
# Glob patterns

A pattern is a text with wildcards: `?` stands for any character, `*` for any run of characters,
`[...]` and `[!...]` for one character in or not in a set, and `**` as a whole path component for
any run of whole components.

* `GlobPattern.parse` — reads a pattern or tells where it is wrong;
* `GlobPattern.isMatch` — whether a whole text matches.  Wildcards match separators as well.
-/

namespace ServiceWiring

/-- A piece of a pattern. -/
inductive GlobToken where
  | char (c : Char)
  | anyChar
  | anySequence
  /-- Any run of whole components, with the separator behind it. -/
  | anyComponents
  /-- One character in one of the inclusive ranges. -/
  | within (ranges : List (Char × Char))
  /-- One character in none of the inclusive ranges. -/
  | outside (ranges : List (Char × Char))
  deriving DecidableEq, Repr

/-- What is wrong with a pattern. -/
inductive GlobFault where
  /-- Three or more stars in a row. -/
  | tooManyStars
  /-- Two stars that are not a whole component. -/
  | partialComponent
  /-- A character set without its end. -/
  | unclosedSet
  deriving DecidableEq, Repr

/-- A faulty pattern, with the position of the fault in characters. -/
structure GlobError where
  position : Nat
  fault : GlobFault
  deriving DecidableEq, Repr

/-- The words for a fault. -/
def GlobFault.message : GlobFault → String
  | .tooManyStars => "wildcards are either regular `*` or recursive `**`"
  | .partialComponent => "recursive wildcards must form a single path component"
  | .unclosedSet => "invalid range pattern"

/-- The words for a faulty pattern. -/
def GlobError.message (e : GlobError) : String :=
  s!"Pattern syntax error near position {e.position}: {e.fault.message}"

/-- A pattern. -/
structure GlobPattern where
  tokens : List GlobToken
  deriving DecidableEq, Repr

namespace GlobPattern

/-! ## Reading -/

/-- The ranges of a character set.  A hyphen between two characters makes a range of them. -/
def rangesOf : List Char → List (Char × Char)
  | [] => []
  | first :: '-' :: last :: rest => (first, last) :: rangesOf rest
  | c :: rest => (c, c) :: rangesOf rest

/-- The character set behind an opening bracket, and what follows its closing bracket.  The first
    character of a set never closes it. -/
def charSet? : List Char → Option (GlobToken × List Char)
  | '!' :: first :: rest =>
      match rest.dropWhile (· != ']') with
      | _ :: after => some (.outside (rangesOf (first :: rest.takeWhile (· != ']'))), after)
      | [] => none
  | '!' :: [] => none
  | first :: rest =>
      match rest.dropWhile (· != ']') with
      | _ :: after => some (.within (rangesOf (first :: rest.takeWhile (· != ']'))), after)
      | [] => none
  | [] => none

theorem length_charSet? {cs rest : List Char} {token : GlobToken}
    (h : charSet? cs = some (token, rest)) : rest.length ≤ cs.length := by
  unfold charSet? at h
  split at h
  · rename_i first more
    split at h
    · rename_i after hd
      simp only [Option.some.injEq, Prod.mk.injEq] at h
      have := (List.dropWhile_sublist (l := more) (· != ']')).length_le
      rw [hd, List.length_cons] at this
      rw [← h.2]
      simp only [List.length_cons]
      omega
    · simp at h
  · simp at h
  · rename_i first more _ _
    split at h
    · rename_i after hd
      simp only [Option.some.injEq, Prod.mk.injEq] at h
      have := (List.dropWhile_sublist (l := more) (· != ']')).length_le
      rw [hd, List.length_cons] at this
      rw [← h.2]
      simp only [List.length_cons]
      omega
    · simp at h
  · simp at h

/-- Adds a token for whole components, unless it would stand behind another one that is not the
    first token. -/
def pushComponents (tokens : List GlobToken) : List GlobToken :=
  if 1 < tokens.length && tokens.getLast? = some .anyComponents then tokens
  else tokens ++ [.anyComponents]

/-- Reads the rest of a pattern.  `before` is the character in front of the rest and `position`
    its place. -/
def parseFrom (position : Nat) (before : Option Char) (tokens : List GlobToken) (cs : List Char) :
    Except GlobError (List GlobToken) :=
  match cs with
  | [] => .ok tokens
  | '*' :: '*' :: '*' :: _ => .error ⟨position + 2, .tooManyStars⟩
  | '*' :: '*' :: rest =>
      if before.isNone || before = some '/' then
        match rest with
        | [] => .ok (pushComponents tokens)
        | '/' :: more => parseFrom (position + 3) (some '/') (pushComponents tokens) more
        | _ => .error ⟨position + 2, .partialComponent⟩
      else .error ⟨position - 1, .partialComponent⟩
  | '*' :: rest => parseFrom (position + 1) (some '*') (tokens ++ [.anySequence]) rest
  | '?' :: rest => parseFrom (position + 1) (some '?') (tokens ++ [.anyChar]) rest
  | '[' :: rest =>
      match h : charSet? rest with
      | none => .error ⟨position, .unclosedSet⟩
      | some (token, more) =>
          have : more.length ≤ rest.length := length_charSet? h
          parseFrom (position + 1 + (rest.length - more.length)) (some ']') (tokens ++ [token])
            more
  | c :: rest => parseFrom (position + 1) (some c) (tokens ++ [.char c]) rest
termination_by cs.length

/-- Reads a pattern. -/
def parse (text : List Char) : Except GlobError GlobPattern :=
  (parseFrom 0 none [] text).map GlobPattern.mk

/-- Whether the pattern stands for any run of components. -/
def isRecursive (p : GlobPattern) : Bool :=
  p.tokens.contains .anyComponents

/-- The text of a pattern without wildcards. -/
def literal? (p : GlobPattern) : Option (List Char) :=
  p.tokens.mapM fun
    | .char c => some c
    | _ => none

/-! ## Matching -/

/-- How a try at the rest of a text ends. -/
inductive Trial where
  | matched
  /-- A longer run in front may still match. -/
  | retry
  /-- The text is used up: no longer run in front can match. -/
  | exhausted
  deriving DecidableEq, Repr

/-- Whether a character is in one of the ranges. -/
def inRanges (c : Char) (ranges : List (Char × Char)) : Bool :=
  ranges.any fun (first, last) => first ≤ c && c ≤ last

/-- Whether a token for one character takes it. -/
def takes (c : Char) : GlobToken → Bool
  | .char d => c == d
  | .anyChar => true
  | .within ranges => inRanges c ranges
  | .outside ranges => !inRanges c ranges
  | _ => false

/-- Tries `rest` behind longer and longer runs of the text.  A run of whole components ends behind
    a separator, or with the text. -/
def sweep (components : Bool) (rest : List Char → Trial) : List Char → Trial
  | [] => rest []
  | c :: cs =>
      if components && c != '/' then sweep components rest cs
      else
        match rest cs with
        | .retry => sweep components rest cs
        | done => done

/-- Tries `rest` behind every run, the empty one first. -/
def sweepAll (components : Bool) (rest : List Char → Trial) (cs : List Char) : Trial :=
  match rest cs with
  | .retry => sweep components rest cs
  | done => done

/-- Tries tokens on a text. -/
def tryTokens : List GlobToken → List Char → Trial
  | [], [] => .matched
  | [], _ :: _ => .retry
  | .anySequence :: tokens, cs => sweepAll false (tryTokens tokens) cs
  | .anyComponents :: tokens, cs => sweepAll true (tryTokens tokens) cs
  | _ :: _, [] => .exhausted
  | token :: tokens, c :: cs => if takes c token then tryTokens tokens cs else .retry

/-- Whether a whole text matches a pattern. -/
def isMatch (p : GlobPattern) (text : List Char) : Bool :=
  tryTokens p.tokens text == .matched

end GlobPattern

end ServiceWiring
