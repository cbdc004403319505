import ServiceWiring.Proofs.Nesting
import ServiceWiring.Proofs.SourceRegion

/-!
# What a file declares is seen from its code

Of the raw lines of a file only the import table is read.  Its package, its declarations and fields,
and which lines hold code are the same for every file with the same code, so what stands in comments
and literals does not come into them.

* `LineFacts.withoutImport`, `Nesting.readAll_congr` — what lines of the same code declare;
* `SourceFile.SameDeclarations`, `SourceFile.sameDeclarations_of_code` — files of the same code;
* `SourceFile.sameDeclarations_of_replaced` — a character replaced in a comment or a literal.
-/

namespace ServiceWiring

open Text

/-! ## Lines of the same code -/

/-- What a line declares, but for its import. -/
def LineFacts.withoutImport (facts : LineFacts) : LineFacts :=
  { facts with importSpec := none }

/-- Of its raw text a line at depth zero gives only an import. -/
theorem withoutImport_readTopLevel (line : Nat) (raw raw' code : List Char)
    (following : List (List Char)) :
    (readTopLevel line raw code following).1.withoutImport
      = (readTopLevel line raw' code following).1.withoutImport := by
  unfold readTopLevel
  dsimp only
  split
  · rfl
  · split
    -- an import: all that the line gives is left out
    · split
      · rfl
      · rfl
    · rfl

theorem withoutImport_readAtDepthZero (group : Option Group) (line : Nat) (raw raw' code : List Char)
    (following : List (List Char)) :
    (readAtDepthZero group line raw code following).1.withoutImport
      = (readAtDepthZero group line raw' code following).1.withoutImport := by
  cases group with
  | none => exact withoutImport_readTopLevel line raw raw' code following
  | some group =>
      unfold readAtDepthZero
      dsimp only
      split
      · rfl
      · cases group with
        | imports => rfl
        | types => rfl
        | other => rfl

namespace Nesting

theorem withoutImport_read (nesting : Nesting) (line : Nat) (raw raw' code : List Char)
    (following : List (List Char)) :
    (nesting.read line raw code following).1.withoutImport
      = (nesting.read line raw' code following).1.withoutImport := by
  unfold read
  dsimp only
  by_cases hzero : (decide (nesting.depth = 0) && !(trim code).isEmpty) = true
  · rw [if_pos hzero, if_pos hzero]
    have hfacts := withoutImport_readAtDepthZero nesting.group line raw raw' code following
    exact congrArg (fun facts : LineFacts => { facts with field := nesting.fieldOn line code }) hfacts
  · rw [if_neg hzero, if_neg hzero]

/-- Lines of the same code declare the same, but for their imports. -/
theorem readAll_congr (nesting : Nesting) (line : Nat) {pairs pairs' : List (List Char × List Char)}
    (h : pairs.map (·.2) = pairs'.map (·.2)) :
    (nesting.readAll line pairs).map (·.withoutImport)
      = (nesting.readAll line pairs').map (·.withoutImport) := by
  induction pairs generalizing nesting line pairs' with
  | nil =>
      cases pairs' with
      | nil => rfl
      | cons pair pairs' => cases h
  | cons pair pairs ih =>
      cases pairs' with
      | nil => cases h
      | cons pair' pairs' =>
          obtain ⟨raw, code⟩ := pair
          obtain ⟨raw', code'⟩ := pair'
          obtain ⟨hcode, hrest⟩ := List.cons.inj h
          dsimp only at hcode
          subst hcode
          show (nesting.read line raw code (pairs.map (·.2))).1.withoutImport
              :: ((nesting.read line raw code (pairs.map (·.2))).2.readAll (line + 1) pairs).map _
            = (nesting.read line raw' code (pairs'.map (·.2))).1.withoutImport
              :: ((nesting.read line raw' code (pairs'.map (·.2))).2.readAll (line + 1) pairs').map _
          rw [hrest, read_snd, read_snd, withoutImport_read nesting line raw raw', ih _ _ hrest]

end Nesting

/-! ## Files of the same code -/

namespace SourceFile

/-- Two files have the same package, declare the same on the same lines, and hold code on the same
    lines. -/
structure SameDeclarations (file file' : SourceFile) : Prop where
  package : file'.index.package = file.index.package
  /-- With their names, kinds, receivers, parameters and results. -/
  declarations : file'.index.declarations = file.index.declarations
  fields : file'.index.fields = file.index.fields
  nextCodeLine : ∀ line, file'.nextCodeLine? line = file.nextCodeLine? line

theorem SameDeclarations.refl (file : SourceFile) : SameDeclarations file file :=
  ⟨rfl, rfl, rfl, fun _ => rfl⟩

variable {path path' : Path} {content content' : String}

/-- The index of a file is read off the facts of its lines. -/
theorem index_parse (path : Path) (content : String) : (parse path content).index =
    { package := ((facts content).filterMap (·.package)).getLast?.join
      imports := (facts content).filterMap (·.importSpec)
      declarations := (facts content).filterMap (·.declaration)
      fields := (facts content).filterMap (·.field) } :=
  rfl

theorem code_parse_eq (path : Path) (content : String) :
    (parse path content).code = Code.ofLines (Text.lines content.toList) :=
  rfl

theorem sameDeclarations_of_code (h : (parse path' content').code = (parse path content).code) :
    SameDeclarations (parse path content) (parse path' content') := by
  have hcode : ∀ content : String, ((Text.lines content.toList).zip
      (Code.ofLines (Text.lines content.toList))).map (·.2)
        = Code.ofLines (Text.lines content.toList) := by
    intro content
    exact List.map_snd_zip (Nat.le_of_eq (Code.length_ofLinesFrom _ _))
  have hfacts : (facts content').map (·.withoutImport) = (facts content).map (·.withoutImport) := by
    refine Nesting.readAll_congr _ _ ?_
    rw [hcode, hcode, ← code_parse_eq path', ← code_parse_eq path, h]
  -- what is read off the facts of a file is read off the facts without imports
  have hread : ∀ {β : Type} (part : LineFacts → Option β),
      (∀ facts, part facts.withoutImport = part facts) →
      (facts content').filterMap part = (facts content).filterMap part := by
    intro β part hpart
    have hwithout : ∀ all : List LineFacts,
        all.filterMap part = (all.map (·.withoutImport)).filterMap part := by
      intro all
      rw [List.filterMap_map]
      exact List.filterMap_congr fun facts _ => (hpart facts).symm
    rw [hwithout (facts content'), hfacts, ← hwithout]
  refine ⟨?_, ?_, ?_, ?_⟩
  · rw [index_parse, index_parse, hread (·.package) fun _ => rfl]
  · rw [index_parse, index_parse, hread (·.declaration) fun _ => rfl]
  · rw [index_parse, index_parse, hread (·.field) fun _ => rfl]
  · intro line
    unfold nextCodeLine?
    rw [h]

/-- What stands in a comment, an interpreted string, a rune literal or a raw string does not come
    into what a file declares: a character there can be replaced by any other one, as long as
    neither is a quote, a backslash, a star, a slash or the end of a line. -/
theorem sameDeclarations_of_replaced (path : Path) {front : List Char} {c c' : Char}
    (h : (Code.Region.code.behind front).isInside = true) (hc : Code.IsInert c)
    (hc' : Code.IsInert c') (back : List Char) :
    SameDeclarations (parse path (String.ofList (front ++ c :: back)))
      (parse path (String.ofList (front ++ c' :: back))) := by
  refine sameDeclarations_of_code ?_
  rw [code_parse_eq, code_parse_eq, String.toList_ofList, String.toList_ofList]
  exact Code.ofLines_replace h hc' hc back

/-- A struct up to the string in the tag of its second field, behind a comment with a quote. -/
def tagFront : List Char :=
  "package a\n\ntype T struct \x7b // it's\n\tN string\n\tA string \x60json:\"".toList

/-- The rest of the struct. -/
def tagBack : List Char :=
  "\"\x60\n\tB int\n\x7d\n".toList

/-- A brace in a tag closes no struct: the field on the line behind is still one of its fields. -/
theorem sameDeclarations_of_replaced_brace :
    SameDeclarations (parse ⟨"/s/a.go"⟩ (String.ofList (tagFront ++ 'a' :: tagBack)))
        (parse ⟨"/s/a.go"⟩ (String.ofList (tagFront ++ '\x7d' :: tagBack)))
      ∧ (parse ⟨"/s/a.go"⟩ (String.ofList (tagFront ++ '\x7d' :: tagBack))).index.fields.map (·.names)
        = [["N"], ["A"], ["B"]] :=
  ⟨sameDeclarations_of_replaced ⟨"/s/a.go"⟩ (by decide) (by decide) (by decide) tagBack,
    by decide +kernel⟩

end SourceFile

end ServiceWiring
