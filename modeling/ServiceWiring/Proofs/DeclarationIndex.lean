import Mathlib.Data.List.Pairwise
import ServiceWiring.Proofs.DirectiveLine
import ServiceWiring.Proofs.Nesting
import ServiceWiring.Proofs.TypeRewriting

/-!
# The index of a file is well-formed

Whatever a file holds, balanced or not, its index tells what every line declares: one thing at
most, and a field only for the struct that was declared last.

* `parseField?_written` — a field that is read has names and a type;
* `Nesting.BelongsTo`, `Nesting.BelongsTo.read` — the open struct body is that of the last
  declaration, and every line keeps it so;
* `Owned`, `Nesting.owned_readAll` — the fields of all lines have their owner;
* `DeclarationIndex.WellFormed` — what a well-formed index is;
* `SourceFile.wellFormed_parse` — the index of every file is one.
-/

namespace ServiceWiring

open Text

variable {line : Nat} {raw code : List Char} {following : List (List Char)}

/-! ## Single declarations -/

/-- What is read with a receiver is a method. -/
theorem Declaration.Written.kind_of_receiver {d : Declaration} (h : d.Written)
    (hreceiver : d.receiver.isSome = true) : d.kind = .method := by
  rcases h with ⟨spec, line, h⟩ | ⟨signature, line, h⟩
  · -- a type has no receiver
    rw [parseTypeSpec?] at h
    split at h
    · cases h
    · rw [← Option.some.inj h] at hreceiver
      cases hreceiver
  · obtain ⟨rest, -, h⟩ := Option.bind_eq_some_iff.mp h
    obtain ⟨⟨receiver, rest⟩, -, h⟩ := Option.bind_eq_some_iff.mp h
    dsimp only at h
    split at h
    · cases h
    · obtain ⟨rest, -, h⟩ := Option.bind_eq_some_iff.mp h
      obtain ⟨⟨params, rest⟩, -, h⟩ := Option.bind_eq_some_iff.mp h
      obtain ⟨results, -, h⟩ := Option.bind_eq_some_iff.mp h
      rw [← Option.some.inj h] at hreceiver ⊢
      exact if_pos hreceiver

/-- The names in front of a type are ASCII identifiers, and there is one at least. -/
theorem names_of_mem_fieldSplitsFrom {first names : List (List Char)} {rest behind : List Char}
    (hne : first ≠ []) (hfirst : ∀ name ∈ first, IsAsciiName name)
    (h : (names, behind) ∈ fieldSplitsFrom first rest) :
    names ≠ [] ∧ ∀ name ∈ names, IsAsciiName name := by
  fun_induction fieldSplitsFrom first rest with
  | case1 first rest ih =>
      rcases List.mem_cons.mp h with h | h
      · obtain ⟨rfl, -⟩ := Prod.mk.inj h
        exact ⟨hne, hfirst⟩
      · split at h
        · rename_i more ht
          split at h
          · rename_i name rest' hn
            refine ih more ht name rest' hn (List.concat_ne_nil name first) ?_ h
            intro other hother
            rcases List.mem_append.mp hother with hother | hother
            · exact hfirst other hother
            · rw [List.mem_singleton.mp hother]
              exact (isAsciiName_of_asciiName? hn).1
          · cases h
        · cases h

/-- The names and the type of a field, as they can be written down. -/
structure StructField.Written (f : StructField) : Prop where
  named : f.names ≠ []
  names : ∀ name ∈ f.names, IsAsciiName name.toList
  typed : f.type ≠ ""
  trimmed : trim f.type.toList = f.type.toList

/-- A text with something visible in it is not trimmed away. -/
theorem trim_ne_nil {cs : List Char} (h : trimStart cs ≠ []) : trim cs ≠ [] := by
  intro hempty
  rw [trim, trimEnd, trimEndWhere, List.reverse_eq_nil_iff, List.dropWhile_eq_nil_iff] at hempty
  have hblank : isBlank ((trimStart cs).head h) = true :=
    hempty _ (List.mem_reverse.mpr (List.head_mem h))
  have hhead : isBlank ((trimStart cs).head h) = false := List.head_dropWhile_not isBlank h
  rw [hblank] at hhead
  cases hhead

theorem parseField?_written {f : StructField} {owner : String}
    (h : parseField? code owner line = some f) : f.Written ∧ f.owner = owner := by
  rw [parseField?] at h
  dsimp only at h
  split at h
  · cases h
  · rename_i name rest hname
    obtain ⟨⟨names, behind⟩, hfound, rfl⟩ := Option.map_eq_some_iff.mp h
    have hmem := List.mem_reverse.mp (List.mem_of_find?_eq_some hfound)
    obtain ⟨hne, hnames⟩ := names_of_mem_fieldSplitsFrom (List.cons_ne_nil name [])
      (List.forall_mem_singleton.mpr (isAsciiName_of_asciiName? hname).1) hmem
    -- the split was taken because a type follows
    have hvisible : trimStart behind ≠ [] := by
      have htest := List.find?_some hfound
      rw [Bool.and_eq_true, Bool.not_eq_true', List.isEmpty_eq_false_iff] at htest
      exact htest.2
    refine ⟨⟨?_, ?_, ?_, ?_⟩, rfl⟩
    · show names.map String.ofList ≠ []
      rwa [Ne, List.map_eq_nil_iff]
    · intro text htext
      obtain ⟨other, hother, rfl⟩ := List.mem_map.mp htext
      rw [String.toList_ofList]
      exact hnames other hother
    · intro hempty
      have htype : trim behind = [] := by
        rw [← String.toList_ofList (l := trim behind)]
        exact congrArg String.toList hempty
      exact trim_ne_nil hvisible htype
    · show trim (String.ofList (trim behind)).toList = (String.ofList (trim behind)).toList
      rw [String.toList_ofList, trim_trim]

/-! ## The owner of a field -/

namespace Nesting

/-- The open struct body is that of the last declaration, and it lies inside of braces. -/
def BelongsTo (nesting : Nesting) (last : Option Declaration) : Prop :=
  ∀ owner body, nesting.openStruct = some (owner, body) →
    0 < body ∧ body ≤ nesting.depth ∧ ∃ d, last = some d ∧ d.kind = .struct ∧ d.name = owner

theorem belongsTo_empty (last : Option Declaration) : ({} : Nesting).BelongsTo last := by
  intro owner body h
  cases h

variable {nesting : Nesting} {last : Option Declaration}

/-- Only lines outside of all braces declare something. -/
theorem depth_of_declaration {d : Declaration}
    (h : (nesting.read line raw code following).1.declaration = some d) : nesting.depth = 0 := by
  by_contra hdepth
  have hnot : ¬ nesting.ReadsAtZero code := fun hzero => hdepth hzero.1
  have hnone := (read_of_not_readsAtZero hnot line raw following).1
  rw [hnone] at h
  cases h

/-- A body that is open behind a line was opened by a struct on it, or it was open in front of the
    line and still is. -/
theorem openStruct_cases {owner : String} {body : Int}
    (h : (nesting.next code).openStruct = some (owner, body)) (line : Nat) (raw : List Char)
    (following : List (List Char)) :
    body ≤ (nesting.next code).depth ∧
      ((∃ d, (nesting.read line raw code following).1.declaration = some d ∧ d.kind = .struct
          ∧ d.name = owner ∧ nesting.depth < body)
        ∨ nesting.openStruct = some (owner, body)) := by
  rw [nesting.openStruct_next line raw code following] at h
  unfold bodyBehind at h
  dsimp only at h
  split at h
  · rename_i owner' body' hbody
    split at h
    · cases h
    · rename_i hdepth
      obtain ⟨rfl, rfl⟩ := Prod.mk.inj (Option.some.inj h)
      refine ⟨Int.not_lt.mp hdepth, ?_⟩
      split at hbody
      · -- a struct on the line opens its body if the braces go deeper
        rename_i d hd
        split at hbody
        · rename_i hopens
          rw [Bool.and_eq_true, decide_eq_true_eq, decide_eq_true_eq] at hopens
          obtain ⟨rfl, rfl⟩ := Prod.mk.inj (Option.some.inj hbody)
          exact .inl ⟨d, hd, hopens.1, rfl, hopens.2⟩
        · exact .inr hbody
      · exact .inr hbody
  · cases h

/-- Every line keeps the open body with the last declaration. -/
theorem BelongsTo.read (h : nesting.BelongsTo last) (line : Nat) (raw code : List Char)
    (following : List (List Char)) :
    (nesting.next code).BelongsTo
      ((nesting.read line raw code following).1.declaration.or last) := by
  intro owner body hopen
  obtain ⟨hdepth, hcases⟩ := openStruct_cases hopen line raw following
  rcases hcases with ⟨d, hd, hkind, hname, hbody⟩ | hbefore
  · rw [depth_of_declaration hd] at hbody
    rw [hd]
    exact ⟨hbody, hdepth, d, rfl, hkind, hname⟩
  · obtain ⟨hpos, hinside, d, hlast, hstruct⟩ := h owner body hbefore
    -- inside of a body nothing is declared
    have hnone : (nesting.read line raw code following).1.declaration = none := by
      rw [Option.eq_none_iff_forall_ne_some]
      intro other hother
      have hzero := depth_of_declaration hother
      omega
    rw [hnone]
    exact ⟨hpos, hdepth, d, hlast, hstruct⟩

/-- A line with a field declares nothing, and the owner of the field is the last declaration. -/
theorem BelongsTo.field (h : nesting.BelongsTo last) {f : StructField}
    (hf : (nesting.read line raw code following).1.field = some f) :
    f.Written ∧ (nesting.read line raw code following).1.declaration = none
      ∧ ∃ d, last = some d ∧ d.kind = .struct ∧ d.name = f.owner := by
  have hfield : nesting.fieldOn line code = some f := hf
  rw [fieldOn] at hfield
  split at hfield
  · cases hfield
  · rename_i owner body hopen
    obtain ⟨hpos, hinside, d, hlast, hkind, hname⟩ := h owner body hopen
    dsimp only at hfield
    split at hfield
    · obtain ⟨hwritten, howner⟩ := parseField?_written hfield
      refine ⟨hwritten, ?_, d, hlast, hkind, hname.trans howner.symm⟩
      rw [Option.eq_none_iff_forall_ne_some]
      intro other hother
      have hzero := depth_of_declaration hother
      omega
    · cases hfield

end Nesting

/-- Whether every field among the facts of lines belongs to the struct that was declared last in
    front of it; `last` is what was declared last in front of all of them. -/
def Owned : Option Declaration → List LineFacts → Prop
  | _, [] => True
  | last, facts :: rest =>
      (∀ f, facts.field = some f → f.Written ∧ facts.declaration = none
        ∧ ∃ d, last = some d ∧ d.kind = .struct ∧ d.name = f.owner)
      ∧ Owned (facts.declaration.or last) rest

/-- The fields of a run of lines have their owners: by induction on the lines, the nesting in front
    of each belongs to the last declaration. -/
theorem Nesting.owned_readAll {nesting : Nesting} {last : Option Declaration}
    (h : nesting.BelongsTo last) (line : Nat) (pairs : List (List Char × List Char)) :
    Owned last (nesting.readAll line pairs) := by
  induction pairs generalizing nesting last line with
  | nil => exact trivial
  | cons pair pairs ih =>
      obtain ⟨raw, code⟩ := pair
      constructor
      · intro f hf
        exact h.field hf
      · show Owned _ ((nesting.read line raw code (pairs.map (·.2))).2.readAll (line + 1) pairs)
        rw [Nesting.read_snd]
        exact ih (h.read line raw code _) (line + 1)

/-- What was declared last in front of a line. -/
theorem Owned.of_append {last : Option Declaration} {front back : List LineFacts}
    {facts : LineFacts} (h : Owned last (front ++ facts :: back)) {f : StructField}
    (hf : facts.field = some f) :
    f.Written ∧ facts.declaration = none
      ∧ ∃ d, ((front.filterMap (·.declaration)).getLast?.or last) = some d
        ∧ d.kind = .struct ∧ d.name = f.owner := by
  induction front generalizing last with
  | nil => exact h.1 f hf
  | cons first front ih =>
      have hrest := ih h.2
      cases hdeclared : first.declaration with
      | none =>
          rw [hdeclared] at hrest
          rw [List.filterMap_cons_none hdeclared]
          exact hrest
      | some d =>
          rw [hdeclared, Option.some_or] at hrest
          rw [List.filterMap_cons_some hdeclared, List.getLast?_cons, Option.some_or]
          rw [Option.or_some] at hrest
          exact hrest

/-! ## Lines in order -/

namespace Nesting

variable {β : Type} {part : LineFacts → Option β} {number : β → Nat}

/-- What lines declare has the numbers of these lines. -/
theorem number_of_mem_readAll
    (hpart : ∀ (nesting : Nesting) line raw code following y,
      part (nesting.read line raw code following).1 = some y → number y = line)
    {nesting : Nesting} {line : Nat} {pairs : List (List Char × List Char)} {y : β}
    (h : y ∈ (nesting.readAll line pairs).filterMap part) :
    line ≤ number y ∧ number y < line + pairs.length := by
  obtain ⟨facts, hfacts, hy⟩ := List.mem_filterMap.mp h
  obtain ⟨n, hn⟩ := List.getElem?_of_mem hfacts
  rw [getElem?_readAll] at hn
  obtain ⟨pair, hpair, rfl⟩ := Option.map_eq_some_iff.mp hn
  have hnumber := hpart _ _ _ _ _ _ hy
  have hlength : n < pairs.length := (List.getElem?_eq_some_iff.mp hpair).1
  omega

theorem ascending_readAll
    (hpart : ∀ (nesting : Nesting) line raw code following y,
      part (nesting.read line raw code following).1 = some y → number y = line)
    (nesting : Nesting) (line : Nat) (pairs : List (List Char × List Char)) :
    ((nesting.readAll line pairs).filterMap part).Pairwise fun y z => number y < number z := by
  induction pairs generalizing nesting line with
  | nil => exact List.Pairwise.nil
  | cons pair pairs ih =>
      obtain ⟨raw, code⟩ := pair
      show (((nesting.read line raw code (pairs.map (·.2))).1
        :: (nesting.read line raw code (pairs.map (·.2))).2.readAll (line + 1) pairs).filterMap
          part).Pairwise fun y z => number y < number z
      cases hfirst : part (nesting.read line raw code (pairs.map (·.2))).1 with
      | none =>
          rw [List.filterMap_cons_none hfirst]
          exact ih _ _
      | some y =>
          rw [List.filterMap_cons_some hfirst]
          refine List.pairwise_cons.mpr ⟨?_, ih _ _⟩
          intro z hz
          have hline := hpart _ _ _ _ _ _ hfirst
          have hlater := (number_of_mem_readAll hpart hz).1
          omega

end Nesting

/-! ## Well-formed indexes -/

/-- Whether a list holds one entry for a line at most, each under its own line, of a file with so
    many lines. -/
structure ByLine {β : Type} (number : β → Nat) (entries : List β) (lines : Nat) : Prop where
  ascending : entries.Pairwise fun y z => number y < number z
  within : ∀ y ∈ entries, 1 ≤ number y ∧ number y ≤ lines

/-- What is listed by line is found under its line, and nothing else is found there. -/
theorem ByLine.find?_eq_some_iff {β : Type} {number : β → Nat} {entries : List β} {lines : Nat}
    (h : ByLine number entries lines) {n : Nat} {y : β} :
    entries.find? (fun z => number z == n) = some y ↔ y ∈ entries ∧ number y = n := by
  constructor
  · intro hfound
    exact ⟨List.mem_of_find?_eq_some hfound, by simpa using List.find?_some hfound⟩
  · rintro ⟨hy, rfl⟩
    have hfound : (entries.find? fun z => number z == number y).isSome = true := by
      rw [List.find?_isSome]
      exact ⟨y, hy, beq_self_eq_true _⟩
    obtain ⟨z, hz⟩ := Option.isSome_iff_exists.mp hfound
    have hnumber : number z = number y := by simpa using List.find?_some hz
    have hsame : z = y := by
      by_contra hne
      have hapart : entries.Pairwise fun a b => number a ≠ number b :=
        h.ascending.imp fun hlt => Nat.ne_of_lt hlt
      have hsymm : Std.Symm fun a b : β => number a ≠ number b := ⟨fun _ _ hapart => hapart.symm⟩
      exact hapart.forall (List.mem_of_find?_eq_some hz) hy hne hnumber
    rw [hz, hsame]

namespace DeclarationIndex

/-- A well-formed index of a file with so many lines. -/
structure WellFormed (index : DeclarationIndex) (lines : Nat) : Prop where
  /-- A declaration is stored under its own line, and nothing else is stored there. -/
  declarations : ∀ line d, index.declarationAt? line = some d ↔
    d ∈ index.declarations ∧ d.line = line
  fields : ∀ line f, index.fieldAt? line = some f ↔ f ∈ index.fields ∧ f.line = line
  /-- The lines are those of the file. -/
  declaredWithin : ∀ d ∈ index.declarations, 1 ≤ d.line ∧ d.line ≤ lines
  fieldsWithin : ∀ f ∈ index.fields, 1 ≤ f.line ∧ f.line ≤ lines
  /-- No line is both a declaration and a field. -/
  apart : ∀ d ∈ index.declarations, ∀ f ∈ index.fields, d.line ≠ f.line
  written : ∀ f ∈ index.fields, f.Written
  /-- Methods, and nothing else, have a receiver. -/
  receivers : ∀ d ∈ index.declarations, d.receiver.isSome = true ↔ d.kind = .method
  /-- The owner of a field is the nearest declaration in front of it, and that is a struct. -/
  owners : ∀ f ∈ index.fields, ∃ d ∈ index.declarations, d.line < f.line ∧ d.kind = .struct
    ∧ d.name = f.owner ∧ ∀ other ∈ index.declarations, other.line < f.line → other.line ≤ d.line

end DeclarationIndex

namespace SourceFile

variable {path : Path} {content : String}

/-- What the lines of a file declare is listed by line. -/
theorem byLine_facts {β : Type} {part : LineFacts → Option β} {number : β → Nat}
    (hpart : ∀ (nesting : Nesting) line raw code following y,
      part (nesting.read line raw code following).1 = some y → number y = line)
    (path : Path) (content : String) :
    ByLine number ((facts content).filterMap part) (parse path content).lines.length := by
  constructor
  · exact Nesting.ascending_readAll hpart {} 1 _
  · intro y hy
    have hrange := Nesting.number_of_mem_readAll hpart hy
    rw [List.length_zip] at hrange
    show _ ∧ _ ≤ ((Text.lines content.toList).map String.ofList).length
    rw [List.length_map]
    omega

theorem byLine_declarations (path : Path) (content : String) :
    ByLine (·.line) (parse path content).index.declarations (parse path content).lines.length :=
  byLine_facts (fun _ _ _ _ _ _ h => Nesting.line_of_declaration h) path content

theorem byLine_fields (path : Path) (content : String) :
    ByLine (·.line) (parse path content).index.fields (parse path content).lines.length :=
  byLine_facts (fun _ _ _ _ _ _ h => Nesting.line_of_field h) path content

/-- The facts of a line have its number. -/
theorem line_of_getElem?_facts {i : Nat} {x : LineFacts} (hx : (facts content)[i]? = some x) :
    (∀ d, x.declaration = some d → d.line = 1 + i) ∧ ∀ f, x.field = some f → f.line = 1 + i := by
  rw [facts, Nesting.getElem?_readAll] at hx
  obtain ⟨pair, -, rfl⟩ := Option.map_eq_some_iff.mp hx
  exact ⟨fun d hd => Nesting.line_of_declaration hd, fun f hf => Nesting.line_of_field hf⟩

/-- A field is written down, and it belongs to the last of the declarations in front of it; no
    declaration stands on its line. -/
theorem owner_of_mem_fields {f : StructField} (hf : f ∈ (parse path content).index.fields) :
    f.Written ∧ ∃ front back : List Declaration,
      (parse path content).index.declarations = front ++ back
      ∧ (∀ d ∈ front, d.line < f.line) ∧ (∀ d ∈ back, f.line < d.line)
      ∧ ∃ d, front.getLast? = some d ∧ d.kind = .struct ∧ d.name = f.owner := by
  have hmem : f ∈ (facts content).filterMap (·.field) := hf
  obtain ⟨own, hown, hfield⟩ := List.mem_filterMap.mp hmem
  obtain ⟨before, behind, hsplit⟩ := List.append_of_mem hown
  have howned := Nesting.owned_readAll (Nesting.belongsTo_empty none) 1
    ((Text.lines content.toList).zip (Code.ofLines (Text.lines content.toList)))
  rw [show ({} : Nesting).readAll 1 _ = facts content from rfl, hsplit] at howned
  obtain ⟨hwritten, hnone, d, hlast, hkind, hname⟩ := howned.of_append hfield
  rw [Option.or_none] at hlast
  -- lines are numbered by their places, so an order of lines is one of places
  have hline : f.line = 1 + before.length := by
    have hplace : (facts content)[before.length]? = some own := by
      rw [hsplit, List.getElem?_append_right (Nat.le_refl _), Nat.sub_self]
      rfl
    exact (line_of_getElem?_facts hplace).2 f hfield
  refine ⟨hwritten, before.filterMap (·.declaration), behind.filterMap (·.declaration), ?_, ?_, ?_,
    d, hlast, hkind, hname⟩
  · show (facts content).filterMap (·.declaration) = _
    rw [hsplit, List.filterMap_append, List.filterMap_cons_none hnone]
  · intro other hother
    obtain ⟨x, hx, hdeclared⟩ := List.mem_filterMap.mp hother
    obtain ⟨i, hi⟩ := List.getElem?_of_mem hx
    have hlt : i < before.length := (List.getElem?_eq_some_iff.mp hi).1
    have hplace : (facts content)[i]? = some x := by
      rw [hsplit, List.getElem?_append_left hlt]
      exact hi
    have hother := (line_of_getElem?_facts hplace).1 other hdeclared
    omega
  · intro other hother
    obtain ⟨x, hx, hdeclared⟩ := List.mem_filterMap.mp hother
    obtain ⟨i, hi⟩ := List.getElem?_of_mem hx
    have hplace : (facts content)[before.length + (i + 1)]? = some x := by
      rw [hsplit, List.getElem?_append_right (Nat.le_add_right _ _), Nat.add_sub_cancel_left]
      exact hi
    have hother := (line_of_getElem?_facts hplace).1 other hdeclared
    omega

/-- The index of a file is well-formed. -/
theorem wellFormed_parse (path : Path) (content : String) :
    (parse path content).index.WellFormed (parse path content).lines.length where
  declarations := fun _ _ => (byLine_declarations path content).find?_eq_some_iff
  fields := fun _ _ => (byLine_fields path content).find?_eq_some_iff
  declaredWithin := (byLine_declarations path content).within
  fieldsWithin := (byLine_fields path content).within
  apart := by
    intro d hd f hf
    obtain ⟨-, front, back, hsplit, hfront, hback, -⟩ := owner_of_mem_fields hf
    rw [hsplit] at hd
    rcases List.mem_append.mp hd with hd | hd
    · exact Nat.ne_of_lt (hfront d hd)
    · exact Nat.ne_of_gt (hback d hd)
  written := fun f hf => (owner_of_mem_fields hf).1
  receivers := by
    intro d hd
    obtain ⟨facts, hfacts, hdeclared⟩ := List.mem_filterMap.mp hd
    have hwritten := Nesting.written_of_mem_readAll hfacts hdeclared
    exact ⟨hwritten.kind_of_receiver, hwritten.receiver⟩
  owners := by
    intro f hf
    obtain ⟨-, front, back, hsplit, hfront, hback, d, hlast, hkind, hname⟩ := owner_of_mem_fields hf
    obtain ⟨before, rfl⟩ := List.getLast?_eq_some_iff.mp hlast
    have hascending := (byLine_declarations path content).ascending
    rw [hsplit] at hascending ⊢
    have hd : d ∈ before ++ [d] := List.mem_concat_self ..
    refine ⟨d, List.mem_append_left _ hd, hfront d hd, hkind, hname, ?_⟩
    intro other hother hline
    rcases List.mem_append.mp hother with hother | hother
    · rcases List.mem_append.mp hother with hother | hother
      · -- the lines ascend up to the last declaration in front
        have hpairs := (List.pairwise_append.mp (List.pairwise_append.mp hascending).1).2.2
        exact Nat.le_of_lt (hpairs other hother d (List.mem_singleton_self d))
      · rw [List.mem_singleton.mp hother]
    · have hbehind := hback other hother
      omega

end SourceFile

end ServiceWiring
