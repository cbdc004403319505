import ServiceWiring.Proofs.SourceCode
import ServiceWiring.Source.File

/-!
# What the lines of a file declare

A line declares what it declares by its own text, by the lines behind it that a signature runs on
to, and by the nesting that the lines in front of it leave.  The nesting depends on the code of
these lines alone.

* `line_of_parseTypeSpec?` and its kin — what is read from a line has the number of the line;
* `Nesting.next`, `Nesting.behind` — the nesting behind a line of code, and behind lines of code;
* `Nesting.ReadsAtZero`, `Nesting.read_of_readsAtZero` — the lines that declare something;
* `Nesting.getElem?_readAll` — what a line in the midst of others declares;
* `SourceFile.declarationAt?_parse`, `SourceFile.fieldAt?_parse` — what the index of a file holds
  on a line.
-/

namespace ServiceWiring

open Text

variable {line : Nat} {raw code : List Char} {following : List (List Char)}

/-! ## Declarations have the number of their line -/

theorem line_of_parseTypeSpec? {spec : List Char} {d : Declaration}
    (h : parseTypeSpec? spec line = some d) : d.line = line := by
  unfold parseTypeSpec? at h
  split at h
  · cases h
  · rw [← Option.some.inj h]

theorem kind_of_parseFunction? {signature : List Char} {d : Declaration}
    (h : parseFunction? signature line = some d) : d.kind = .function ∨ d.kind = .method := by
  obtain ⟨_, -, h⟩ := Option.bind_eq_some_iff.mp h
  obtain ⟨⟨receiver, _⟩, -, h⟩ := Option.bind_eq_some_iff.mp h
  dsimp only at h
  split at h
  · cases h
  · obtain ⟨_, -, h⟩ := Option.bind_eq_some_iff.mp h
    obtain ⟨⟨_, _⟩, -, h⟩ := Option.bind_eq_some_iff.mp h
    obtain ⟨_, -, h⟩ := Option.bind_eq_some_iff.mp h
    rw [← Option.some.inj h]
    cases receiver with
    | none => exact .inl rfl
    | some receiver => exact .inr rfl

theorem line_of_parseFunction? {signature : List Char} {d : Declaration}
    (h : parseFunction? signature line = some d) : d.line = line := by
  obtain ⟨_, -, h⟩ := Option.bind_eq_some_iff.mp h
  obtain ⟨⟨_, _⟩, -, h⟩ := Option.bind_eq_some_iff.mp h
  dsimp only at h
  split at h
  · cases h
  · obtain ⟨_, -, h⟩ := Option.bind_eq_some_iff.mp h
    obtain ⟨⟨_, _⟩, -, h⟩ := Option.bind_eq_some_iff.mp h
    obtain ⟨_, -, h⟩ := Option.bind_eq_some_iff.mp h
    rw [← Option.some.inj h]

theorem line_of_parseField? {owner : String} {f : StructField}
    (h : parseField? code owner line = some f) : f.line = line := by
  unfold parseField? at h
  dsimp only at h
  split at h
  · cases h
  · obtain ⟨_, -, rfl⟩ := Option.map_eq_some_iff.mp h
    rfl

/-! ## The nesting behind a line -/

/-- The name of a declared struct. -/
def structNameOf (declared : Option Declaration) : Option String :=
  declared.bind fun d => if d.kind = .struct then some d.name else none

theorem structNameOf_parseTypeSpec? (spec : List Char) (line line' : Nat) :
    structNameOf (parseTypeSpec? spec line) = structNameOf (parseTypeSpec? spec line') := by
  unfold parseTypeSpec?
  cases asciiName? spec with
  | none => rfl
  | some found => rfl

theorem structNameOf_parseFunction? (signature : List Char) (line : Nat) :
    structNameOf (parseFunction? signature line) = none := by
  cases h : parseFunction? signature line with
  | none => rfl
  | some d =>
      rcases kind_of_parseFunction? h with hkind | hkind
      · simp [structNameOf, hkind]
      · simp [structNameOf, hkind]

/-- The group that a line opens, and the struct that it declares, are seen from its code. -/
theorem readTopLevel_congr (line line' : Nat) (raw raw' code : List Char)
    (following following' : List (List Char)) :
    (readTopLevel line raw code following).2 = (readTopLevel line' raw' code following').2
      ∧ structNameOf (readTopLevel line raw code following).1.declaration
        = structNameOf (readTopLevel line' raw' code following').1.declaration := by
  unfold readTopLevel
  dsimp only
  split
  · exact ⟨rfl, rfl⟩
  · split
    · split <;> exact ⟨rfl, rfl⟩
    · split
      · split
        · exact ⟨rfl, rfl⟩
        · exact ⟨rfl, structNameOf_parseTypeSpec? _ _ _⟩
      · split
        · exact ⟨rfl, rfl⟩
        · split
          · exact ⟨rfl, (structNameOf_parseFunction? _ _).trans
              (structNameOf_parseFunction? _ _).symm⟩
          · exact ⟨rfl, rfl⟩

theorem readAtDepthZero_congr (group : Option Group) (line line' : Nat) (raw raw' code : List Char)
    (following following' : List (List Char)) :
    (readAtDepthZero group line raw code following).2
        = (readAtDepthZero group line' raw' code following').2
      ∧ structNameOf (readAtDepthZero group line raw code following).1.declaration
        = structNameOf (readAtDepthZero group line' raw' code following').1.declaration := by
  unfold readAtDepthZero
  split
  · exact readTopLevel_congr ..
  · split
    · exact ⟨rfl, rfl⟩
    · split
      · exact ⟨rfl, rfl⟩
      · exact ⟨rfl, structNameOf_parseTypeSpec? _ _ _⟩
      · exact ⟨rfl, rfl⟩

namespace Nesting

/-- Of a declared line, the struct body behind it needs the name of the struct only. -/
theorem bodyBehind_congr (nesting : Nesting) {declared declared' : Option Declaration}
    (h : structNameOf declared = structNameOf declared') (depth : Int) :
    nesting.bodyBehind declared depth = nesting.bodyBehind declared' depth := by
  have hopened : ∀ declared : Option Declaration, nesting.bodyBehind declared depth
      = (((structNameOf declared).bind fun name =>
          if nesting.depth < depth then some (name, depth) else none).or nesting.openStruct).bind
        fun entry => if depth < entry.2 then none else some entry := by
    intro declared
    cases declared with
    | none => cases hbody : nesting.openStruct <;> simp [bodyBehind, structNameOf, hbody]
    | some d =>
        by_cases hkind : d.kind = .struct
        · by_cases hdepth : nesting.depth < depth
          · simp [bodyBehind, structNameOf, hkind, hdepth]
          · cases hbody : nesting.openStruct <;>
              simp [bodyBehind, structNameOf, hbody, hkind, hdepth]
        · cases hbody : nesting.openStruct <;> simp [bodyBehind, structNameOf, hbody, hkind]
  rw [hopened, hopened, h]

/-- The nesting behind a line of code. -/
def next (nesting : Nesting) (code : List Char) : Nesting :=
  (nesting.read 0 [] code []).2

/-- The nesting behind a line is seen from its code. -/
theorem read_snd (nesting : Nesting) (line : Nat) (raw code : List Char)
    (following : List (List Char)) :
    (nesting.read line raw code following).2 = nesting.next code := by
  unfold next read
  by_cases hzero : (decide (nesting.depth = 0) && !(trim code).isEmpty) = true
  · rw [if_pos hzero, if_pos hzero]
    obtain ⟨hgroup, hstruct⟩ :=
      readAtDepthZero_congr nesting.group line 0 raw [] code following []
    dsimp only
    rw [hgroup, nesting.bodyBehind_congr hstruct]
  · rw [if_neg hzero, if_neg hzero]

/-- The nesting behind lines of code. -/
def behind (nesting : Nesting) (code : List (List Char)) : Nesting :=
  code.foldl next nesting

theorem depth_next (nesting : Nesting) (code : List Char) :
    (nesting.next code).depth = nesting.depth + Code.braceChange code :=
  rfl

/-- The depth of a nesting counts the open braces. -/
theorem depth_behind (nesting : Nesting) (code : List (List Char)) :
    (nesting.behind code).depth = nesting.depth + Code.braceDepth code := by
  induction code generalizing nesting with
  | nil => exact (Int.add_zero _).symm
  | cons line code ih =>
      show ((nesting.next line).behind code).depth = _
      rw [ih, depth_next, Int.add_assoc]
      rfl

theorem behind_append (nesting : Nesting) (front back : List (List Char)) :
    nesting.behind (front ++ back) = (nesting.behind front).behind back :=
  List.foldl_append

/-- A line that holds code at depth zero: a group, or what is outside of groups, is read there. -/
def ReadsAtZero (nesting : Nesting) (code : List Char) : Prop :=
  nesting.depth = 0 ∧ trim code ≠ []

instance (nesting : Nesting) (code : List Char) : Decidable (nesting.ReadsAtZero code) :=
  inferInstanceAs (Decidable (_ ∧ _))

theorem readsAtZero_iff {nesting : Nesting} :
    (decide (nesting.depth = 0) && !(trim code).isEmpty) = true ↔ nesting.ReadsAtZero code := by
  simp [ReadsAtZero]

/-- What a line declares at depth zero, and the group open behind it. -/
theorem read_of_readsAtZero {nesting : Nesting} (h : nesting.ReadsAtZero code) (line : Nat)
    (raw : List Char) (following : List (List Char)) :
    (nesting.read line raw code following).1.declaration
        = (readAtDepthZero nesting.group line raw code following).1.declaration
      ∧ (nesting.next code).group
        = (readAtDepthZero nesting.group line raw code following).2 := by
  rw [← nesting.read_snd line raw code following]
  unfold read
  rw [if_pos (readsAtZero_iff.mpr h)]
  exact ⟨rfl, rfl⟩

/-- Other lines declare nothing and leave the group as it is. -/
theorem read_of_not_readsAtZero {nesting : Nesting} (h : ¬ nesting.ReadsAtZero code) (line : Nat)
    (raw : List Char) (following : List (List Char)) :
    (nesting.read line raw code following).1.declaration = none
      ∧ (nesting.next code).group = nesting.group := by
  rw [← nesting.read_snd line raw code following]
  unfold read
  rw [if_neg (mt readsAtZero_iff.mp h)]
  exact ⟨rfl, rfl⟩

theorem openStruct_next (nesting : Nesting) (line : Nat) (raw code : List Char)
    (following : List (List Char)) :
    (nesting.next code).openStruct
      = nesting.bodyBehind (nesting.read line raw code following).1.declaration
        (nesting.depth + Code.braceChange code) := by
  rw [← nesting.read_snd line raw code following]
  rfl

/-! ## Lines in the midst of others -/

theorem getElem?_readAll (nesting : Nesting) (line n : Nat)
    (pairs : List (List Char × List Char)) :
    (nesting.readAll line pairs)[n]? = pairs[n]?.map fun pair =>
      ((nesting.behind ((pairs.take n).map (·.2))).read (line + n) pair.1 pair.2
        ((pairs.drop (n + 1)).map (·.2))).1 := by
  induction pairs generalizing nesting line n with
  | nil => rfl
  | cons pair pairs ih =>
      obtain ⟨raw, code⟩ := pair
      cases n with
      | zero => rfl
      | succ n =>
          show ((nesting.read line raw code (pairs.map (·.2))).2.readAll (line + 1) pairs)[n]? = _
          rw [ih, read_snd, Nat.add_assoc line, Nat.add_comm 1]
          rfl

/-- The lines that follow others are read in the nesting behind these. -/
theorem drop_readAll (nesting : Nesting) (line : Nat) (front back : List (List Char × List Char)) :
    (nesting.readAll line (front ++ back)).drop front.length
      = (nesting.behind (front.map (·.2))).readAll (line + front.length) back := by
  induction front generalizing nesting line with
  | nil => rfl
  | cons pair front ih =>
      obtain ⟨raw, code⟩ := pair
      show ((nesting.read line raw code _).2.readAll (line + 1) (front ++ back)).drop _ = _
      rw [ih, read_snd, Nat.add_assoc line, Nat.add_comm 1]
      rfl

end Nesting

/-- What is found on a line of a list in which every item has its place as its number. -/
theorem find?_filterMap_numbered {α β : Type} {part : α → Option β} {number : β → Nat} {l : List α}
    {start : Nat} (h : ∀ i x y, l[i]? = some x → part x = some y → number y = start + i) (n : Nat) :
    (l.filterMap part).find? (fun y => number y == start + n) = l[n]?.bind part := by
  induction l generalizing start n with
  | nil => rfl
  | cons x l ih =>
      have hlater : ∀ i x' y, l[i]? = some x' → part x' = some y → number y = start + 1 + i := by
        intro i x' y hx hy
        rw [h (i + 1) x' y hx hy]
        omega
      cases hx : part x with
      | none =>
          rw [List.filterMap_cons_none hx]
          cases n with
          | zero =>
              -- what comes later has a greater number
              refine (List.find?_eq_none.mpr ?_).trans hx.symm
              intro y hy
              obtain ⟨x', hx', hpart⟩ := List.mem_filterMap.mp hy
              obtain ⟨i, hi⟩ := List.getElem?_of_mem hx'
              have hnumber := hlater i x' y hi hpart
              simp only [beq_iff_eq]
              omega
          | succ n =>
              rw [show start + (n + 1) = start + 1 + n by omega]
              exact ih hlater n
      | some y =>
          have hnumber : number y = start := h 0 x y rfl hx
          rw [List.filterMap_cons_some hx]
          cases n with
          | zero =>
              rw [List.find?_cons_of_pos (by simp [hnumber])]
              exact hx.symm
          | succ n =>
              rw [List.find?_cons_of_neg (by simp [hnumber]),
                show start + (n + 1) = start + 1 + n by omega]
              exact ih hlater n

namespace Nesting

variable {nesting : Nesting}

theorem line_of_readTopLevel {d : Declaration}
    (h : (readTopLevel line raw code following).1.declaration = some d) : d.line = line := by
  unfold readTopLevel at h
  dsimp only at h
  split at h
  · cases h
  · split at h
    · split at h <;> cases h
    · split at h
      · split at h
        · cases h
        · exact line_of_parseTypeSpec? h
      · split at h
        · cases h
        · split at h
          · exact line_of_parseFunction? h
          · cases h

theorem line_of_declaration {d : Declaration}
    (h : (nesting.read line raw code following).1.declaration = some d) : d.line = line := by
  change (if nesting.depth = 0 && !(trim code).isEmpty then
    readAtDepthZero nesting.group line raw code following
      else ({}, nesting.group)).1.declaration = some d at h
  split at h
  · unfold readAtDepthZero at h
    split at h
    · exact line_of_readTopLevel h
    · split at h
      · cases h
      · split at h
        · cases h
        · exact line_of_parseTypeSpec? h
        · cases h
  · cases h

theorem line_of_field {f : StructField}
    (h : (nesting.read line raw code following).1.field = some f) : f.line = line := by
  change nesting.fieldOn line code = some f at h
  unfold fieldOn at h
  split at h
  · cases h
  · dsimp only at h
    split at h
    · exact line_of_parseField? h
    · cases h

end Nesting

/-! ## The index of a file -/

namespace SourceFile

/-- What the lines of a text declare. -/
def facts (content : String) : List LineFacts :=
  ({} : Nesting).readAll 1
    ((Text.lines content.toList).zip (Code.ofLines (Text.lines content.toList)))

variable {path : Path} {content : String} {n : Nat}

/-- What a line declares, behind the nesting that the lines in front of it leave. -/
theorem getElem?_facts (hraw : (Text.lines content.toList)[n]? = some raw)
    (hcode : (Code.ofLines (Text.lines content.toList))[n]? = some code) :
    (facts content)[n]? = some
      ((({} : Nesting).behind ((Code.ofLines (Text.lines content.toList)).take n)).read (n + 1) raw
        code ((Code.ofLines (Text.lines content.toList)).drop (n + 1))).1 := by
  have hsnd : ((Text.lines content.toList).zip (Code.ofLines (Text.lines content.toList))).map
      (·.2) = Code.ofLines (Text.lines content.toList) := by
    refine List.map_snd_zip (Nat.le_of_eq ?_)
    exact Code.length_ofLinesFrom _ _
  have hpair : ((Text.lines content.toList).zip (Code.ofLines (Text.lines content.toList)))[n]?
      = some (raw, code) := List.getElem?_zip_eq_some.mpr ⟨hraw, hcode⟩
  rw [facts, Nesting.getElem?_readAll, hpair, Option.map_some, List.map_take, List.map_drop, hsnd,
    Nat.add_comm 1 n]

/-- A fact with the number of its line is found there. -/
theorem find?_facts {β : Type} {part : LineFacts → Option β} {number : β → Nat}
    (hpart : ∀ (nesting : Nesting) line raw code following y,
      part (nesting.read line raw code following).1 = some y → number y = line) (line : Nat) :
    ((facts content).filterMap part).find? (fun y => number y == line)
      = if line = 0 then none else (facts content)[line - 1]?.bind part := by
  have hnumber : ∀ i x y, (facts content)[i]? = some x → part x = some y → number y = 1 + i := by
    intro i x y hx hy
    rw [facts, Nesting.getElem?_readAll] at hx
    obtain ⟨pair, -, rfl⟩ := Option.map_eq_some_iff.mp hx
    exact hpart _ _ _ _ _ _ hy
  cases line with
  | zero =>
      rw [if_pos rfl, List.find?_eq_none]
      intro y hy
      obtain ⟨x, hx, hpart⟩ := List.mem_filterMap.mp hy
      obtain ⟨i, hi⟩ := List.getElem?_of_mem hx
      have := hnumber i x y hi hpart
      simp only [beq_iff_eq]
      omega
  | succ n =>
      rw [if_neg (Nat.succ_ne_zero n), Nat.add_sub_cancel, Nat.add_comm n 1]
      exact find?_filterMap_numbered hnumber n

/-- The declaration that the index of a file holds on a line. -/
theorem declarationAt?_parse (path : Path) (content : String) (line : Nat) :
    (parse path content).index.declarationAt? line
      = if line = 0 then none else (facts content)[line - 1]?.bind (·.declaration) :=
  find?_facts (fun _ _ _ _ _ _ h => Nesting.line_of_declaration h) line

/-- The fields that the index of a file holds on a line. -/
theorem fieldAt?_parse (path : Path) (content : String) (line : Nat) :
    (parse path content).index.fieldAt? line
      = if line = 0 then none else (facts content)[line - 1]?.bind (·.field) :=
  find?_facts (fun _ _ _ _ _ _ h => Nesting.line_of_field h) line

end SourceFile

end ServiceWiring
