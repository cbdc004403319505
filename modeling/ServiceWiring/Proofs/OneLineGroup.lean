import ServiceWiring.Proofs.Bracket
import ServiceWiring.Proofs.Nesting

/-!
# Groups on one line

A group of declarations that is closed on its own line is taken for one that is still open: only
a line that starts with a parenthesis closes a group.  Up to such a line, what follows is read as
entries of the group.

* `Nesting.withGroup`, `Nesting.next_withGroup` — nestings that differ in their group alone, and
  the lines behind which they still do, or no longer do;
* `Nesting.behind_withGroup` — runs over lines that are read alike in both nestings;
* `SourceFile.getElem?_facts_front`, `SourceFile.getElem?_facts_back` — the lines in front of a
  line and behind it;
* `SourceFile.sameElsewhere_iff` — when a group on one line changes no other line.
-/

namespace ServiceWiring

open Text

/-! ## Nestings with another group -/

/-- A line that closes a group. -/
def ClosesGroup (code : List Char) : Prop :=
  (trim code).head? = some ')'

instance (code : List Char) : Decidable (ClosesGroup code) :=
  inferInstanceAs (Decidable (_ = _))

/-- What a line declares as an entry of a group. -/
def Group.entry (group : Group) (code : List Char) (line : Nat) : Option Declaration :=
  match group with
  | .types => parseTypeSpec? (trim code) line
  | .imports => none
  | .other => none

theorem readTopLevel_closing {code : List Char} (h : ClosesGroup code) (line : Nat)
    (raw : List Char) (following : List (List Char)) :
    readTopLevel line raw code following = ({}, none) := by
  have hkeyword : (trim code).takeWhile isNameChar = [] := by
    rw [ClosesGroup] at h
    cases htrim : trim code with
    | nil => rfl
    | cons c cs =>
        rw [htrim] at h
        obtain rfl : c = ')' := Option.some.inj h
        rfl
  unfold readTopLevel
  rw [hkeyword]
  rfl

theorem readAtDepthZero_closing {code : List Char} (h : ClosesGroup code) (group : Option Group)
    (line : Nat) (raw : List Char) (following : List (List Char)) :
    readAtDepthZero group line raw code following = ({}, none) := by
  cases group with
  | none => exact readTopLevel_closing h ..
  | some group => exact if_pos h

theorem readAtDepthZero_entry {code : List Char} (h : ¬ ClosesGroup code) (group : Group)
    (line : Nat) (raw : List Char) (following : List (List Char)) :
    (readAtDepthZero (some group) line raw code following).1.declaration = group.entry code line
      ∧ (readAtDepthZero (some group) line raw code following).2 = some group := by
  have hother : ¬ (trim code).head? = some ')' := h
  unfold readAtDepthZero
  dsimp only
  rw [if_neg hother]
  cases group with
  | imports => exact ⟨rfl, rfl⟩
  | types => exact ⟨rfl, rfl⟩
  | other => exact ⟨rfl, rfl⟩

theorem trim_ne_nil_of_closing {code : List Char} (h : ClosesGroup code) : trim code ≠ [] := by
  intro hempty
  rw [ClosesGroup, hempty] at h
  cases h

namespace Nesting

variable {nesting : Nesting} {group : Group} {code : List Char}

/-- A nesting with another group. -/
def withGroup (nesting : Nesting) (group : Option Group) : Nesting :=
  { nesting with group }

theorem eq_of_fields {other : Nesting} (hdepth : nesting.depth = other.depth)
    (hgroup : nesting.group = other.group) (hstruct : nesting.openStruct = other.openStruct) :
    nesting = other := by
  cases nesting
  cases other
  rw [mk.injEq]
  exact ⟨hdepth, hgroup, hstruct⟩

/-- A line that is read alike in two nestings leaves them different in their group at most. -/
theorem next_withGroup {line : Nat} {raw : List Char} {following : List (List Char)}
    {opened : Option Group}
    (h : ((nesting.withGroup opened).read line raw code following).1.declaration
      = (nesting.read line raw code following).1.declaration) :
    (nesting.withGroup opened).next code
      = (nesting.next code).withGroup ((nesting.withGroup opened).next code).group := by
  refine eq_of_fields rfl rfl ?_
  show _ = (nesting.next code).openStruct
  rw [openStruct_next _ line raw code following, openStruct_next _ line raw code following, h]
  rfl

/-- A line that closes a group leaves no difference. -/
theorem next_of_closing (hdepth : nesting.depth = 0) (hcloses : ClosesGroup code)
    (opened : Option Group) : (nesting.withGroup opened).next code = nesting.next code := by
  have hread : nesting.ReadsAtZero code := ⟨hdepth, trim_ne_nil_of_closing hcloses⟩
  have hread' : (nesting.withGroup opened).ReadsAtZero code := hread
  obtain ⟨hdeclared, hgroup⟩ := read_of_readsAtZero hread 0 [] []
  obtain ⟨hdeclared', hgroup'⟩ := read_of_readsAtZero hread' 0 [] []
  rw [readAtDepthZero_closing hcloses] at hdeclared hgroup hdeclared' hgroup'
  rw [next_withGroup (hdeclared'.trans hdeclared.symm), hgroup', ← hgroup]
  rfl

/-- An open group stays open behind every other line. -/
theorem group_next (hgroup : nesting.group = some group)
    (h : nesting.depth = 0 → ¬ ClosesGroup code) : (nesting.next code).group = some group := by
  by_cases hread : nesting.ReadsAtZero code
  · rw [(read_of_readsAtZero hread 0 [] []).2, hgroup]
    exact (readAtDepthZero_entry (h hread.1) group 0 [] []).2
  · rw [(read_of_not_readsAtZero hread 0 [] []).2, hgroup]

/-- A line in an open group is read as one of its entries. -/
theorem declaration_of_group (hgroup : nesting.group = some group)
    (hread : nesting.ReadsAtZero code) (h : ¬ ClosesGroup code) (line : Nat) (raw : List Char)
    (following : List (List Char)) :
    (nesting.read line raw code following).1.declaration = group.entry code line := by
  rw [(read_of_readsAtZero hread line raw following).1, hgroup]
  exact (readAtDepthZero_entry h group line raw following).1

/-- A line is read alike under an open group if it declares what it declares as an entry. -/
theorem declaration_withGroup {line : Nat} {raw : List Char} {following : List (List Char)}
    (h : nesting.ReadsAtZero code → ¬ ClosesGroup code →
      (nesting.read line raw code following).1.declaration = group.entry code line) :
    ((nesting.withGroup (some group)).read line raw code following).1.declaration
      = (nesting.read line raw code following).1.declaration := by
  by_cases hread : nesting.ReadsAtZero code
  · have hread' : (nesting.withGroup (some group)).ReadsAtZero code := hread
    by_cases hcloses : ClosesGroup code
    · rw [(read_of_readsAtZero hread line raw following).1,
        (read_of_readsAtZero hread' line raw following).1, readAtDepthZero_closing hcloses,
        readAtDepthZero_closing hcloses]
    · rw [h hread hcloses]
      exact declaration_of_group rfl hread' hcloses line raw following
  · have hread' : ¬ (nesting.withGroup (some group)).ReadsAtZero code := hread
    rw [(read_of_not_readsAtZero hread line raw following).1,
      (read_of_not_readsAtZero hread' line raw following).1]

/-! ## Runs under an open group -/

theorem behind_take_succ {lines : List (List Char)} {k : Nat} (h : lines[k]? = some code)
    (nesting : Nesting) :
    nesting.behind (lines.take (k + 1)) = (nesting.behind (lines.take k)).next code := by
  rw [List.take_add_one, h, behind_append]
  rfl

end Nesting

/-- No line in front of a given one closes a group that is open at depth zero. -/
def StaysOpen (lines : List (List Char)) (k : Nat) : Prop :=
  ∀ j < k, ∀ code, lines[j]? = some code → Code.braceDepth (lines.take j) = 0 → ¬ ClosesGroup code

theorem StaysOpen.succ {lines : List (List Char)} {k : Nat} (h : StaysOpen lines k)
    {code : List Char} (hline : lines[k]? = some code)
    (hcode : Code.braceDepth (lines.take k) = 0 → ¬ ClosesGroup code) :
    StaysOpen lines (k + 1) := by
  intro j hj other hother hdepth
  rcases Nat.lt_succ_iff_lt_or_eq.mp hj with hj | rfl
  · exact h j hj other hother hdepth
  · rw [hline] at hother
    cases hother
    exact hcode hdepth

theorem StaysOpen.succ_of_none {lines : List (List Char)} {k : Nat} (h : StaysOpen lines k)
    (hline : lines[k]? = none) : StaysOpen lines (k + 1) := by
  intro j hj other hother hdepth
  rcases Nat.lt_succ_iff_lt_or_eq.mp hj with hj | rfl
  · exact h j hj other hother hdepth
  · rw [hline] at hother
    cases hother

/-- A line that is read as an entry of a group which is open at depth zero in front of the lines. -/
structure ReadInGroup (lines : List (List Char)) (k : Nat) (code : List Char) : Prop where
  line : lines[k]? = some code
  depth : Code.braceDepth (lines.take k) = 0
  holdsCode : trim code ≠ []
  staysOpen : StaysOpen lines (k + 1)

namespace Nesting

variable {nesting : Nesting} {group : Group} {code : List Char} {lines : List (List Char)} {k : Nat}

/-- A group is open up to the line that closes it. -/
theorem group_behind (hdepth : nesting.depth = 0) (hgroup : nesting.group = some group)
    (hopen : StaysOpen lines k) : (nesting.behind (lines.take k)).group = some group := by
  induction k with
  | zero => exact hgroup
  | succ k ih =>
      have hgroup := ih fun j hj => hopen j (Nat.lt_succ_of_lt hj)
      cases hline : lines[k]? with
      | none =>
          rw [List.take_add_one, hline]
          simpa using hgroup
      | some code =>
          rw [behind_take_succ hline]
          refine group_next hgroup fun hzero => hopen k (Nat.lt_succ_self k) code hline ?_
          rwa [depth_behind, hdepth, Int.zero_add] at hzero

/-- Behind lines that declare what they declare as entries of a group, the group is still open and
    makes the only difference, or it is closed and makes none. -/
theorem behind_withGroup (hdepth : nesting.depth = 0) {line : Nat} {raw : Nat → List Char}
    (h : ∀ k code, ReadInGroup lines k code →
      ((nesting.behind (lines.take k)).read (line + k) (raw k) code
        (lines.drop (k + 1))).1.declaration = group.entry code (line + k)) (k : Nat) :
    (nesting.withGroup (some group)).behind (lines.take k) = nesting.behind (lines.take k)
      ∨ StaysOpen lines k ∧ (nesting.withGroup (some group)).behind (lines.take k)
        = (nesting.behind (lines.take k)).withGroup (some group) := by
  induction k with
  | zero => exact .inr ⟨fun j hj => (nomatch hj), rfl⟩
  | succ k ih =>
      cases hline : lines[k]? with
      | none =>
          rw [List.take_add_one, hline, Option.toList_none, List.append_nil]
          refine ih.imp_right fun ⟨hopen, heq⟩ => ⟨hopen.succ_of_none hline, heq⟩
      | some code =>
          rw [behind_take_succ hline, behind_take_succ hline]
          rcases ih with heq | ⟨hopen, heq⟩
          · exact .inl (by rw [heq])
          · rw [heq]
            have hzero : (nesting.behind (lines.take k)).depth
                = Code.braceDepth (lines.take k) := by
              rw [depth_behind, hdepth, Int.zero_add]
            by_cases hcloses : Code.braceDepth (lines.take k) = 0 ∧ ClosesGroup code
            · -- the line that closes the group makes both alike for good
              exact .inl (next_of_closing (hzero.trans hcloses.1) hcloses.2 _)
            · have hnext : StaysOpen lines (k + 1) :=
                hopen.succ hline fun hdepth hcode => hcloses ⟨hdepth, hcode⟩
              refine .inr ⟨hnext, ?_⟩
              have hdeclared : (((nesting.behind (lines.take k)).withGroup (some group)).read
                  (line + k) (raw k) code (lines.drop (k + 1))).1.declaration = _ :=
                declaration_withGroup fun hread _ =>
                  h k code ⟨hline, hzero.symm.trans hread.1, hread.2, hnext⟩
              rw [next_withGroup hdeclared, group_next rfl]
              exact fun hdepth hcode => hcloses ⟨hzero.symm.trans hdepth, hcode⟩

end Nesting

namespace Nesting

variable {nesting : Nesting} {group : Group} {pairs : List (List Char × List Char)}

theorem getElem?_readAll_map (nesting : Nesting) (line k : Nat)
    (pairs : List (List Char × List Char)) :
    (nesting.readAll line pairs)[k]? = pairs[k]?.map fun pair =>
      ((nesting.behind ((pairs.map (·.2)).take k)).read (line + k) pair.1 pair.2
        ((pairs.map (·.2)).drop (k + 1))).1 := by
  rw [getElem?_readAll, List.map_take, List.map_drop]

/-- Lines are read as entries of an open group up to the line that closes it. -/
theorem readAll_entry (hdepth : nesting.depth = 0) (hgroup : nesting.group = some group)
    {k : Nat} {code : List Char} (h : ReadInGroup (pairs.map (·.2)) k code) (line : Nat) :
    ((nesting.readAll line pairs)[k]?).bind (·.declaration) = group.entry code (line + k) := by
  have hline := h.line
  rw [List.getElem?_map] at hline
  obtain ⟨pair, hpair, rfl⟩ := Option.map_eq_some_iff.mp hline
  rw [getElem?_readAll_map, hpair, Option.map_some, Option.bind_some]
  have hopen : StaysOpen (pairs.map (·.2)) k := fun j hj => h.staysOpen j (Nat.lt_succ_of_lt hj)
  refine declaration_of_group (group_behind hdepth hgroup hopen) ⟨?_, h.holdsCode⟩ ?_ _ _ _
  · rw [depth_behind, hdepth, h.depth]
    rfl
  · exact h.staysOpen k (Nat.lt_succ_self k) _ h.line h.depth

/-- Lines that declare what they declare as entries of a group are read alike if it is open. -/
theorem readAll_withGroup (hdepth : nesting.depth = 0) {line : Nat}
    (h : ∀ k code, ReadInGroup (pairs.map (·.2)) k code →
      ((nesting.readAll line pairs)[k]?).bind (·.declaration) = group.entry code (line + k))
    (k : Nat) :
    ((((nesting.withGroup (some group)).readAll line pairs)[k]?).bind (·.declaration)
        = ((nesting.readAll line pairs)[k]?).bind (·.declaration))
      ∧ (((nesting.withGroup (some group)).readAll line pairs)[k]?).bind (·.field)
        = ((nesting.readAll line pairs)[k]?).bind (·.field) := by
  have hentries : ∀ k code, ReadInGroup (pairs.map (·.2)) k code →
      ((nesting.behind ((pairs.map (·.2)).take k)).read (line + k) ((pairs[k]?.map (·.1)).getD [])
        code ((pairs.map (·.2)).drop (k + 1))).1.declaration = group.entry code (line + k) := by
    intro k code hread
    have hline := hread.line
    rw [List.getElem?_map] at hline
    obtain ⟨pair, hpair, rfl⟩ := Option.map_eq_some_iff.mp hline
    have hdeclared := h k pair.2 hread
    rw [getElem?_readAll_map, hpair] at hdeclared
    rw [hpair]
    exact hdeclared
  rw [getElem?_readAll_map, getElem?_readAll_map]
  cases hpair : pairs[k]? with
  | none => exact ⟨rfl, rfl⟩
  | some pair =>
      simp only [Option.map_some, Option.bind_some]
      rcases behind_withGroup hdepth hentries k with heq | ⟨hopen, heq⟩
      · rw [heq]
        exact ⟨rfl, rfl⟩
      · rw [heq]
        refine ⟨declaration_withGroup fun hread hcloses => ?_, rfl⟩
        have hline : (pairs.map (·.2))[k]? = some pair.2 := by
          rw [List.getElem?_map, hpair]
          rfl
        have hzero := hread.1
        rw [depth_behind, hdepth, Int.zero_add] at hzero
        have hentry := hentries k pair.2 ⟨hline, hzero, hread.2, hopen.succ hline fun _ => hcloses⟩
        rw [hpair] at hentry
        exact hentry

end Nesting

/-! ## Signatures that end in front of a line -/

/-- A signature does not go on behind lines that close its parentheses. -/
theorem signatureText_append {limit : Nat} {parens : Int} {text : List Char}
    {lines : List (List Char)} (hne : lines ≠ []) (hclosed : parens + Code.parenDepth lines ≤ 0)
    (more : List (List Char)) :
    signatureText limit parens text (lines ++ more) = signatureText limit parens text lines := by
  induction lines generalizing limit parens text with
  | nil => exact absurd rfl hne
  | cons line lines ih =>
      cases limit with
      | zero => rfl
      | succ limit =>
          rw [List.cons_append, signatureText, signatureText]
          by_cases hparens : parens + Code.parenChange line ≤ 0
          · rw [if_pos hparens, if_pos hparens]
          · rw [if_neg hparens, if_neg hparens]
            have hsum : Code.parenDepth (line :: lines)
                = Code.parenChange line + Code.parenDepth lines := rfl
            -- the parentheses still open are closed by a line that follows
            have hlines : lines ≠ [] := by
              rintro rfl
              have hnone : Code.parenDepth [] = 0 := rfl
              omega
            exact ih hlines (by omega)

theorem read_following {code : List Char} {following : List (List Char)}
    (hclosed : Code.parenDepth (code :: following) ≤ 0) (more : List (List Char))
    (nesting : Nesting) (line : Nat) (raw : List Char) :
    nesting.read line raw code (following ++ more) = nesting.read line raw code following := by
  have hsignature : signatureText maxSignatureLines 0 [] (code :: (following ++ more))
      = signatureText maxSignatureLines 0 [] (code :: following) :=
    signatureText_append (List.cons_ne_nil _ _) (by rwa [Int.zero_add]) more
  unfold Nesting.read readAtDepthZero readTopLevel
  rw [hsignature]

/-! ## The code of a group on one line -/

/-- The words that a group can start with. -/
def groupKeywords : List (String × Group) :=
  [("import", .imports), ("type", .types), ("const", .other), ("var", .other)]

/-- A group whose closing parenthesis is the last character of its line. -/
def IsOneLineGroup (group : Group) (code : List Char) : Prop :=
  ∃ keyword gap inner, (keyword, group) ∈ groupKeywords ∧ AllBlank gap ∧ Code.Balanced inner ∧
    trim code = keyword.toList ++ (gap ++ '(' :: (inner ++ [')']))

theorem nameChars_of_mem_groupKeywords :
    ∀ entry ∈ groupKeywords, ∀ c ∈ entry.1.toList, isNameChar c = true := by
  have hall : ∀ entry ∈ groupKeywords, entry.1.toList.all isNameChar = true := by decide
  exact fun entry hentry => List.all_eq_true.mp (hall entry hentry)

theorem braceChange_blank {gap : List Char} (h : AllBlank gap) : Code.braceChange gap = 0 :=
  (Code.Undivided.blank h).balanced.braceChange_eq_zero

theorem braceChange_trim (code : List Char) :
    Code.braceChange (trim code) = Code.braceChange code := by
  obtain ⟨before, hbefore, hstart⟩ := exists_gap_trimStart code
  obtain ⟨behind, hbehind, hend⟩ := exists_gap_trimEnd (trimStart code)
  calc Code.braceChange (trim code)
      = Code.braceChange (trim code ++ behind) := by
        rw [Code.braceChange_append, braceChange_blank hbehind, Int.add_zero]
    _ = Code.braceChange (trimStart code) := by rw [trim, ← hend]
    _ = Code.braceChange (before ++ trimStart code) := by
        rw [Code.braceChange_append, braceChange_blank hbefore, Int.zero_add]
    _ = Code.braceChange code := by rw [← hstart]

namespace IsOneLineGroup

variable {group : Group} {code : List Char}

theorem braceChange_eq_zero (h : IsOneLineGroup group code) : Code.braceChange code = 0 := by
  obtain ⟨keyword, gap, inner, hkeyword, hgap, hinner, htrim⟩ := h
  have hword : Code.Balanced keyword.toList :=
    (Code.Undivided.nameChars (nameChars_of_mem_groupKeywords _ hkeyword)).balanced
  have hparens : Code.Balanced ('(' :: (inner ++ [')'])) := .nest (by decide) hinner .nil
  rw [← braceChange_trim, htrim]
  exact (hword.append ((Code.Undivided.blank hgap).balanced.append hparens)).braceChange_eq_zero

theorem readTopLevel_snd (h : IsOneLineGroup group code) (line : Nat) (raw : List Char)
    (following : List (List Char)) :
    (readTopLevel line raw code following).2 = some group := by
  obtain ⟨keyword, gap, inner, hkeyword, hgap, -, htrim⟩ := h
  have hrest : (gap ++ '(' :: (inner ++ [')'])).head?.all (!isNameChar ·) = true :=
    hgap.not_nameChar rfl (inner ++ [')'])
  have hword := nameChars_of_mem_groupKeywords _ hkeyword
  have hopens : trimStart (gap ++ '(' :: (inner ++ [')'])) = '(' :: (inner ++ [')']) := by
    rw [hgap.trimStart_append]
    rfl
  unfold readTopLevel
  rw [htrim, takeWhile_run hword hrest, dropWhile_run hword hrest, hopens, String.ofList_toList]
  simp only [groupKeywords, List.mem_cons, Prod.mk.injEq, List.not_mem_nil, or_false] at hkeyword
  rcases hkeyword with ⟨rfl, rfl⟩ | ⟨rfl, rfl⟩ | ⟨rfl, rfl⟩ | ⟨rfl, rfl⟩ <;> rfl

theorem not_closesGroup (h : IsOneLineGroup group code) : ¬ ClosesGroup code := by
  intro hcloses
  have hread := h.readTopLevel_snd 0 [] []
  rw [readTopLevel_closing hcloses] at hread
  cases hread

theorem trim_ne_nil (h : IsOneLineGroup group code) : trim code ≠ [] := by
  obtain ⟨keyword, gap, inner, -, -, -, htrim⟩ := h
  rw [htrim]
  simp

end IsOneLineGroup

/-! ## The lines around a line -/

namespace SourceFile

variable {content : String} {front back : List (List Char)} {raw code : List Char} {n k : Nat}

/-- A line at the top level: it begins in code, outside of braces, and no parenthesis that is
    opened in front of it is still open. -/
structure AtTopLevel (front : List (List Char)) : Prop where
  state : Code.stateBehind .code front = .code
  depth : Code.braceDepth (Code.ofLines front) = 0
  parens : ∀ k, Code.parenDepth ((Code.ofLines front).drop k) ≤ 0

theorem facts_around (hlines : Text.lines content.toList = front ++ raw :: back)
    (hstate : Code.stateBehind .code front = .code)
    (hcode : Code.ofLine .code raw = (code, .code)) :
    facts content = ({} : Nesting).readAll 1
      (front.zip (Code.ofLines front) ++ (raw, code) :: back.zip (Code.ofLines back)) := by
  have hlength : front.length = (Code.ofLines front).length :=
    (Code.length_ofLinesFrom _ _).symm
  have hcodes : Code.ofLines (front ++ raw :: back)
      = Code.ofLines front ++ code :: Code.ofLines back := by
    rw [Code.ofLines, Code.ofLinesFrom_append, hstate, Code.ofLinesFrom, hcode]
    rfl
  rw [facts, hlines, hcodes, List.zip_append hlength, List.zip_cons_cons]

theorem map_snd_zip_ofLines (lines : List (List Char)) :
    (lines.zip (Code.ofLines lines)).map (·.2) = Code.ofLines lines :=
  List.map_snd_zip (Nat.le_of_eq (Code.length_ofLinesFrom _ _))

/-- The lines in front of a line at the top level are read as without it. -/
theorem getElem?_facts_front (hlines : Text.lines content.toList = front ++ raw :: back)
    (htop : AtTopLevel front) (hcode : Code.ofLine .code raw = (code, .code))
    (hn : n < front.length) :
    (facts content)[n]? = (({} : Nesting).readAll 1 (front.zip (Code.ofLines front)))[n]? := by
  have hmap := map_snd_zip_ofLines front
  have hlength : (front.zip (Code.ofLines front)).length = front.length := by
    rw [← List.length_map, hmap]
    exact Code.length_ofLinesFrom _ _
  rw [facts_around hlines htop.state hcode]
  generalize front.zip (Code.ofLines front) = pairs at hmap hlength
  rw [← hlength] at hn
  rw [Nesting.getElem?_readAll, Nesting.getElem?_readAll, List.getElem?_append_left hn,
    List.take_append_of_le_length (Nat.le_of_lt hn), List.drop_append_of_le_length hn,
    List.map_append]
  cases hpair : pairs[n]? with
  | none => rfl
  | some pair =>
      have hclosed := htop.parens n
      rw [← hmap, ← List.map_drop, List.drop_eq_getElem?_toList_append, hpair, Option.toList_some,
        List.singleton_append, List.map_cons] at hclosed
      rw [Option.map_some, Option.map_some, read_following hclosed]

/-- The lines behind a line are read in the nesting behind it. -/
theorem getElem?_facts_back (hlines : Text.lines content.toList = front ++ raw :: back)
    (htop : AtTopLevel front) (hcode : Code.ofLine .code raw = (code, .code)) (k : Nat) :
    (facts content)[front.length + 1 + k]?
      = (((({} : Nesting).behind (Code.ofLines front)).next code).readAll (front.length + 2)
        (back.zip (Code.ofLines back)))[k]? := by
  have hmap := map_snd_zip_ofLines front
  have hlength : (front.zip (Code.ofLines front) ++ [(raw, code)]).length = front.length + 1 := by
    rw [List.length_append, ← List.length_map, hmap]
    exact congrArg (· + 1) (Code.length_ofLinesFrom _ _)
  rw [facts_around hlines htop.state hcode, ← List.getElem?_drop, List.append_cons, ← hlength,
    Nesting.drop_readAll, List.map_append, hmap, Nesting.behind_append, hlength,
    Nat.add_comm 1]
  rfl

end SourceFile

/-! ## A group on one line and a blank line -/

namespace Nesting

variable {nesting : Nesting} {group : Group} {code blank : List Char}

/-- A line that leaves the depth as it is opens no struct body. -/
theorem bodyBehind_depth (nesting : Nesting) (declared : Option Declaration) :
    nesting.bodyBehind declared nesting.depth = nesting.bodyBehind none nesting.depth := by
  cases declared with
  | none => rfl
  | some d =>
      unfold bodyBehind
      simp

theorem openStruct_next_of_braces (nesting : Nesting) (h : Code.braceChange code = 0) :
    (nesting.next code).openStruct = nesting.bodyBehind none nesting.depth := by
  rw [openStruct_next nesting 0 [] code [], h, Int.add_zero, bodyBehind_depth]

/-- Behind a group on one line the nesting is that behind a blank line, but for the group that is
    taken for open there, if none was open before. -/
theorem next_of_oneLineGroup (hdepth : nesting.depth = 0) (hcode : IsOneLineGroup group code)
    (hblank : AllBlank blank) :
    nesting.next code
      = (nesting.next blank).withGroup (nesting.group.or (some group)) := by
  have hread : nesting.ReadsAtZero code := ⟨hdepth, hcode.trim_ne_nil⟩
  have hbraces := hcode.braceChange_eq_zero
  have hbraces' := braceChange_blank hblank
  refine eq_of_fields ?_ ?_ ?_
  · show nesting.depth + Code.braceChange code = nesting.depth + Code.braceChange blank
    rw [hbraces, hbraces']
  · rw [(read_of_readsAtZero hread 0 [] []).2]
    show _ = nesting.group.or (some group)
    cases nesting.group with
    | none => exact hcode.readTopLevel_snd 0 [] []
    | some opened => exact (readAtDepthZero_entry hcode.not_closesGroup opened 0 [] []).2
  · show _ = (nesting.next blank).openStruct
    rw [openStruct_next_of_braces nesting hbraces, openStruct_next_of_braces nesting hbraces']

theorem group_next_blank (nesting : Nesting) (hblank : AllBlank blank) :
    (nesting.next blank).group = nesting.group := by
  have hempty : trim blank = [] := by
    rw [trim, hblank.trimStart]
    rfl
  exact (read_of_not_readsAtZero (fun hread => hread.2 hempty) 0 [] []).2

end Nesting

namespace SourceFile

variable {path : Path} {content replaced : String} {front back : List (List Char)}
  {raw raw' code code' blank : List Char} {group : Group}

/-- Two files have the same declarations and fields on every line but one. -/
def SameElsewhere (file other : SourceFile) (line : Nat) : Prop :=
  ∀ l ≠ line, file.index.declarationAt? l = other.index.declarationAt? l
    ∧ file.index.fieldAt? l = other.index.fieldAt? l

/-- Two files that differ in one line at the top level are read alike elsewhere if the lines behind
    it are. -/
theorem sameElsewhere_of_back (hlines : Text.lines content.toList = front ++ raw :: back)
    (hreplaced : Text.lines replaced.toList = front ++ raw' :: back)
    (hcode : Code.ofLine .code raw = (code, .code))
    (hcode' : Code.ofLine .code raw' = (code', .code)) (htop : AtTopLevel front)
    (h : ∀ k, ((facts content)[front.length + 1 + k]?).bind (·.declaration)
        = ((facts replaced)[front.length + 1 + k]?).bind (·.declaration)
      ∧ ((facts content)[front.length + 1 + k]?).bind (·.field)
        = ((facts replaced)[front.length + 1 + k]?).bind (·.field)) :
    SameElsewhere (parse path content) (parse path replaced) (front.length + 1) := by
  intro line hline
  rw [declarationAt?_parse, declarationAt?_parse, fieldAt?_parse, fieldAt?_parse]
  cases line with
  | zero =>
      rw [if_pos rfl, if_pos rfl, if_pos rfl, if_pos rfl]
      exact ⟨rfl, rfl⟩
  | succ n =>
      rw [if_neg (Nat.succ_ne_zero n), if_neg (Nat.succ_ne_zero n), if_neg (Nat.succ_ne_zero n),
        if_neg (Nat.succ_ne_zero n), Nat.add_sub_cancel]
      rcases Nat.lt_or_ge n front.length with hfront | hback
      · rw [getElem?_facts_front hlines htop hcode hfront,
          getElem?_facts_front hreplaced htop hcode' hfront]
        exact ⟨rfl, rfl⟩
      · obtain ⟨k, rfl⟩ : ∃ k, n = front.length + 1 + k := ⟨n - (front.length + 1), by omega⟩
        exact h k

/-- A group on one line at the top level changes no other line exactly if a group was open before,
    or if every line up to the next one that starts with a closing parenthesis declares what it
    declares as an entry of the group. -/
theorem sameElsewhere_iff (hlines : Text.lines content.toList = front ++ raw :: back)
    (hreplaced : Text.lines replaced.toList = front ++ blank :: back)
    (hcode : Code.ofLine .code raw = (code, .code)) (hgroup : IsOneLineGroup group code)
    (hblank : AllBlank blank) (htop : AtTopLevel front) :
    SameElsewhere (parse path content) (parse path replaced) (front.length + 1)
      ↔ (({} : Nesting).behind (Code.ofLines front)).group ≠ none
        ∨ ∀ k entry, ReadInGroup (Code.ofLines back) k entry →
          (parse path replaced).index.declarationAt? (front.length + 2 + k)
            = group.entry entry (front.length + 2 + k) := by
  have hcode' : Code.ofLine .code blank = (blank, .code) := by
    have hread := Code.ReadsAs.plain (fun c hc => Code.isPlain_of_isBlank (hblank c hc)) []
    rw [List.append_nil] at hread
    rw [hread]
    exact Prod.ext (List.append_nil blank) rfl
  have hdepth : (({} : Nesting).behind (Code.ofLines front)).depth = 0 := by
    rw [Nesting.depth_behind, htop.depth]
    rfl
  have hdepth' : ((({} : Nesting).behind (Code.ofLines front)).next blank).depth = 0 := by
    rw [Nesting.depth_next, hdepth, braceChange_blank hblank]
    rfl
  have hback : ∀ k, (facts content)[front.length + 1 + k]?
      = ((((({} : Nesting).behind (Code.ofLines front)).next blank).withGroup
          ((({} : Nesting).behind (Code.ofLines front)).group.or (some group))).readAll
        (front.length + 2) (back.zip (Code.ofLines back)))[k]? := by
    intro k
    rw [getElem?_facts_back hlines htop hcode, Nesting.next_of_oneLineGroup hdepth hgroup hblank]
  have hback' := getElem?_facts_back hreplaced htop hcode'
  have hcodes := map_snd_zip_ofLines back
  have hdeclared : ∀ (content : String) k,
      (parse path content).index.declarationAt? (front.length + 2 + k)
        = ((facts content)[front.length + 1 + k]?).bind (·.declaration) := by
    intro content k
    rw [declarationAt?_parse, if_neg (by omega),
      show front.length + 2 + k - 1 = front.length + 1 + k by omega]
  have hblankGroup := (({} : Nesting).behind (Code.ofLines front)).group_next_blank hblank
  rw [← hblankGroup] at hback ⊢
  generalize (({} : Nesting).behind (Code.ofLines front)).next blank = nesting
    at hback hback' hdepth'
  cases hopen : nesting.group with
  | some opened =>
      refine ⟨fun _ => .inl (Option.some_ne_none opened), fun _ => ?_⟩
      have hnesting : nesting.withGroup (nesting.group.or (some group)) = nesting :=
        Nesting.eq_of_fields rfl (by rw [hopen]; rfl) rfl
      refine sameElsewhere_of_back hlines hreplaced hcode hcode' htop fun k => ?_
      rw [hback, hback', hnesting]
      exact ⟨rfl, rfl⟩
  | none =>
      rw [hopen] at hback
      constructor
      · intro hsame
        refine .inr fun k entry hread => ?_
        rw [← (hsame _ (by omega)).1, hdeclared, hback]
        rw [← hcodes] at hread
        have hgrouped : (nesting.withGroup (some group)).depth = 0 := hdepth'
        exact Nesting.readAll_entry hgrouped rfl hread _
      · rintro (hnone | hentries)
        · exact absurd rfl hnone
        · refine sameElsewhere_of_back hlines hreplaced hcode hcode' htop fun k => ?_
          rw [hback, hback']
          refine Nesting.readAll_withGroup hdepth' (fun k entry hread => ?_) k
          rw [hcodes] at hread
          rw [← hback', ← hdeclared]
          exact hentries k entry hread

/-- The lines in front of the samples. -/
def packageLines : List (List Char) :=
  ["package svc".toList, []]

theorem atTopLevel_packageLines : AtTopLevel packageLines where
  state := by decide
  depth := by decide
  parens := by
    intro k
    rcases k with _ | _ | k
    · decide
    · decide
    · show Code.parenDepth ([].drop k) ≤ 0
      rw [List.drop_nil]
      decide

/-- The code of an import of one package, in a group on one line. -/
theorem isOneLineGroup_import : IsOneLineGroup .imports "import (\"\")".toList :=
  ⟨"import", [' '], ['"', '"'], by decide, List.all_eq_true.mp (by decide),
    .char (by decide) (.char (by decide) .nil), by decide⟩

/-- A source with a struct behind other lines. -/
def structSource (first : String) : String :=
  "package svc\n\n" ++ first ++ "\n\ntype T struct \x7b\n\tA int\n\x7d\n"

/-- The lines of the struct. -/
def structLines : List (List Char) :=
  [[], "type T struct \x7b".toList, "\tA int".toList, ['\x7d']]

/-- A group on one line is closed by the end of another group. -/
theorem sameElsewhere_imports :
    AtTopLevel packageLines ∧ IsOneLineGroup .imports "import (\"\")".toList
      ∧ SameElsewhere (parse ⟨"svc/a.go"⟩ (structSource "import (\"fmt\")\nimport (\n\t\"os\"\n)"))
        (parse ⟨"svc/a.go"⟩ (structSource "\nimport (\n\t\"os\"\n)")) 3 := by
  refine ⟨atTopLevel_packageLines, isOneLineGroup_import, ?_⟩
  have hlines : Text.lines (structSource "import (\"fmt\")\nimport (\n\t\"os\"\n)").toList
      = packageLines ++ "import (\"fmt\")".toList
        :: (["import (".toList, "\t\"os\"".toList, [')']] ++ structLines) := by
    decide +kernel
  have hreplaced : Text.lines (structSource "\nimport (\n\t\"os\"\n)").toList
      = packageLines ++ [] :: (["import (".toList, "\t\"os\"".toList, [')']] ++ structLines) := by
    decide +kernel
  refine (sameElsewhere_iff hlines hreplaced (by decide +kernel) isOneLineGroup_import AllBlank.nil
    atTopLevel_packageLines).mpr (.inr fun k entry hread => ?_)
  rcases k with _ | _ | k
  · show (parse _ _).index.declarationAt? 4 = none
    decide +kernel
  · show (parse _ _).index.declarationAt? 5 = none
    decide +kernel
  -- the third line closes the group
  · exact absurd (by decide)
      (hread.staysOpen 2 (by omega) [')'] (by decide +kernel) (by decide +kernel))

/-- An import group on one line hides a struct behind it. -/
theorem not_sameElsewhere_of_import : ¬ ∀ (path : Path) (content replaced : String)
    (front back : List (List Char)) (raw code blank : List Char) (group : Group),
      Text.lines content.toList = front ++ raw :: back →
      Text.lines replaced.toList = front ++ blank :: back →
      Code.ofLine .code raw = (code, .code) → IsOneLineGroup group code → AllBlank blank →
      AtTopLevel front →
      SameElsewhere (parse path content) (parse path replaced) (front.length + 1) := by
  intro h
  have hsame := h ⟨"svc/a.go"⟩ (structSource "import (\"fmt\")") (structSource "") packageLines
    structLines "import (\"fmt\")".toList "import (\"\")".toList [] .imports (by decide +kernel)
    (by decide +kernel) (by decide +kernel) isOneLineGroup_import AllBlank.nil
    atTopLevel_packageLines
  have hhidden : (parse ⟨"svc/a.go"⟩ (structSource "import (\"fmt\")")).index.declarationAt? 5
      = none := by
    decide +kernel
  have hdeclared : (parse ⟨"svc/a.go"⟩ (structSource "")).index.declarationAt? 5 ≠ none := by
    decide +kernel
  exact hdeclared ((hsame 5 (by decide)).1.symm.trans hhidden)

end SourceFile

end ServiceWiring
