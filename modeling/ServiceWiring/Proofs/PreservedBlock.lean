import ServiceWiring.Generated.PreservedBlock
import ServiceWiring.Proofs.Text

/-!
# Reading preserved blocks back

Blocks are written with a marker line in front and one behind.  Reading such lines gives the
blocks back as long as their names differ and no block holds its own end, and the blocks that are
read from a text are always of that kind: an unterminated block, a block without a name, a block
that holds the markers of another one.  The one thing that is lost is a carriage return at the end
of a line, because the next reader takes it for a part of the line end.

* `PreservedBlock.markedName?_eq_none_iff`, `PreservedBlock.markedName?_marked` — marker lines;
* `PreservedBlock.Kept`, `PreservedBlock.chomped` — blocks that can be written and read back, and
  what comes back;
* `PreservedBlock.extractFrom_append_markedLines`, `PreservedBlock.extract_append_markedAll` —
  reading what was written, one block at a time and all of them;
* `PreservedBlock.foundIn_of_mem_extract`, `PreservedBlock.nodup_extract` — what is read from a
  text.
-/

namespace ServiceWiring

open Text

namespace PreservedBlock

/-! ## Marker lines -/

/-- A marker: it neither starts nor ends with a blank. -/
structure IsMarker (marker : String) : Prop where
  head : marker.toList.head?.any (!isBlank ·) = true
  last : marker.toList.getLast?.any (!isBlank ·) = true

theorem isMarker_begin : IsMarker beginMarker :=
  ⟨by decide, by decide⟩

theorem isMarker_end : IsMarker endMarker :=
  ⟨by decide, by decide⟩

variable {marker : String}

/-- Marker lines are those that start with the marker, apart from blanks. -/
theorem markedName?_eq_none_iff (hmarker : IsMarker marker) {line : String} :
    markedName? marker line = none ↔ ¬ marker.toList <+: trimStart line.toList := by
  unfold markedName?
  rw [Option.map_eq_none_iff]
  constructor
  · rintro hnone ⟨rest, hrest⟩
    -- the marker ends visibly, so trimming the end of the line does not cut it
    have htrim : trim line.toList = marker.toList ++ trimEnd rest := by
      rw [← trimEnd_append hmarker.last, hrest]
      rfl
    rw [after?_eq_some_iff.mpr htrim] at hnone
    cases hnone
  · intro hstart
    cases hafter : after? marker.toList (trim line.toList) with
    | none => rfl
    | some rest =>
        refine absurd (List.IsPrefix.trans ?_ (trim_isPrefix line.toList)) hstart
        exact ⟨rest, (after?_eq_some_iff.mp hafter).symm⟩

/-- The name of a marker line is what the line was written with. -/
theorem markedName?_marked (hmarker : IsMarker marker) {name : String}
    (hname : trim name.toList = name.toList) :
    markedName? marker (marker ++ " " ++ name) = some name := by
  have hline : (marker ++ " " ++ name).toList = marker.toList ++ ' ' :: name.toList := by
    rw [String.toList_append, String.toList_append, List.append_assoc]
    rfl
  have htrim : trim (marker ++ " " ++ name).toList
      = marker.toList ++ trimEnd (' ' :: name.toList) := by
    have hstart : trimStart (marker.toList ++ ' ' :: name.toList) =
        marker.toList ++ ' ' :: name.toList := by
      refine trimStart_eq_self ?_
      cases hcs : marker.toList with
      | nil => exact absurd hmarker.head (by rw [hcs]; exact Bool.false_ne_true)
      | cons c cs => simpa [hcs] using hmarker.head
    rw [hline, trim, hstart, trimEnd_append hmarker.last]
  unfold markedName?
  rw [after?_eq_some_iff.mpr htrim, Option.map_some]
  refine congrArg some ?_
  by_cases hnil : name.toList = []
  · rw [hnil, ← String.ofList_toList (s := name), hnil]
    rfl
  · -- a name that is not empty ends visibly, and only the space in front of it goes
    have hlast : (' ' :: name.toList).getLast?.any (!isBlank ·) = true := by
      have hends := (trim_ends (hname ▸ hnil)).2
      rw [hname] at hends
      rwa [List.getLast?_cons_of_ne_nil hnil]
    have hspace : trim (' ' :: name.toList) = trim name.toList := rfl
    rw [trimEnd_eq_self hlast, hspace, hname, String.ofList_toList]

/-- Putting two texts together gives a marker line only if one of them is one or the marker lies
    across the seam. -/
theorem markedName?_append (hmarker : IsMarker marker) {front start : String}
    (hfront : markedName? marker front = none) {behind : String}
    (hbehind : markedName? marker (start ++ behind) = none)
    (hseam : ∀ n < marker.toList.length,
      ¬ marker.toList.drop n <+: start.toList ∧ ¬ start.toList <+: marker.toList.drop n) :
    markedName? marker (front ++ (start ++ behind)) = none := by
  rw [markedName?_eq_none_iff hmarker] at hfront hbehind ⊢
  rw [String.toList_append]
  by_cases hblank : trimStart front.toList = []
  · -- blanks in front change nothing
    have hdropped : front.toList.dropWhile isBlank = [] := hblank
    show ¬ marker.toList <+: (front.toList ++ _).dropWhile isBlank
    rw [List.dropWhile_append, hdropped]
    exact hbehind
  rw [trimStart_append hblank]
  rintro ⟨rest, hrest⟩
  rcases List.append_eq_append_iff.mp hrest with ⟨cut, hcut, -⟩ | ⟨cut, hcut, hcross⟩
  · exact hfront ⟨cut, hcut.symm⟩
  · -- the part of the marker behind the seam would have to start like the second text
    have hdrop : marker.toList.drop (trimStart front.toList).length = cut := by
      rw [hcut, List.drop_left]
    have hlength : (trimStart front.toList).length < marker.toList.length := by
      refine Nat.lt_of_not_le fun hle => hfront ?_
      have hnil : cut = [] := by rw [← hdrop, List.drop_eq_nil_of_le hle]
      have hwhole : marker.toList = trimStart front.toList := by
        rw [hcut, hnil, List.append_nil]
      exact ⟨[], (List.append_nil _).trans hwhole⟩
    have hapart := hseam _ hlength
    rw [hdrop] at hapart
    rw [String.toList_append] at hcross
    rcases List.prefix_or_prefix_of_prefix ⟨_, hcross.symm⟩ (List.prefix_append _ _) with h | h
    · exact hapart.1 h
    · exact hapart.2 h

theorem markedName?_of_not_mem (hmarker : IsMarker marker) {c : Char} (hc : c ∈ marker.toList)
    {line : String} (h : c ∉ line.toList) : markedName? marker line = none := by
  refine (markedName?_eq_none_iff hmarker).mpr fun hstart => h ?_
  exact trimStart_subset _ (hstart.subset hc)

/-! ## Blocks that come back -/

/-- No line of a block ends in a carriage return. -/
def Smooth (block : PreservedBlock) : Prop :=
  ∀ l ∈ block.body, l.toList.getLast? ≠ some '\r'

instance (block : PreservedBlock) : Decidable block.Smooth :=
  inferInstanceAs (Decidable (∀ _ ∈ _, _))

/-- A block as it comes back: a carriage return at the end of a line is gone. -/
def chomped (block : PreservedBlock) : PreservedBlock :=
  { block with body := block.body.map fun l => String.ofList (dropReturn l.toList) }

/-- A block as it is found among the given lines: its name is on one line and between no blanks,
    its lines are some of the given ones, and none of them ends the block. -/
structure FoundIn (ls : List String) (block : PreservedBlock) : Prop where
  name : Unbroken block.name.toList
  trimmed : trim block.name.toList = block.name.toList
  body : block.body ⊆ ls
  opened : ∀ l ∈ block.body, markedName? endMarker l ≠ some block.name

/-- A block that comes back when it is written and read: its name and its lines are on one line
    each, the name stands between no blanks, and no line ends the block. -/
structure Kept (block : PreservedBlock) : Prop where
  name : Unbroken block.name.toList
  trimmed : trim block.name.toList = block.name.toList
  body : ∀ l ∈ block.body, Unbroken l.toList
  opened : ∀ l ∈ block.body, markedName? endMarker l ≠ some block.name

theorem Smooth.chomped_eq {block : PreservedBlock} (h : block.Smooth) : block.chomped = block := by
  have hbody : block.body.map (fun l => String.ofList (dropReturn l.toList)) = block.body := by
    refine (List.map_congr_left fun l hl => ?_).trans (List.map_id _)
    rw [dropReturn, if_neg (h l hl), String.ofList_toList]
    rfl
  unfold chomped
  rw [hbody]

theorem map_chomped_of_smooth {blocks : List PreservedBlock} (h : ∀ b ∈ blocks, b.Smooth) :
    blocks.map chomped = blocks :=
  (List.map_congr_left fun b hb => (h b hb).chomped_eq).trans (List.map_id _)

/-- A carriage return at its end does not change what a line marks. -/
theorem markedName?_dropReturn (marker l : String) :
    markedName? marker (String.ofList (dropReturn l.toList)) = markedName? marker l := by
  unfold markedName?
  rw [String.toList_ofList, trim_dropReturn]

theorem Kept.chomped {block : PreservedBlock} (h : block.Kept) : block.chomped.Kept := by
  refine ⟨h.name, h.trimmed, ?_, ?_⟩
  · intro l hl
    obtain ⟨m, hm, rfl⟩ := List.mem_map.mp hl
    rw [String.toList_ofList]
    exact (h.body m hm).of_subset (dropReturn_subset _)
  · intro l hl
    obtain ⟨m, hm, rfl⟩ := List.mem_map.mp hl
    rw [markedName?_dropReturn]
    exact h.opened m hm

/-- A marker line with a trimmed name ends in the name or in the space in front of it. -/
theorem dropReturn_marked (marker : String) {name : String}
    (hname : trim name.toList = name.toList) :
    String.ofList (dropReturn (marker ++ " " ++ name).toList) = marker ++ " " ++ name := by
  have hline : (marker ++ " " ++ name).toList = marker.toList ++ ' ' :: name.toList := by
    rw [String.toList_append, String.toList_append, List.append_assoc]
    rfl
  have hlast : (marker ++ " " ++ name).toList.getLast? ≠ some '\r' := by
    rw [hline, List.getLast?_append_of_ne_nil _ (List.cons_ne_nil _ _)]
    by_cases hnil : name.toList = []
    · rw [hnil]
      decide
    · have hends := (trim_ends (hname ▸ hnil)).2
      rw [hname] at hends
      rw [List.getLast?_cons_of_ne_nil hnil]
      intro hlast
      rw [hlast] at hends
      exact absurd hends (by decide)
  rw [dropReturn, if_neg hlast, String.ofList_toList]

theorem Kept.unbroken_markedLines {block : PreservedBlock} (h : block.Kept) :
    ∀ l ∈ block.markedLines, Unbroken l.toList := by
  have hmarked : ∀ marker : String, Unbroken marker.toList →
      Unbroken (marker ++ " " ++ block.name).toList := fun marker hmarker =>
    unbroken_append.mpr ⟨unbroken_append.mpr ⟨hmarker, by decide⟩, h.name⟩
  intro l hl
  rcases List.mem_append.mp hl with hl | hl
  · rcases List.mem_cons.mp hl with rfl | hl
    · exact hmarked beginMarker (by decide)
    · exact h.body l hl
  · rw [List.mem_singleton.mp hl]
    exact hmarked endMarker (by decide)

/-- The lines of a block come back as those of the block without its carriage returns. -/
theorem Kept.map_markedLines {block : PreservedBlock} (h : block.Kept) :
    block.markedLines.map (fun l => String.ofList (dropReturn l.toList))
      = block.chomped.markedLines := by
  unfold markedLines
  rw [List.map_append, List.map_cons, List.map_singleton]
  show String.ofList (dropReturn (beginMarker ++ " " ++ block.name).toList) :: _
    ++ [String.ofList (dropReturn (endMarker ++ " " ++ block.name).toList)] = _
  rw [dropReturn_marked beginMarker h.trimmed, dropReturn_marked endMarker h.trimmed]
  rfl

/-! ## Reading what was written -/

variable {blocks : List PreservedBlock} {block : PreservedBlock} {rest : List String}

/-- Between blocks only a marker line counts. -/
theorem extractFrom_append_plain {plain : List String}
    (h : ∀ l ∈ plain, markedName? beginMarker l = none) :
    extractFrom blocks none (plain ++ rest) = extractFrom blocks none rest := by
  induction plain with
  | nil => rfl
  | cons l plain ih =>
      rw [List.cons_append, extractFrom, h l (List.mem_cons_self ..)]
      exact ih fun m hm => h m (List.mem_cons_of_mem _ hm)

/-- Inside a block only the end of this block counts. -/
theorem extractFrom_append_body {name : String} {body : List String}
    (h : ∀ l ∈ body, markedName? endMarker l ≠ some name) (front : List String) :
    extractFrom blocks (some ⟨name, front⟩) (body ++ rest) =
      extractFrom blocks (some ⟨name, front ++ body⟩) rest := by
  induction body generalizing front with
  | nil =>
      rw [List.append_nil]
      rfl
  | cons l body ih =>
      rw [List.cons_append, extractFrom, if_neg (h l (List.mem_cons_self ..)),
        ih (fun m hm => h m (List.mem_cons_of_mem _ hm)), List.append_assoc]
      rfl

/-- A text has no blocks if and only if no line opens one. -/
theorem extract_eq_nil_iff {text : String} :
    extract text = [] ↔ ∀ l ∈ linesOf text, markedName? beginMarker l = none := by
  have hpush : ∀ blocks block, push blocks block ≠ [] := by
    intro blocks block
    unfold push
    split
    · rintro rfl
      contradiction
    · exact List.append_ne_nil_of_right_ne_nil _ (List.cons_ne_nil _ _)
  -- once a block is open, or one has been found, the result is not empty
  have hfound : ∀ (ls : List String) blocks current, blocks ≠ [] ∨ current.isSome = true →
      extractFrom blocks current ls ≠ [] := by
    intro ls blocks current h
    fun_induction extractFrom blocks current ls with
    | case1 blocks => exact h.resolve_right Bool.false_ne_true
    | case2 blocks block => exact hpush blocks block
    | case3 blocks l rest name hname ih => exact ih (Or.inr rfl)
    | case4 blocks l rest hname ih => exact ih (Or.inl (h.resolve_right Bool.false_ne_true))
    | case5 blocks block l rest hend ih => exact ih (Or.inl (hpush blocks block))
    | case6 blocks block l rest hend ih => exact ih (Or.inr rfl)
  unfold extract
  generalize linesOf text = ls
  constructor
  · intro hnil l hl
    induction ls with
    | nil => cases hl
    | cons first rest ih =>
        rw [extractFrom] at hnil
        cases hname : markedName? beginMarker first with
        | some name =>
            rw [hname] at hnil
            exact absurd hnil (hfound rest [] (some ⟨name, []⟩) (Or.inr rfl))
        | none =>
            rw [hname] at hnil
            rcases List.mem_cons.mp hl with rfl | hl
            · exact hname
            · exact ih hnil hl
  · intro hplain
    have hread : extractFrom [] none (ls ++ []) = extractFrom [] none [] :=
      extractFrom_append_plain hplain
    rwa [List.append_nil] at hread

/-- A block that was written with its markers is read as one step. -/
theorem extractFrom_append_markedLines (h : block.Kept) :
    extractFrom blocks none (block.markedLines ++ rest) =
      extractFrom (push blocks block) none rest := by
  have hbegin : markedName? beginMarker s!"{beginMarker} {block.name}" = some block.name :=
    markedName?_marked isMarker_begin h.trimmed
  have hend : markedName? endMarker s!"{endMarker} {block.name}" = some block.name :=
    markedName?_marked isMarker_end h.trimmed
  rw [markedLines, List.cons_append, List.cons_append, extractFrom, hbegin]
  dsimp only
  rw [List.append_assoc, extractFrom_append_body h.opened, List.singleton_append, extractFrom,
    if_pos hend, List.nil_append]

theorem push_of_not_mem (h : block.name ∉ blocks.map (·.name)) :
    push blocks block = blocks ++ [block] := by
  unfold push
  rw [if_neg]
  intro hany
  obtain ⟨other, hother, hname⟩ := List.any_eq_true.mp hany
  exact h (List.mem_map.mpr ⟨other, hother, beq_iff_eq.mp hname⟩)

/-- Blocks of different names that were written one behind the other are read in their order. -/
theorem extractFrom_markedAll {more : List PreservedBlock} (hmore : ∀ b ∈ more, b.Kept)
    (hnodup : ((blocks ++ more).map (·.name)).Nodup) :
    extractFrom blocks none (more.flatMap fun b => "" :: b.markedLines) = blocks ++ more := by
  induction more generalizing blocks with
  | nil =>
      rw [List.append_nil]
      rfl
  | cons b more ih =>
      have hempty : ∀ l ∈ [""], markedName? beginMarker l = none := by decide
      have hfresh : b.name ∉ blocks.map (·.name) := by
        rw [List.map_append, List.map_cons] at hnodup
        intro hmem
        exact (List.nodup_append.mp hnodup).2.2 _ hmem _ (List.mem_cons_self ..) rfl
      rw [List.append_cons] at hnodup ⊢
      rw [List.flatMap_cons, ← List.singleton_append, List.append_assoc,
        extractFrom_append_plain hempty,
        extractFrom_append_markedLines (hmore b (List.mem_cons_self ..)), push_of_not_mem hfresh]
      exact ih (fun c hc => hmore c (List.mem_cons_of_mem _ hc)) hnodup

/-- Blocks that were written behind lines without a block are all that is read. -/
theorem extract_append_markedAll {front : List String} (hfront : extract (unlines front) = [])
    (hblocks : ∀ b ∈ blocks, b.Kept) (hnodup : (blocks.map (·.name)).Nodup) :
    extract (unlines (front ++ blocks.flatMap fun b => "" :: b.markedLines))
      = blocks.map chomped := by
  have hunbroken : ∀ l ∈ blocks.flatMap fun b => "" :: b.markedLines, Unbroken l.toList := by
    intro l hl
    obtain ⟨b, hb, hl⟩ := List.mem_flatMap.mp hl
    rcases List.mem_cons.mp hl with rfl | hl
    · decide
    · exact (hblocks b hb).unbroken_markedLines l hl
  have hlines : linesOf (unlines (blocks.flatMap fun b => "" :: b.markedLines))
      = (blocks.map chomped).flatMap fun b => "" :: b.markedLines := by
    rw [linesOf_unlines hunbroken, List.map_flatMap, List.flatMap_map]
    refine List.flatMap_congr fun b hb => ?_
    rw [List.map_cons, (hblocks b hb).map_markedLines]
    rfl
  have hchomped : ∀ b ∈ blocks.map chomped, b.Kept := by
    intro b hb
    obtain ⟨c, hc, rfl⟩ := List.mem_map.mp hb
    exact (hblocks c hc).chomped
  have hnames : ((blocks.map chomped).map (·.name)).Nodup := by
    rw [List.map_map]
    exact hnodup
  unfold extract
  rw [unlines_append, linesOf_unlines_append, hlines,
    extractFrom_append_plain (extract_eq_nil_iff.mp hfront)]
  exact extractFrom_markedAll hchomped hnames

/-! ## What is read from a text -/

theorem mem_push {b : PreservedBlock} (h : b ∈ push blocks block) : b ∈ blocks ∨ b = block := by
  unfold push at h
  split at h
  · exact Or.inl h
  · rcases List.mem_append.mp h with h | h
    · exact Or.inl h
    · exact Or.inr (List.mem_singleton.mp h)

theorem nodup_push (h : (blocks.map (·.name)).Nodup) (block : PreservedBlock) :
    ((push blocks block).map (·.name)).Nodup := by
  unfold push
  split
  · exact h
  · rename_i hfresh
    rw [List.map_append, List.map_singleton]
    refine List.nodup_append.mpr ⟨h, List.pairwise_singleton _ _, ?_⟩
    rintro name hname _ hblock rfl
    rw [List.mem_singleton] at hblock
    obtain ⟨other, hother, heq⟩ := List.mem_map.mp hname
    exact hfresh (List.any_eq_true.mpr ⟨other, hother, beq_iff_eq.mpr (heq.trans hblock)⟩)

/-- The name of a marker line is trimmed. -/
theorem foundIn_of_markedName? {l name : String} (hl : Unbroken l.toList)
    (h : markedName? marker l = some name) (ls : List String) : FoundIn ls ⟨name, []⟩ := by
  obtain ⟨behind, hbehind, rfl⟩ := Option.map_eq_some_iff.mp h
  have hsub : trim behind ⊆ l.toList :=
    List.Subset.trans (trim_subset behind)
      (List.Subset.trans (after?_subset hbehind) (trim_subset l.toList))
  refine ⟨?_, ?_, List.nil_subset ls, fun _ h => (nomatch h)⟩
  · rw [String.toList_ofList]
    exact hl.of_subset hsub
  · rw [String.toList_ofList, trim_trim]

theorem FoundIn.append_line {ls : List String} (h : block.FoundIn ls) {l : String} (hl : l ∈ ls)
    (hopened : markedName? endMarker l ≠ some block.name) :
    FoundIn ls { block with body := block.body ++ [l] } := by
  refine ⟨h.name, h.trimmed, ?_, ?_⟩
  · exact List.append_subset.mpr ⟨h.body, List.cons_subset.mpr ⟨hl, List.nil_subset ls⟩⟩
  · intro m hm
    rcases List.mem_append.mp hm with hm | hm
    · exact h.opened m hm
    · rw [List.mem_singleton.mp hm]
      exact hopened

/-- Along the lines of a text the blocks found so far, and the open one, are made of these
    lines. -/
theorem foundIn_of_mem_extractFrom {all : List String} (hall : ∀ l ∈ all, Unbroken l.toList)
    {current : Option PreservedBlock} {ls : List String} (hls : ls ⊆ all)
    (hblocks : ∀ b ∈ blocks, b.FoundIn all) (hcurrent : ∀ b ∈ current, b.FoundIn all) :
    ∀ b ∈ extractFrom blocks current ls, b.FoundIn all := by
  -- a block that ends is added, or dropped because its name is taken
  have hpush : ∀ {blocks : List PreservedBlock} {block : PreservedBlock},
      (∀ b ∈ blocks, b.FoundIn all) → block.FoundIn all →
        ∀ b ∈ push blocks block, b.FoundIn all := by
    intro blocks block hblocks hblock b hb
    rcases mem_push hb with hb | rfl
    · exact hblocks b hb
    · exact hblock
  fun_induction extractFrom blocks current ls with
  | case1 blocks => exact hblocks
  | case2 blocks block => exact hpush hblocks (hcurrent block rfl)
  | case3 blocks l rest name hname ih =>
      obtain ⟨hl, hrest⟩ := List.cons_subset.mp hls
      refine ih hrest hblocks ?_
      rintro _ ⟨rfl⟩
      exact foundIn_of_markedName? (hall l hl) hname all
  | case4 blocks l rest hname ih =>
      exact ih (List.cons_subset.mp hls).2 hblocks fun _ h => nomatch h
  | case5 blocks block l rest hend ih =>
      exact ih (List.cons_subset.mp hls).2 (hpush hblocks (hcurrent block rfl)) fun _ h => nomatch h
  | case6 blocks block l rest hend ih =>
      obtain ⟨hl, hrest⟩ := List.cons_subset.mp hls
      refine ih hrest hblocks ?_
      rintro _ ⟨rfl⟩
      exact (hcurrent block rfl).append_line hl hend

theorem nodup_extractFrom (h : (blocks.map (·.name)).Nodup) (current : Option PreservedBlock)
    (ls : List String) : ((extractFrom blocks current ls).map (·.name)).Nodup := by
  fun_induction extractFrom blocks current ls with
  | case1 blocks => exact h
  | case2 blocks block => exact nodup_push h block
  | case3 blocks l rest name hname ih => exact ih h
  | case4 blocks l rest hname ih => exact ih h
  | case5 blocks block l rest hend ih => exact ih (nodup_push h block)
  | case6 blocks block l rest hend ih => exact ih h

/-- The blocks of a text are made of its lines. -/
theorem foundIn_of_mem_extract {text : String} {b : PreservedBlock} (hb : b ∈ extract text) :
    b.FoundIn (linesOf text) := by
  have hnone : ∀ b ∈ (none : Option PreservedBlock), b.FoundIn (linesOf text) :=
    fun b hb => nomatch hb
  refine foundIn_of_mem_extractFrom ?_ (List.Subset.refl _) (List.forall_mem_nil _) hnone b hb
  intro l hl
  obtain ⟨line, hline, rfl⟩ := List.mem_map.mp hl
  rw [String.toList_ofList]
  exact unbroken_of_mem_lines hline

/-- All blocks of a text can be written and read back. -/
theorem kept_of_mem_extract {text : String} {b : PreservedBlock} (hb : b ∈ extract text) :
    b.Kept := by
  have hfound := foundIn_of_mem_extract hb
  refine ⟨hfound.name, hfound.trimmed, ?_, hfound.opened⟩
  intro l hl
  obtain ⟨line, hline, rfl⟩ := List.mem_map.mp (hfound.body hl)
  rw [String.toList_ofList]
  exact unbroken_of_mem_lines hline

/-- The lines of a block hold no characters but those of the text. -/
theorem smooth_of_not_mem {text : String} (htext : '\r' ∉ text.toList) {b : PreservedBlock}
    (hb : b ∈ extract text) : b.Smooth := by
  intro l hl hlast
  obtain ⟨line, hline, rfl⟩ := List.mem_map.mp ((foundIn_of_mem_extract hb).body hl)
  rw [String.toList_ofList] at hlast
  exact htext (subset_of_mem_lines hline (List.mem_of_getLast? hlast))

theorem nodup_extract (text : String) : ((extract text).map (·.name)).Nodup := by
  refine nodup_extractFrom ?_ none (linesOf text)
  exact List.Pairwise.nil

end PreservedBlock

end ServiceWiring
