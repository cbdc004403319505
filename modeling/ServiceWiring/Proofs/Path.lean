import ServiceWiring.FileTree.Replace
import ServiceWiring.Proofs.Text

/-!
# The names on a path

A path is followed by the names on it; empty segments and dots lead nowhere.  What a path leads
to therefore depends on two things only: its names and whether it starts at the root.

* `Path.names` — the segments of a path that lead somewhere;
* `Path.names_child`, `Path.parent?_of_names` — the names of a file in a folder, and of the
  folder of a file;
* `Path.temporary?_child` — where the temporary file of a file in a folder stands;
* `FileTree.enterAll_steps` — following a path is following its names.
-/

namespace ServiceWiring

open Text

/-! ## Names -/

/-- Whether a text can be the name of a file: it is no dot, and no separator cuts it. -/
def IsEntryName (name : String) : Prop :=
  name ≠ "" ∧ name ≠ "." ∧ name ≠ ".." ∧ '/' ∉ name.toList

instance (name : String) : Decidable (IsEntryName name) :=
  inferInstanceAs (Decidable (_ ∧ _ ∧ _ ∧ _))

/-- The name of the temporary file beside a file. -/
def temporaryName (name : String) : String :=
  s!".{name}.tmp"

namespace Path

/-- The segments of a text that are neither empty nor a dot. -/
def solid (cs : List Char) : List (List Char) :=
  (splitWhere (· == '/') cs).filter fun s => !isVoid s

/-- The names on a path. -/
def names (p : Path) : List String :=
  (solid p.text.toList).map String.ofList

theorem solid_append_cons (front behind : List Char) :
    solid (front ++ '/' :: behind) = solid front ++ solid behind := by
  rw [solid, splitWhere_append_cons rfl, List.filter_append]
  rfl

theorem toList_ne_nil {name : String} (h : name ≠ "") : name.toList ≠ [] := by
  intro hn
  exact h (String.toList_inj.mp hn)

theorem isVoid_eq_false {name : String} (h : IsEntryName name) : isVoid name.toList = false := by
  have h1 : name.toList.isEmpty = false := by
    rw [List.isEmpty_eq_false_iff]
    exact toList_ne_nil h.1
  have h2 : (name.toList == ['.']) = false := by
    rw [beq_eq_false_iff_ne]
    intro hn
    exact h.2.1 (String.toList_inj.mp hn)
  rw [isVoid, h1, h2]
  rfl

theorem splitWhere_segment {name : String} (h : '/' ∉ name.toList) :
    splitWhere (· == '/') name.toList = [name.toList] := by
  refine splitWhere_eq_singleton fun c hc => ?_
  rw [beq_eq_false_iff_ne]
  rintro rfl
  exact h hc

theorem isAbsolute_eq_false {name : String} (h : '/' ∉ name.toList) :
    Path.isAbsolute ⟨name⟩ = false := by
  rw [isAbsolute, beq_eq_false_iff_ne]
  intro hn
  exact h (List.mem_of_mem_head? hn)

/-- The two ways to spell a file in a folder: right behind the folder's text, or behind a
    separator. -/
theorem child_text (base : Path) {name : String} (h : '/' ∉ name.toList) :
    ((base.child name).text.toList = base.text.toList ++ name.toList ∧
        (base.text.toList = [] ∨ base.text.toList.getLast? = some '/'))
      ∨ ((base.child name).text.toList = base.text.toList ++ '/' :: name.toList ∧
        base.text.toList ≠ []) := by
  rw [child, join, isAbsolute_eq_false h, if_neg Bool.false_ne_true]
  split
  · rename_i hlast
    have hbase : base.text.toList = [] := List.getLast?_eq_none_iff.mp hlast
    refine Or.inl ⟨?_, Or.inl hbase⟩
    rw [hbase]
    rfl
  · rename_i hlast
    exact Or.inl ⟨String.toList_append, Or.inr hlast⟩
  · rename_i hlast
    refine Or.inr ⟨?_, ?_⟩
    · show (base.text ++ "/" ++ name).toList = _
      rw [String.toList_append, String.toList_append, List.append_assoc]
      rfl
    · intro hn
      rw [hn] at hlast
      cases hlast

/-- Among the segments of a file in a folder, a test that drops empty segments and keeps the
    name keeps those of the folder and the name. -/
theorem filter_split_child (base : Path) {name : String} (h : '/' ∉ name.toList)
    {keep : List Char → Bool} (hnil : keep [] = false) (hname : keep name.toList = true) :
    (splitWhere (· == '/') (base.child name).text.toList).filter keep
      = (splitWhere (· == '/') base.text.toList).filter keep ++ [name.toList] := by
  have hsplit := splitWhere_segment h
  rcases child_text base h with ⟨htext, hempty | hslash⟩ | ⟨htext, -⟩
  · rw [htext, hempty, List.nil_append, hsplit]
    simp [splitWhere, hnil, hname]
  · obtain ⟨front, hbase⟩ := List.getLast?_eq_some_iff.mp hslash
    rw [htext, hbase, List.append_assoc, List.singleton_append, splitWhere_append_cons rfl,
      hsplit, splitWhere_append_cons rfl]
    simp [splitWhere, hnil, hname]
  · rw [htext, splitWhere_append_cons rfl, hsplit]
    simp [hname]

theorem solid_child (base : Path) {name : String} (h : IsEntryName name) :
    solid (base.child name).text.toList = solid base.text.toList ++ [name.toList] :=
  filter_split_child base h.2.2.2 rfl (by rw [isVoid_eq_false h]; rfl)

theorem steps_child (base : Path) {name : String} (hne : name ≠ "") (h : '/' ∉ name.toList) :
    (base.child name).steps = base.steps ++ [name] := by
  have hname : (!name.toList.isEmpty) = true := by
    rw [Bool.not_eq_true', List.isEmpty_eq_false_iff]
    exact toList_ne_nil hne
  rw [steps, filter_split_child base h rfl hname, List.map_append]
  simp [steps]

theorem endsOpen_child (base : Path) {name : String} (h : IsEntryName name) :
    (base.child name).endsOpen = false := by
  have hlast : (base.child name).text.toList.getLast? = name.toList.getLast? := by
    obtain ⟨c, hc⟩ : ∃ c, name.toList.getLast? = some c :=
      ⟨_, List.getLast?_eq_some_getLast (toList_ne_nil h.1)⟩
    rcases child_text base h.2.2.2 with ⟨htext, -⟩ | ⟨htext, -⟩
    · rw [htext, List.getLast?_append, hc]
      rfl
    · rw [htext, List.getLast?_append, List.getLast?_cons, hc]
      rfl
  rw [endsOpen, hlast, beq_eq_false_iff_ne]
  intro hc
  exact h.2.2.2 (List.mem_of_getLast? hc)

@[simp]
theorem names_child (base : Path) {name : String} (h : IsEntryName name) :
    (base.child name).names = base.names ++ [name] := by
  rw [names, solid_child base h, List.map_append]
  simp [names]

@[simp]
theorem isAbsolute_child (base : Path) {name : String} (h : IsEntryName name) :
    (base.child name).isAbsolute = base.isAbsolute := by
  have hname := isAbsolute_eq_false h.2.2.2
  have hhead : base.text.toList ≠ [] → ∀ rest,
      (base.text.toList ++ rest).head? = base.text.toList.head? := by
    intro hne rest
    cases hb : base.text.toList with
    | nil => exact absurd hb hne
    | cons c cs => rfl
  rcases child_text base h.2.2.2 with ⟨htext, hempty | hslash⟩ | ⟨htext, hne⟩
  · rw [isAbsolute, htext, hempty, List.nil_append, isAbsolute, hempty]
    exact hname
  · have hne : base.text.toList ≠ [] := by
      intro hn
      rw [hn] at hslash
      cases hslash
    rw [isAbsolute, htext, isAbsolute, hhead hne]
  · rw [isAbsolute, htext, isAbsolute, hhead hne]

/-! ### Parts and parents -/

theorem filter_segments (cs : List Char) :
    ((segments cs).filter fun s => !isVoid s) = solid cs := by
  unfold segments lead
  split
  · simp [solid, splitWhere, isVoid]
  · rfl
  · simp [solid, splitWhere, isVoid, extendHead]
  · rfl

/-- The part that a name stands for. -/
def partOfName (name : String) : PathPart :=
  if name = ".." then .up else .name name

theorem map_partOf_solid (cs : List Char) :
    (solid cs).map partOf = ((solid cs).map String.ofList).map partOfName := by
  rw [List.map_map]
  refine List.map_congr_left fun s _ => ?_
  show partOf s = partOfName (String.ofList s)
  unfold partOf partOfName
  by_cases hs : s = ['.', '.']
  · subst hs
    rfl
  · have hne : String.ofList s ≠ ".." := by
      intro h
      refine hs ?_
      rw [← String.toList_ofList (l := s), h]
      rfl
    rw [if_neg hne, if_neg (by simpa using hs)]

theorem getLast?_parts {p : Path} {name : String} (h : p.names.getLast? = some name) :
    p.parts.getLast? = some (partOfName name) := by
  unfold parts
  dsimp only
  rw [filter_segments, map_partOf_solid]
  show (_ ++ p.names.map partOfName).getLast? = _
  rw [List.getLast?_append, List.getLast?_map, h]
  rfl

/-- The last name of a path is its file name. -/
theorem fileName?_of_names {p : Path} {name : String} (h : p.names.getLast? = some name)
    (hup : name ≠ "..") : p.fileName? = some name := by
  rw [fileName?, getLast?_parts h, partOfName, if_neg hup]

theorem fileName?_child (base : Path) {name : String} (h : IsEntryName name) :
    (base.child name).fileName? = some name := by
  refine fileName?_of_names ?_ h.2.2.1
  rw [names_child base h, List.getLast?_concat]

theorem mem_names_of_fileName? {p : Path} {name : String} (h : p.fileName? = some name) :
    name ∈ p.names := by
  unfold fileName? at h
  split at h
  · rename_i text hlast
    rw [← Option.some.inj h]
    have hmem := List.mem_of_getLast? hlast
    unfold parts at hmem
    dsimp only at hmem
    rw [filter_segments, map_partOf_solid] at hmem
    rcases List.mem_append.mp hmem with hstart | hname
    · split at hstart <;> simp at hstart
    · obtain ⟨other, hother, hpart⟩ := List.mem_map.mp hname
      unfold partOfName at hpart
      split at hpart
      · cases hpart
      · rw [← PathPart.name.inj hpart]
        exact hother
  · cases h

theorem not_mem_of_mem_names {p : Path} {name : String} (h : name ∈ p.names) :
    '/' ∉ name.toList := by
  obtain ⟨segment, hsegment, rfl⟩ := List.mem_map.mp h
  rw [String.toList_ofList]
  intro hslash
  have := not_mem_splitWhere (List.mem_filter.mp hsegment).1 '/' hslash
  exact absurd this (by decide)

theorem solid_intercalate {segments : List (List Char)} (h : ∀ s ∈ segments, '/' ∉ s) :
    solid (['/'].intercalate segments) = segments.filter fun s => !isVoid s := by
  cases segments with
  | nil => rfl
  | cons s rest =>
      rw [solid, splitWhere_intercalate rfl (List.cons_ne_nil _ _)]
      intro part hpart c hc
      rw [beq_eq_false_iff_ne]
      rintro rfl
      exact h part hpart hc

theorem filter_dropVoid (segments : List (List Char)) :
    ((dropVoid segments).filter fun s => !isVoid s) = segments.filter fun s => !isVoid s := by
  have hdrop : ∀ l : List (List Char),
      ((l.dropWhile isVoid).filter fun s => !isVoid s) = l.filter fun s => !isVoid s := by
    intro l
    induction l with
    | nil => rfl
    | cons s l ih =>
        cases hs : isVoid s with
        | true => simp [hs, ih]
        | false => simp [hs]
  rw [dropVoid, List.filter_reverse, hdrop, List.filter_reverse, List.reverse_reverse]

theorem dropVoid_isPrefix (segments : List (List Char)) : dropVoid segments <+: segments := by
  refine List.reverse_suffix.mp ?_
  rw [dropVoid, List.reverse_reverse]
  exact List.dropWhile_suffix _

/-- The text that a parent is spelled with keeps the names of its segments. -/
theorem solid_lead_append {cs : List Char} {kept : List (List Char)}
    (hkept : kept <+: segments cs) :
    solid ((lead cs).1 ++ ['/'].intercalate kept) = kept.filter fun s => !isVoid s := by
  have hslash : ∀ s ∈ kept, '/' ∉ s := by
    intro s hs hc
    have := not_mem_splitWhere (hkept.subset hs) '/' hc
    exact absurd this (by decide)
  unfold segments at hkept
  unfold lead at hkept ⊢
  split at hkept
  · -- from the root on
    show solid ([] ++ '/' :: ['/'].intercalate kept) = _
    rw [solid_append_cons, solid_intercalate hslash]
    rfl
  · rcases List.prefix_cons_iff.mp hkept with rfl | ⟨l, rfl, hl⟩
    · rfl
    · have hnil : l = [] := List.prefix_nil.mp hl
      subst hnil
      rfl
  · -- behind a dot the first segment is empty, and it is the one that spells the separator
    rcases List.prefix_cons_iff.mp hkept with rfl | ⟨l, rfl, hl⟩
    · rfl
    · cases l with
      | nil => rfl
      | cons s l =>
          rw [List.intercalate_cons_cons, List.nil_append]
          show solid (['.'] ++ '/' :: ['/'].intercalate (s :: l)) = _
          rw [solid_append_cons, solid_intercalate fun r hr => hslash r (List.mem_cons_of_mem _ hr)]
          rfl
  · rw [List.nil_append, solid_intercalate hslash]

/-- The first part of a text starts with its first character, if that does not separate. -/
theorem exists_cons_of_prefix_splitWhere {p : Char → Bool} {c : Char} {cs s : List Char}
    {kept : List (List Char)} (h : s :: kept <+: splitWhere p (c :: cs)) (hc : p c = false) :
    ∃ rest, s = c :: rest := by
  rw [splitWhere, hc, if_neg Bool.false_ne_true] at h
  cases hsplit : splitWhere p cs with
  | nil => exact absurd hsplit (splitWhere_ne_nil p cs)
  | cons part parts =>
      rw [hsplit] at h
      exact ⟨part, (List.cons_prefix_cons.mp h).1⟩

theorem isAbsolute_lead_append {cs : List Char} {kept : List (List Char)}
    (hkept : kept <+: segments cs) (hne : kept ≠ [] → solid cs ≠ []) :
    isAbsolute ⟨String.ofList ((lead cs).1 ++ ['/'].intercalate kept)⟩
      = isAbsolute ⟨String.ofList cs⟩ := by
  unfold isAbsolute
  rw [String.toList_ofList, String.toList_ofList]
  unfold segments at hkept
  unfold lead at hkept ⊢
  split at hkept
  · rfl
  · rfl
  · rfl
  · rename_i hroot _ _
    have hhead : cs.head? ≠ some '/' := by
      intro h
      cases cs with
      | nil => cases h
      | cons c cs => exact hroot cs (congrArg (· :: cs) (Option.some.inj h))
    rw [beq_eq_false_iff_ne.mpr hhead, beq_eq_false_iff_ne]
    cases kept with
    | nil => exact fun h => nomatch h
    | cons s kept =>
        -- the first segment of a text that does not start with a separator is not empty
        cases cs with
        | nil => exact absurd rfl (hne (List.cons_ne_nil _ _))
        | cons c cs =>
            have hc : (c == '/') = false := by
              rw [beq_eq_false_iff_ne]
              exact fun h => hhead (congrArg some h)
            obtain ⟨rest, rfl⟩ := exists_cons_of_prefix_splitWhere hkept hc
            intro h
            refine hhead ?_
            cases kept with
            | nil => exact h
            | cons next kept =>
                rw [List.intercalate_cons_cons] at h
                exact h

/-- The folder of a path with names is spelled with its lead and its first segments. -/
theorem exists_kept_of_names {p : Path} (h : p.names ≠ []) :
    ∃ kept, kept <+: segments p.text.toList ∧
      (kept.filter fun s => !isVoid s) = (solid p.text.toList).dropLast ∧
      p.parent? = some ⟨String.ofList ((lead p.text.toList).1 ++ ['/'].intercalate kept)⟩ := by
  have hsolid : solid p.text.toList ≠ [] := by
    intro hn
    exact h (by rw [names, hn]; rfl)
  have hdrop : (dropVoid (segments p.text.toList)).filter (fun s => !isVoid s)
      = solid p.text.toList := by
    rw [filter_dropVoid, filter_segments]
  cases hrev : (dropVoid (segments p.text.toList)).reverse with
  | nil =>
      rw [List.reverse_eq_nil_iff.mp hrev] at hdrop
      exact absurd hdrop.symm hsolid
  | cons last rest =>
      have hsegs : dropVoid (segments p.text.toList) = rest.reverse ++ [last] := by
        rw [← List.reverse_reverse (dropVoid (segments p.text.toList)), hrev, List.reverse_cons]
      -- void segments at the end are dropped, so the last one is a name
      have hlast : isVoid last = false := by
        have hdef : (segments p.text.toList).reverse.dropWhile isVoid = last :: rest := by
          rw [← hrev, dropVoid, List.reverse_reverse]
        exact not_of_dropWhile hdef
      refine ⟨dropVoid rest.reverse, ?_, ?_, ?_⟩
      · refine (dropVoid_isPrefix _).trans (List.IsPrefix.trans ?_ (dropVoid_isPrefix _))
        rw [hsegs]
        exact List.prefix_append _ _
      · rw [filter_dropVoid, ← hdrop, hsegs, List.filter_append]
        simp [hlast]
      · unfold parent?
        dsimp only
        rw [hrev]

/-- The folder of a path with names has all of them but the last. -/
theorem parent?_of_names {p : Path} (h : p.names ≠ []) :
    ∃ dir, p.parent? = some dir ∧ dir.names = p.names.dropLast ∧
      dir.isAbsolute = p.isAbsolute := by
  obtain ⟨kept, hkept, hnames, hparent⟩ := exists_kept_of_names h
  refine ⟨_, hparent, ?_, ?_⟩
  · show List.map String.ofList (solid (String.ofList _).toList) = _
    rw [String.toList_ofList, solid_lead_append hkept, hnames, List.map_dropLast]
    rfl
  · rw [isAbsolute_lead_append hkept, String.ofList_toList]
    intro _ hsolid
    exact h (by rw [names, hsolid]; rfl)

theorem filter_steps (p : Path) : p.steps.filter (· ≠ ".") = p.names := by
  rw [steps, names, solid, List.filter_map, List.filter_filter]
  congr 1
  refine List.filter_congr fun s _ => ?_
  have hdot : String.ofList s = "." ↔ s = ['.'] := by
    rw [← String.toList_inj, String.toList_ofList]
    rfl
  by_cases hs : s = ['.']
  · simp [isVoid, hs]
  · simp [isVoid, hdot, hs]

/-- Only separators lead to the root without a step. -/
theorem isAbsolute_of_steps {p : Path} (hne : p.text.toList ≠ []) (h : p.steps = []) :
    p.isAbsolute = true := by
  obtain ⟨c, cs, htext⟩ := List.exists_cons_of_ne_nil hne
  by_cases hc : c = '/'
  · rw [isAbsolute, htext, hc]
    rfl
  · obtain ⟨s, rest, hsplit⟩ := List.exists_cons_of_ne_nil (splitWhere_ne_nil (· == '/') cs)
    have hfirst : splitWhere (· == '/') (c :: cs) = (c :: s) :: rest := by
      rw [splitWhere, beq_eq_false_iff_ne.mpr hc, if_neg Bool.false_ne_true, hsplit]
      rfl
    rw [steps, htext, hfirst] at h
    cases h

theorem ne_dot_of_mem_names {p : Path} {name : String} (h : name ∈ p.names) : name ≠ "." := by
  rw [← filter_steps] at h
  simpa using (List.mem_filter.mp h).2

/-- Whether two paths are followed alike: they then lead to the same place in every tree. -/
def LeadsAlike (p q : Path) : Prop :=
  p.isAbsolute = q.isAbsolute ∧ p.names = q.names

instance (p q : Path) : Decidable (p.LeadsAlike q) :=
  inferInstanceAs (Decidable (_ ∧ _))

/-- The temporary file of a file in a folder stands in the same folder, if perhaps under another
    spelling of it. -/
theorem temporary?_child (base : Path) {name : String} (h : IsEntryName name) :
    ∃ dir, LeadsAlike dir base ∧
      (base.child name).temporary? = some (dir.child (temporaryName name)) := by
  have hnames : (base.child name).names = base.names ++ [name] := names_child base h
  obtain ⟨dir, hdir, hn, ha⟩ := parent?_of_names (p := base.child name) (by simp [hnames])
  refine ⟨dir, ⟨?_, ?_⟩, ?_⟩
  · rw [ha, isAbsolute_child base h]
  · rw [hn, hnames, List.dropLast_concat]
  · unfold temporary? sibling
    rw [fileName?_child base h, hdir]
    rfl

end Path

/-! ## Following names -/

theorem isEntryName_temporaryName {name : String} (h : '/' ∉ name.toList) :
    IsEntryName (temporaryName name) := by
  have htext : (temporaryName name).toList = '.' :: (name.toList ++ ".tmp".toList) := by
    simp [temporaryName, String.toList_append, toString]
  have hlen : 5 ≤ (temporaryName name).toList.length := by
    rw [htext, List.length_cons, List.length_append]
    exact Nat.succ_le_succ (Nat.le_add_left 4 _)
  refine ⟨?_, ?_, ?_, ?_⟩
  · intro hn
    rw [hn] at hlen
    exact absurd hlen (by decide)
  · intro hn
    rw [hn] at hlen
    exact absurd hlen (by decide)
  · intro hn
    rw [hn] at hlen
    exact absurd hlen (by decide)
  · rw [htext, List.mem_cons, List.mem_append]
    rintro (hc | hc | hc)
    · exact absurd hc (by decide)
    · exact h hc
    · exact absurd hc (by decide)

namespace FileTree

theorem enterAll_append (t : FileTree) (place : Place) (front behind : List String) :
    t.enterAll place (front ++ behind)
      = (t.enterAll place front).bind fun dir => t.enterAll dir behind := by
  induction front generalizing place with
  | nil => rfl
  | cons name front ih =>
      show (t.enter place name).bind (fun dir => t.enterAll dir (front ++ behind)) = _
      show _ = ((t.enter place name).bind fun dir => t.enterAll dir front).bind _
      cases t.enter place name with
      | error e => rfl
      | ok dir => exact ih dir

/-- Dots lead nowhere. -/
theorem enterAll_filter_dot (t : FileTree) (place : Place) (steps : List String) :
    t.enterAll place steps = t.enterAll place (steps.filter (· ≠ ".")) := by
  induction steps generalizing place with
  | nil => rfl
  | cons name steps ih =>
      by_cases hname : name = "."
      · subst hname
        exact ih place
      · rw [List.filter_cons_of_pos (by simpa using hname)]
        show (t.enter place name).bind _ = (t.enter place name).bind _
        cases t.enter place name with
        | error e => rfl
        | ok dir => exact ih dir

/-- Following the steps of a path is following its names. -/
theorem enterAll_steps (t : FileTree) (place : Place) (p : Path) :
    t.enterAll place p.steps = t.enterAll place p.names := by
  rw [enterAll_filter_dot, Path.filter_steps]

end FileTree

end ServiceWiring
