import ServiceWiring.Proofs.Scan
import ServiceWiring.Proofs.FileTree

/-!
# The order of paths, and the parts of their folders

Paths are ordered part by part, and two of them are equal in that order exactly when they have
the same parts.  The parts of a file are those of its folder and one more.

* `Path.compare_eq_iff` — equal paths are those with the same parts;
* `Path.startPart_join`, `Path.startPart_of_parent` — what is spelled below a path starts the way
  the path does;
* `Path.parts_of_parent` — the parts of an entry, from those of its folder;
* `FileTree.file_of_entryAt` — what leads to a file is its folder and its name.
-/

namespace ServiceWiring

open Text

/-! ## The order -/

namespace PathPart

/-- The text of a name. -/
def nameText : PathPart → String
  | .name text => text
  | _ => ""

theorem compare_eq_compareLex :
    PathPart.compare = compareLex (compareOn rank) (compareOn nameText) := by
  funext a b
  cases a with
  | name s =>
      cases b with
      | name r => rfl
      | _ => rfl
  | _ => cases b <;> rfl

instance : Std.TransCmp PathPart.compare := by
  rw [compare_eq_compareLex]
  infer_instance

end PathPart

namespace Path

theorem compareParts_eq_compareLex : compareParts = List.compareLex PathPart.compare := by
  funext as bs
  induction as generalizing bs with
  | nil => cases bs <;> rfl
  | cons a as ih =>
      cases bs with
      | nil => rfl
      | cons b bs => rw [compareParts, ih, List.compareLex_cons_cons]

instance : Std.TransCmp compareParts := by
  rw [compareParts_eq_compareLex]
  infer_instance

instance : Std.TransCmp Path.compare where
  eq_swap {p q} := by
    show compareParts p.parts q.parts = (compareParts q.parts p.parts).swap
    exact Std.OrientedCmp.eq_swap
  isLE_trans {p q r} hpq hqr := by
    have htrans : (compareParts p.parts r.parts).isLE := Std.TransCmp.isLE_trans hpq hqr
    exact htrans

theorem compare_eq_iff {p q : Path} : p.compare q = .eq ↔ p.parts = q.parts := by
  constructor
  · exact eq_of_compareParts
  · intro h
    show compareParts p.parts q.parts = .eq
    rw [h]
    exact Std.ReflCmp.compare_self

theorem parts_ne_of_lt {p q : Path} (h : p.compare q = .lt) : p.parts ≠ q.parts := by
  intro heq
  rw [compare_eq_iff.mpr heq] at h
  cases h

/-! ## Folders -/

/-- The lead of a text is told by its first segment. -/
theorem lead_of_splitWhere {cs s : List Char} {rest : List (List Char)} (hcs : cs ≠ [])
    (h : splitWhere (· == '/') cs = s :: rest) :
    (lead cs).1 = if s = [] then ['/'] else if s = ['.'] then ['.'] else [] := by
  fun_cases lead cs with
  | case1 tail =>
      have hs : s = [] := (List.cons.inj h).1.symm
      rw [hs]
      rfl
  | case2 =>
      have hs : s = ['.'] := (List.cons.inj h).1.symm
      rw [hs]
      rfl
  | case3 tail =>
      have hsplit : splitWhere (· == '/') ('.' :: '/' :: tail)
          = ['.'] :: splitWhere (· == '/') tail :=
        splitWhere_append_cons (p := (· == '/')) rfl ['.'] tail
      have hs : s = ['.'] := (List.cons.inj (hsplit.symm.trans h)).1.symm
      rw [hs]
      rfl
  | case4 cs hroot hdot hbehind =>
      cases cs with
      | nil => exact absurd rfl hcs
      | cons c cs =>
          have hc : ¬ (c == '/') = true := by
            rw [beq_iff_eq]
            rintro rfl
            exact hroot cs rfl
          rw [splitWhere, if_neg hc] at h
          obtain ⟨part, parts, hparts⟩ := List.exists_cons_of_ne_nil (splitWhere_ne_nil (· == '/') cs)
          rw [hparts] at h
          rw [← (List.cons.inj h).1, if_neg (List.cons_ne_nil c part), if_neg]
          -- a dot alone in front is a lead
          intro hs
          obtain ⟨rfl, rfl⟩ := List.cons.inj hs
          cases cs with
          | nil => exact hdot rfl
          | cons d cs =>
              by_cases hd : (d == '/') = true
              · rw [beq_iff_eq] at hd
                exact hbehind cs (by rw [hd])
              · obtain ⟨next, more, hmore⟩ :=
                  List.exists_cons_of_ne_nil (splitWhere_ne_nil (· == '/') cs)
                rw [splitWhere, if_neg hd, hmore] at hparts
                exact List.cons_ne_nil d next (List.cons.inj hparts).1

/-- The lead of a text does not change when segments are cut off at its end. -/
theorem lead_lead_append {cs : List Char} {kept : List (List Char)} (hkept : kept <+: segments cs)
    (hne : kept ≠ [] → cs ≠ []) : (lead ((lead cs).1 ++ ['/'].intercalate kept)).1 = (lead cs).1 := by
  fun_cases lead cs with
  | case1 tail => rfl
  | case2 =>
      rcases List.prefix_cons_iff.mp hkept with rfl | ⟨l, rfl, hl⟩
      · rfl
      · rw [List.prefix_nil.mp hl]
        rfl
  | case3 tail =>
      rcases List.prefix_cons_iff.mp hkept with rfl | ⟨l, rfl, hl⟩
      · rfl
      · cases l with
        | nil => rfl
        | cons s l =>
            rw [List.intercalate_cons_cons]
            rfl
  | case4 cs hroot hdot hbehind =>
      -- no lead: the kept segments start like the text, and have none either
      have hlead : lead cs = ([], cs) := by
        unfold lead
        split
        · exact absurd rfl (hroot _)
        · exact absurd rfl hdot
        · exact absurd rfl (hbehind _)
        · rfl
      cases kept with
      | nil => rfl
      | cons s kept =>
          rw [segments, hlead] at hkept
          obtain ⟨behind, hsplit⟩ := hkept
          have hslash : ∀ part ∈ s :: kept, ∀ c ∈ part, (c == '/') = false := by
            intro part hpart
            have hmem : part ∈ splitWhere (· == '/') cs := hsplit ▸ List.mem_append_left _ hpart
            exact not_mem_splitWhere hmem
          have hfirst := lead_of_splitWhere (hne (List.cons_ne_nil _ _)) hsplit.symm
          rw [hlead] at hfirst
          rw [List.nil_append]
          by_cases htext : ['/'].intercalate (s :: kept) = []
          · rw [htext]
            rfl
          · rw [lead_of_splitWhere htext (splitWhere_intercalate rfl (List.cons_ne_nil _ _) hslash)]
            exact hfirst.symm

/-- The ways to spell a relative path behind another one. -/
theorem join_text {base below : Path} (hbase : base.text.toList ≠ [])
    (hbelow : below.isAbsolute = false) :
    ∃ front, (base.text.toList = front ∨ base.text.toList = front ++ ['/'])
      ∧ (base.join below).text.toList = front ++ '/' :: below.text.toList := by
  rw [join, hbelow, if_neg Bool.false_ne_true]
  split
  · rename_i hlast
    exact absurd (List.getLast?_eq_none_iff.mp hlast) hbase
  · rename_i hlast
    obtain ⟨front, hfront⟩ := List.getLast?_eq_some_iff.mp hlast
    refine ⟨front, .inr hfront, ?_⟩
    rw [String.toList_append, hfront, List.append_assoc]
    rfl
  · refine ⟨base.text.toList, .inl rfl, ?_⟩
    rw [String.toList_append, String.toList_append, List.append_assoc]
    rfl

/-- A relative path behind another one has its names behind the names of that one. -/
theorem names_join {base below : Path} (hbase : base.text.toList ≠ [])
    (hbelow : below.isAbsolute = false) : (base.join below).names = base.names ++ below.names := by
  obtain ⟨front, hfront, htext⟩ := join_text hbase hbelow
  have hsolid : solid base.text.toList = solid front := by
    rcases hfront with hfront | hfront
    · rw [hfront]
    · rw [hfront, solid_append_cons]
      exact List.append_nil _
  rw [names, names, names, htext, solid_append_cons, hsolid, List.map_append]

/-- A relative path behind another one starts the way that one does. -/
theorem startPart_join {base below : Path} (hbase : base.text.toList ≠ [])
    (hbelow : below.isAbsolute = false) : (base.join below).startPart = base.startPart := by
  obtain ⟨front, hfront, htext⟩ := join_text hbase hbelow
  obtain ⟨s, rest, hsplit⟩ := List.exists_cons_of_ne_nil (splitWhere_ne_nil (· == '/') front)
  have hfirst : ∀ behind, splitWhere (· == '/') (front ++ '/' :: behind)
      = s :: (rest ++ splitWhere (· == '/') behind) := by
    intro behind
    rw [splitWhere_append_cons rfl, hsplit]
    rfl
  have hlead : (lead (base.join below).text.toList).1 = (lead base.text.toList).1 := by
    rw [htext, lead_of_splitWhere (by simp) (hfirst below.text.toList)]
    rcases hfront with hfront | hfront
    · rw [← hfront] at hsplit
      rw [lead_of_splitWhere hbase hsplit]
    · rw [hfront, lead_of_splitWhere (by simp) (hfirst [])]
  rw [startPart, startPart, hlead]

/-- An entry starts the way its folder does. -/
theorem startPart_child (base : Path) {name : String} (h : IsEntryName name) :
    (base.child name).startPart = base.startPart := by
  by_cases hbase : base.text.toList = []
  · have htext : base.text = "" := String.toList_inj.mp hbase
    have hchild : base.child name = ⟨name⟩ := by
      rw [child, join, isAbsolute_eq_false h.2.2.2, if_neg Bool.false_ne_true, htext]
      rfl
    rw [hchild, startPart, startPart, htext,
      lead_of_splitWhere (toList_ne_nil h.1) (splitWhere_segment h.2.2.2),
      if_neg (toList_ne_nil h.1), if_neg]
    · rfl
    · intro hdot
      exact h.2.1 (String.toList_inj.mp hdot)
  · exact startPart_join hbase (isAbsolute_eq_false h.2.2.2)

theorem names_foldl_child (p : Path) {names : List String}
    (h : ∀ name ∈ names, IsEntryName name) :
    (names.foldl Path.child p).names = p.names ++ names := by
  induction names generalizing p with
  | nil => exact (List.append_nil _).symm
  | cons name names ih =>
      rw [List.foldl_cons, ih _ fun other hother => h other (List.mem_cons_of_mem _ hother),
        names_child p (h name (List.mem_cons_self ..)), List.append_assoc]
      rfl

theorem startPart_foldl_child (p : Path) {names : List String}
    (h : ∀ name ∈ names, IsEntryName name) :
    (names.foldl Path.child p).startPart = p.startPart := by
  induction names generalizing p with
  | nil => rfl
  | cons name names ih =>
      rw [List.foldl_cons, ih _ fun other hother => h other (List.mem_cons_of_mem _ hother),
        startPart_child p (h name (List.mem_cons_self ..))]

theorem startPart_of_parent {p dir : Path} (hnames : p.names ≠ []) (h : p.parent? = some dir) :
    dir.startPart = p.startPart := by
  obtain ⟨kept, hkept, -, hparent⟩ := exists_kept_of_names hnames
  rw [hparent] at h
  rw [← Option.some.inj h, startPart, startPart, String.toList_ofList, lead_lead_append hkept]
  intro _ hempty
  exact hnames (by rw [names, hempty]; rfl)

theorem names_of_parent {p dir : Path} (hnames : p.names ≠ []) (h : p.parent? = some dir) :
    dir.names = p.names.dropLast := by
  obtain ⟨dir', hdir', hdrop, -⟩ := parent?_of_names hnames
  rw [hdir'] at h
  rw [← Option.some.inj h, hdrop]

theorem isAbsolute_of_parent {p dir : Path} (hnames : p.names ≠ []) (h : p.parent? = some dir) :
    dir.isAbsolute = p.isAbsolute := by
  obtain ⟨dir', hdir', -, habsolute⟩ := parent?_of_names hnames
  rw [hdir'] at h
  rw [← Option.some.inj h, habsolute]

theorem parts_of_parent {p dir : Path} {name : String} (hlast : p.names.getLast? = some name)
    (h : p.parent? = some dir) : p.parts = dir.parts ++ [partOfName name] := by
  obtain ⟨front, hfront⟩ := List.getLast?_eq_some_iff.mp hlast
  have hnames : p.names ≠ [] := by
    rw [hfront]
    exact List.append_ne_nil_of_right_ne_nil _ (List.cons_ne_nil _ _)
  rw [parts_eq, parts_eq, startPart_of_parent hnames h, names_of_parent hnames h, hfront,
    List.dropLast_concat, List.map_append, List.append_assoc]
  rfl

end Path

/-! ## Files -/

namespace FileTree

/-- What leads to a file is its folder and its name. -/
theorem file_of_entryAt {t : FileTree} {p dir : Path} {place : Place} {content : Content}
    (h : t.entryAt p = .ok (place, .file content)) (hdir : p.parent? = some dir) :
    ∃ parent name, p.names.getLast? = some name ∧ t.folderAt dir = .ok parent
      ∧ place = parent ++ [name] := by
  obtain ⟨parent, name, endsOpen, htarget, rfl, -⟩ := entryAt_file h
  obtain ⟨hlast, -, henter⟩ := names_of_target htarget
  have hnames : p.names ≠ [] := by
    intro hn
    rw [hn] at hlast
    cases hlast
  refine ⟨parent, name, hlast, ?_, rfl⟩
  rw [folderAt, Path.names_of_parent hnames hdir, Path.isAbsolute_of_parent hnames hdir]
  exact henter

/-- What leads to a file leads to no folder. -/
theorem not_folderAt_of_file {t : FileTree} {p : Path} {place dir : Place} {content : Content}
    (h : t.entryAt p = .ok (place, .file content)) : t.folderAt p ≠ .ok dir := by
  obtain ⟨parent, name, endsOpen, htarget, -, hfind⟩ := entryAt_file h
  obtain ⟨hlast, hup, henter⟩ := names_of_target htarget
  obtain ⟨front, hfront⟩ := List.getLast?_eq_some_iff.mp hlast
  intro hfolder
  rw [folderAt, hfront, enterAll_append] at hfolder
  rw [hfront, List.dropLast_concat] at henter
  obtain ⟨mid, hmid, hrest⟩ := bind_eq_ok hfolder
  obtain rfl : parent = mid := Except.ok.inj (henter.symm.trans hmid)
  obtain ⟨next, hnext, -⟩ := bind_eq_ok hrest
  rcases enter_eq_ok_iff.mp hnext with ⟨hdot, -⟩ | ⟨-, hdots, -⟩ | ⟨-, -, -, hfound, -⟩
  · exact Path.ne_dot_of_mem_names (List.mem_of_getLast? hlast) hdot
  · exact hup hdots
  · rw [hfind] at hfound
    cases hfound

end FileTree

end ServiceWiring
