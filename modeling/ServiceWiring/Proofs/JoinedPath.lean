import ServiceWiring.Proofs.PathOrder

/-!
# Relative paths behind a folder

A relative path behind a folder leads where its names lead from there.  How the folder is spelled
does not count, as long as an access takes the whole spelling.

* `Path.parts_join`, `Path.steps_join` — the parts and the steps of a joined path;
* `Path.join_child` — an entry behind a joined path is a joined path;
* `FileTree.target_join` — where an access to a joined path arrives;
* `FileTree.entryAt_join` — two spellings of a folder have the same behind them.
-/

namespace ServiceWiring

open Text

namespace Path

variable {base rel : Path}

/-! ## Spellings -/

/-- What stands between a path and one behind it. -/
def separator (p : Path) : List Char :=
  if p.text.toList.getLast?.all (· == '/') then [] else ['/']

theorem join_toList (hrel : rel.isAbsolute = false) :
    (base.join rel).text.toList = base.text.toList ++ (base.separator ++ rel.text.toList) := by
  rw [join, hrel, if_neg Bool.false_ne_true, separator]
  split
  · rename_i hlast
    rw [List.getLast?_eq_none_iff.mp hlast]
    rfl
  · rename_i hlast
    rw [hlast, String.toList_append]
    rfl
  · rename_i last hsep hlast
    have hother : (last == '/') = false := by
      rw [beq_eq_false_iff_ne]
      rintro rfl
      exact hsep rfl
    rw [hlast, Option.all_some, hother, if_neg Bool.false_ne_true, String.toList_append,
      String.toList_append, List.append_assoc]
    rfl

theorem join_injective {rel' : Path} (hrel : rel.isAbsolute = false)
    (hrel' : rel'.isAbsolute = false) (h : base.join rel = base.join rel') : rel = rel' := by
  have htext : (base.join rel).text.toList = (base.join rel').text.toList := by rw [h]
  rw [join_toList hrel, join_toList hrel'] at htext
  have hsame := List.append_cancel_left (List.append_cancel_left htext)
  exact congrArg Path.mk (String.toList_inj.mp hsame)

theorem join_ne_nil (hbase : base.text.toList ≠ []) (hrel : rel.isAbsolute = false) :
    (base.join rel).text.toList ≠ [] := by
  rw [join_toList hrel]
  exact List.append_ne_nil_of_left_ne_nil hbase _

/-- A joined path ends like the path behind, or with the separator in front of it. -/
theorem separator_join (hbase : base.text.toList ≠ []) (hrel : rel.isAbsolute = false) :
    (base.join rel).separator = rel.separator := by
  rw [separator, separator, join_toList hrel]
  by_cases hempty : rel.text.toList = []
  · have hends : (base.text.toList ++ base.separator).getLast? = some '/' := by
      rw [separator, List.getLast?_eq_some_getLast hbase, Option.all_some]
      split
      · rename_i hlast
        rw [List.append_nil, List.getLast?_eq_some_getLast hbase, beq_iff_eq.mp hlast]
      · exact List.getLast?_concat ..
    rw [hempty, List.append_nil, hends]
    rfl
  · rw [← List.append_assoc, List.getLast?_append_of_ne_nil _ hempty]

/-- An entry behind a joined path is itself a joined path. -/
theorem join_child (hbase : base.text.toList ≠ []) (hrel : rel.isAbsolute = false) {name : String}
    (hname : IsEntryName name) : (base.join rel).child name = base.join (rel.child name) := by
  have hplain : Path.isAbsolute ⟨name⟩ = false := isAbsolute_eq_false hname.2.2.2
  have hchild : (rel.child name).isAbsolute = false := (isAbsolute_child rel hname).trans hrel
  have htext : ((base.join rel).child name).text.toList
      = (base.join (rel.child name)).text.toList := by
    rw [join_toList hchild, child, child, join_toList hplain, join_toList hplain,
      separator_join hbase hrel, join_toList hrel, List.append_assoc, List.append_assoc]
  exact congrArg Path.mk (String.toList_inj.mp htext)

theorem foldl_child_join (hbase : base.text.toList ≠ []) (hrel : rel.isAbsolute = false)
    {names : List String} (h : ∀ name ∈ names, IsEntryName name) :
    names.foldl child (base.join rel) = base.join (names.foldl child rel) := by
  induction names generalizing rel with
  | nil => rfl
  | cons name names ih =>
      have hname := h name (List.mem_cons_self ..)
      rw [List.foldl_cons, List.foldl_cons, join_child hbase hrel hname]
      exact ih ((isAbsolute_child rel hname).trans hrel) fun other hother =>
        h other (List.mem_cons_of_mem _ hother)

/-! ## Parts and steps -/

theorem isAbsolute_join (hbase : base.text.toList ≠ []) (hrel : rel.isAbsolute = false) :
    (base.join rel).isAbsolute = base.isAbsolute := by
  rw [Bool.eq_iff_iff, isAbsolute_iff_startPart, isAbsolute_iff_startPart,
    startPart_join hbase hrel]

theorem parts_join (hbase : base.text.toList ≠ []) (hrel : rel.isAbsolute = false) :
    (base.join rel).parts = base.parts ++ rel.names.map partOfName := by
  rw [parts_eq, parts_eq, startPart_join hbase hrel, names_join hbase hrel, List.map_append,
    List.append_assoc]

theorem steps_join (hbase : base.text.toList ≠ []) (hrel : rel.isAbsolute = false) :
    (base.join rel).steps = base.steps ++ rel.steps := by
  obtain ⟨front, hfront, htext⟩ := join_text hbase hrel
  have hsteps : ∀ behind, ((splitWhere (· == '/') (front ++ '/' :: behind)).filter
      fun s => !s.isEmpty) = (splitWhere (· == '/') front).filter (fun s => !s.isEmpty)
        ++ (splitWhere (· == '/') behind).filter fun s => !s.isEmpty := by
    intro behind
    rw [splitWhere_append_cons rfl, List.filter_append]
  have hbase : ((splitWhere (· == '/') base.text.toList).filter fun s => !s.isEmpty)
      = (splitWhere (· == '/') front).filter fun s => !s.isEmpty := by
    rcases hfront with hfront | hfront
    · rw [hfront]
    · rw [hfront, hsteps]
      exact List.append_nil _
  rw [steps, steps, steps, htext, hsteps, hbase, List.map_append]

theorem endsOpen_join (hrel : rel.isAbsolute = false) (hne : rel.text.toList ≠ []) :
    (base.join rel).endsOpen = rel.endsOpen := by
  rw [endsOpen, endsOpen, join_toList hrel, ← List.append_assoc,
    List.getLast?_append_of_ne_nil _ hne]

/-- An access takes a joined path that is not too long if it takes both of its parts. -/
theorem checkText_join (hbase : base.checkText = .ok ()) (hrel : rel.isAbsolute = false)
    (hsize : (base.join rel).text.utf8ByteSize ≤ maxBytes) :
    (base.join rel).checkText
      = if rel.text.toList.contains '\x00' then .error .nulInName else .ok () := by
  have hplain : base.text.toList.contains '\x00' = false := by
    rw [checkText] at hbase
    split at hbase
    · cases hbase
    · rename_i hplain
      exact Bool.eq_false_iff.mpr hplain
  have hseparator : base.separator.contains '\x00' = false := by
    rw [separator]
    split <;> rfl
  have hcontains : (base.join rel).text.toList.contains '\x00'
      = rel.text.toList.contains '\x00' := by
    rw [join_toList hrel, List.contains_append, List.contains_append, hplain, hseparator,
      Bool.false_or, Bool.false_or]
  rw [checkText, hcontains, if_neg (Nat.not_lt.mpr hsize)]

end Path

/-! ## Following -/

namespace FileTree

variable {t : FileTree} {place : Place} {p base base' rel : Path}

/-- Where a relative path leads from a folder is a matter of its own steps. -/
theorem target_join (hfolder : t.folderAt base = .ok place) (hbase : base.text.toList ≠ [])
    (hrel : rel.isAbsolute = false) (hcheck : (base.join rel).checkText = .ok ())
    {front : List String} {last : String} (hsteps : rel.steps = front ++ [last]) :
    t.target (base.join rel)
      = (t.enterAll place front).bind fun dir => arrive dir last rel.endsOpen := by
  have hrelne : rel.text.toList ≠ [] := by
    intro hempty
    rw [Path.steps, hempty] at hsteps
    exact List.append_ne_nil_of_right_ne_nil front (List.cons_ne_nil last []) hsteps.symm
  have hall : (base.join rel).steps = (base.steps ++ front) ++ [last] := by
    rw [Path.steps_join hbase hrel, hsteps, List.append_assoc]
  rw [folderAt, ← enterAll_steps] at hfolder
  rw [target_of_steps hall, hcheck, Path.isAbsolute_join hbase hrel, enterAll_append, hfolder,
    Path.endsOpen_join hrel hrelne]
  rfl

/-- Behind two spellings of a folder a relative path leads to the same. -/
theorem entryAt_join (hbase : t.entryAt base = .ok (place, .directory))
    (hbase' : t.entryAt base' = .ok (place, .directory)) (hrel : rel.isAbsolute = false)
    (hsize : (base.join rel).text.utf8ByteSize ≤ Path.maxBytes)
    (hsize' : (base'.join rel).text.utf8ByteSize ≤ Path.maxBytes) :
    t.entryAt (base.join rel) = t.entryAt (base'.join rel) := by
  obtain ⟨hok, hne⟩ := checkText_of_entryAt hbase
  obtain ⟨hok', hne'⟩ := checkText_of_entryAt hbase'
  have hfolder := folderAt_of_entryAt hbase
  have hfolder' := folderAt_of_entryAt hbase'
  have hcheck := Path.checkText_join hok hrel hsize
  have hcheck' := Path.checkText_join hok' hrel hsize'
  by_cases hnul : rel.text.toList.contains '\x00' = true
  · -- no path with such a character leads anywhere
    rw [if_pos hnul] at hcheck hcheck'
    rw [entryAt, entryAt, target, target, hcheck, hcheck']
    rfl
  · rw [if_neg hnul] at hcheck hcheck'
    rcases List.eq_nil_or_concat' rel.steps with hsteps | ⟨front, last, hsteps⟩
    · -- no step: both stay in the folder
      have hnames : rel.names = [] := by
        rw [← Path.filter_steps, hsteps]
        rfl
      have hstay : ∀ {b : Path}, t.folderAt b = .ok place → b.text.toList ≠ [] →
          t.folderAt (b.join rel) = .ok place := by
        intro b hb hbne
        rw [← hb]
        refine folderAt_congr ⟨Path.isAbsolute_join hbne hrel, ?_⟩
        rw [Path.names_join hbne hrel, hnames, List.append_nil]
      rw [entryAt_of_folderAt (hstay hfolder hne) hcheck (Path.join_ne_nil hne hrel),
        entryAt_of_folderAt (hstay hfolder' hne') hcheck' (Path.join_ne_nil hne' hrel)]
    · rw [entryAt, entryAt, target_join hfolder hne hrel hcheck hsteps,
        target_join hfolder' hne' hrel hcheck' hsteps]

end FileTree

end ServiceWiring
