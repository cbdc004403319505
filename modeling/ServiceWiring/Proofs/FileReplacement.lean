import ServiceWiring.Proofs.FileTree

/-!
# Replacing and removing files

A file is replaced by way of a temporary file beside it.  Each step succeeds or changes nothing, so
a replacement that fails leaves at most the temporary file behind.

* `FileTree.perform_write_child`, `FileTree.perform_rename_child`, `FileTree.perform_remove_child`
  — what a step that succeeds tells of a file in a folder;
* `FileTree.CanReplace`, `FileTree.replaceFile_of_canReplace` — when a file can be replaced, and
  what the tree is then;
* `FileTree.replaceFile_child`, `FileTree.confined_replaceFile` — what replacing a file leaves
  behind;
* `FileTree.removeIfPresent_child` — what removing a file leaves behind.
-/

namespace ServiceWiring

namespace FileTree

variable {t t' : FileTree} {base : Path} {name : String} {dir : Place}

/-! ## Single steps -/

theorem concat_ne_nil (dir : Place) (name : String) : dir ++ [name] ≠ [] := by
  simp

theorem perform_write_eq_ok {p : Path} {content : Content}
    (h : t.perform (.write p content) = .ok t') :
    ∃ parent last endsOpen, t.target p = .ok (.named parent last endsOpen) ∧
      t.find? (parent ++ [last]) ≠ some .directory ∧
      t' = t.put (parent ++ [last]) (.file content) := by
  obtain ⟨target, htarget, hwrite⟩ := bind_eq_ok h
  obtain ⟨place, hplace, hput⟩ := bind_eq_ok hwrite
  cases target with
  | directory place => cases hplace
  | named parent last endsOpen =>
      dsimp only [writable] at hplace
      split at hplace
      · cases hplace
      · rename_i hfree
        rw [← Except.ok.inj hplace] at hput
        refine ⟨parent, last, endsOpen, htarget, ?_, (Except.ok.inj hput).symm⟩
        intro hd
        exact hfree (by simp [hd])

/-- Removing a file is finding it, and then erasing its place. -/
theorem perform_remove (t : FileTree) (p : Path) :
    t.perform (.remove p) = (t.target p).bind fun target =>
      (t.existing target).bind fun found => .ok (t.erase found.1) :=
  rfl

theorem perform_remove_eq_ok {p : Path} (h : t.perform (.remove p) = .ok t') :
    ∃ parent last endsOpen content, t.target p = .ok (.named parent last endsOpen) ∧
      t.find? (parent ++ [last]) = some (.file content) ∧ t' = t.erase (parent ++ [last]) := by
  obtain ⟨target, htarget, hremove⟩ := bind_eq_ok h
  obtain ⟨⟨place, content⟩, hplace, herase⟩ := bind_eq_ok hremove
  cases target with
  | directory place => cases hplace
  | named parent last endsOpen =>
      dsimp only [existing] at hplace
      split at hplace
      · cases hplace
      · cases hplace
      · rename_i found hfind
        split at hplace
        · cases hplace
        · have hp := Prod.mk.inj (Except.ok.inj hplace)
          refine ⟨parent, last, endsOpen, found, htarget, hfind, ?_⟩
          rw [hp.1]
          exact (Except.ok.inj herase).symm

theorem perform_write_child (hn : IsEntryName name) {content : Content}
    (h : t.perform (.write (base.child name) content) = .ok t') :
    ∃ dir, t.folderAt base = .ok dir ∧ (base.child name).checkText = .ok () ∧
      checkEntryName name = .ok () ∧ t.find? (dir ++ [name]) ≠ some .directory ∧
      t' = t.put (dir ++ [name]) (.file content) := by
  obtain ⟨parent, last, endsOpen, htarget, hfree, rfl⟩ := perform_write_eq_ok h
  obtain ⟨dir, hdir, hpath, hentry, hnamed⟩ := (target_child_eq_ok_iff hn).mp htarget
  injection hnamed with hparent hlast
  subst hparent hlast
  exact ⟨dir, hdir, hpath, hentry, hfree, rfl⟩

theorem perform_remove_child (hn : IsEntryName name)
    (h : t.perform (.remove (base.child name)) = .ok t') :
    ∃ dir content, t.folderAt base = .ok dir ∧ (base.child name).checkText = .ok () ∧
      checkEntryName name = .ok () ∧ t.find? (dir ++ [name]) = some (.file content) ∧
      t' = t.erase (dir ++ [name]) := by
  obtain ⟨parent, last, endsOpen, content, htarget, hfind, rfl⟩ := perform_remove_eq_ok h
  obtain ⟨dir, hdir, hpath, hentry, hnamed⟩ := (target_child_eq_ok_iff hn).mp htarget
  injection hnamed with hparent hlast
  subst hparent hlast
  exact ⟨dir, content, hdir, hpath, hentry, hfind, rfl⟩

/-- What was written can be taken away again. -/
theorem perform_remove_written (hn : IsEntryName name) (hdir : t.folderAt base = .ok dir)
    (hpath : (base.child name).checkText = .ok ()) (hentry : checkEntryName name = .ok ())
    (hfree : t.find? (dir ++ [name]) ≠ some .directory) (content : Content) :
    (t.put (dir ++ [name]) (.file content)).perform (.remove (base.child name))
      = .ok ((t.put (dir ++ [name]) (.file content)).erase (dir ++ [name])) := by
  have hput := Confined.put (concat_ne_nil dir name) hfree content
  have htarget : FileTree.target _ (base.child name) = .ok (.named dir name false) :=
    (target_child_eq_ok_iff hn).mpr ⟨dir, hput.folderAt_eq_ok.mpr hdir, hpath, hentry, rfl⟩
  have hfind := find?_put_self t (concat_ne_nil dir name) (.file content)
  rw [perform_remove, htarget]
  simp [existing, hfind, Except.bind]

/-- A rename onto a file of a folder tells that nothing stands against the file. -/
theorem perform_rename_child {source : Path} (hn : IsEntryName name)
    (h : t.perform (.rename source (base.child name)) = .ok t') :
    ∃ dir, t.folderAt base = .ok dir ∧ (base.child name).checkText = .ok () ∧
      checkEntryName name = .ok () ∧ t.find? (dir ++ [name]) ≠ some .directory := by
  obtain ⟨moved, hmoved, hmove⟩ := bind_eq_ok h
  obtain ⟨dest, hdest, hmove⟩ := bind_eq_ok hmove
  obtain ⟨dir, hdir, hpath, hentry, rfl⟩ := (target_child_eq_ok_iff hn).mp hdest
  refine ⟨dir, hdir, hpath, hentry, ?_⟩
  intro hd
  cases moved with
  | directory place => cases hmove
  | named parent last endsOpen =>
      obtain ⟨⟨_, _⟩, -, hmove⟩ := bind_eq_ok hmove
      obtain ⟨place, hplace, -⟩ := bind_eq_ok hmove
      simp [writable, hd] at hplace

/-! ## Replacing and removing -/

theorem temporaryName_ne (name : String) : temporaryName name ≠ name := by
  intro h
  have hlen : (temporaryName name).toList.length = name.toList.length := by rw [h]
  simp [temporaryName, String.toList_append, toString] at hlen
  omega

/-- A file of a folder can be replaced: its folder can be entered, no limit on names and paths
    stands against the file or its temporary file, and neither of them is a directory. -/
structure CanReplace (t : FileTree) (base : Path) (name : String) (dir : Place) : Prop where
  folder : t.folderAt base = .ok dir
  path : (base.child name).checkText = .ok ()
  entry : checkEntryName name = .ok ()
  temporaryPath : ∃ other : Path, other.LeadsAlike base ∧
    (base.child name).temporary? = some (other.child (temporaryName name)) ∧
    (other.child (temporaryName name)).checkText = .ok ()
  temporaryEntry : checkEntryName (temporaryName name) = .ok ()
  notDirectory : t.find? (dir ++ [name]) ≠ some .directory
  temporaryNotDirectory : t.find? (dir ++ [temporaryName name]) ≠ some .directory

theorem CanReplace.of_confined {places : Place → Prop} (h : t.CanReplace base name dir)
    (hc : Confined places t t') : t'.CanReplace base name dir where
  folder := hc.folderAt_eq_ok.mpr h.folder
  path := h.path
  entry := h.entry
  temporaryPath := h.temporaryPath
  temporaryEntry := h.temporaryEntry
  notDirectory := fun hd => h.notDirectory ((hc.directory _).mp hd)
  temporaryNotDirectory := fun hd => h.temporaryNotDirectory ((hc.directory _).mp hd)

/-- The tree with a text in a file of a folder, put there by way of the temporary file. -/
def replaced (t : FileTree) (dir : Place) (name text : String) : FileTree :=
  ((t.put (dir ++ [temporaryName name]) (.file (.text text))).erase
    (dir ++ [temporaryName name])).put (dir ++ [name]) (.file (.text text))

/-- The places that replacing a file of a folder touches. -/
def ReplacePlaces (dir : Place) (name : String) (place : Place) : Prop :=
  place = dir ++ [name] ∨ place = dir ++ [temporaryName name]

theorem concat_temporaryName_ne (dir : Place) (name : String) :
    dir ++ [name] ≠ dir ++ [temporaryName name] := by
  intro h
  have := List.append_cancel_left h
  exact temporaryName_ne name (List.cons.inj this).1.symm

@[simp]
theorem find?_replaced_self (t : FileTree) (dir : Place) (name text : String) :
    (t.replaced dir name text).find? (dir ++ [name]) = some (.file (.text text)) :=
  find?_put_self _ (concat_ne_nil dir name) _

theorem entryAt_replaced {text : String} (hn : IsEntryName name) (h : t.CanReplace base name dir)
    (hdir : (t.replaced dir name text).folderAt base = .ok dir) :
    (t.replaced dir name text).entryAt (base.child name)
      = .ok (dir ++ [name], .file (.text text)) := by
  unfold entryAt
  rw [target_child _ base hn, hdir, h.path, h.entry]
  simp only [bind, Except.bind, pure, Except.pure, find?_replaced_self]
  rfl

/-- Writing the temporary file and taking it away again is confined to its place. -/
theorem confined_temporary (content : Content)
    (h : t.find? (dir ++ [name]) ≠ some .directory) :
    Confined (· = dir ++ [name]) t
      ((t.put (dir ++ [name]) (.file content)).erase (dir ++ [name])) := by
  have hroot := concat_ne_nil dir name
  refine (Confined.put hroot h content).trans (Confined.erase hroot ?_)
  rw [find?_put_self t hroot]
  exact fun h => nomatch h

theorem confined_replaced (h : t.CanReplace base name dir) (text : String) :
    Confined (ReplacePlaces dir name) t (t.replaced dir name text) := by
  have htemp := confined_temporary (.text text) h.temporaryNotDirectory
  refine (htemp.mono fun place hp => Or.inr hp).trans ?_
  refine (Confined.put (concat_ne_nil dir name) ?_ _).mono fun place hp => Or.inl hp
  intro hd
  exact h.notDirectory ((htemp.directory _).mp hd)

/-- A file that can be replaced is replaced. -/
theorem replaceFile_of_canReplace (hn : IsEntryName name) (h : t.CanReplace base name dir)
    (text : String) : t.replaceFile (base.child name) text = (.ok (), t.replaced dir name text) := by
  obtain ⟨other, hother, htemp, htext⟩ := h.temporaryPath
  have hn' := isEntryName_temporaryName hn.2.2.2
  have hwrite : t.perform (.write (other.child (temporaryName name)) (.text text))
      = .ok (t.put (dir ++ [temporaryName name]) (.file (.text text))) := by
    have htarget : t.target (other.child (temporaryName name)) = .ok (.named dir _ false) :=
      (target_child_eq_ok_iff hn').mpr
        ⟨dir, (folderAt_congr hother).trans h.folder, htext, h.temporaryEntry, rfl⟩
    show (do
      let place ← t.writable (← t.target (other.child (temporaryName name)))
      return t.put place (.file (.text text))) = _
    simp [htarget, writable, h.temporaryNotDirectory, bind, Except.bind, pure, Except.pure]
  have hc := Confined.put (concat_ne_nil dir (temporaryName name)) h.temporaryNotDirectory
    (.text text)
  have hrename : (t.put (dir ++ [temporaryName name]) (.file (.text text))).perform
      (.rename (other.child (temporaryName name)) (base.child name))
      = .ok (t.replaced dir name text) := by
    -- what was asked of the tree holds of it with the temporary file as well
    have h' := h.of_confined hc
    have hsource : FileTree.target _ (other.child (temporaryName name))
        = .ok (.named dir (temporaryName name) false) :=
      (target_child_eq_ok_iff hn').mpr
        ⟨dir, (folderAt_congr hother).trans h'.folder, htext, h.temporaryEntry, rfl⟩
    have hdest : FileTree.target _ (base.child name) = .ok (.named dir name false) :=
      (target_child_eq_ok_iff hn).mpr ⟨dir, h'.folder, h.path, h.entry, rfl⟩
    have hfind := find?_put_self t (concat_ne_nil dir (temporaryName name)) (.file (.text text))
    show (do
      FileTree.move _ (← FileTree.target _ _) (← FileTree.target _ _)) = _
    simp [hsource, hdest, move, existing, hfind, writable, h'.notDirectory, bind, Except.bind,
      pure, Except.pure, replaced]
  unfold replaceFile
  rw [htemp]
  simp only [hwrite, hrename]

/-- Replacing a file of a folder succeeds where it can, and otherwise changes at most the
    temporary file. -/
theorem replaceFile_child (t : FileTree) (base : Path) (hn : IsEntryName name) (text : String) :
    (∃ dir, t.CanReplace base name dir ∧
      t.replaceFile (base.child name) text = (.ok (), t.replaced dir name text)) ∨
    (∃ failure t', t.replaceFile (base.child name) text = (.error failure, t') ∧
      Confined (fun place => ∃ dir, t.folderAt base = .ok dir ∧
        place = dir ++ [temporaryName name]) t t') := by
  by_cases hcan : ∃ dir, t.CanReplace base name dir
  · obtain ⟨dir, h⟩ := hcan
    exact Or.inl ⟨dir, h, replaceFile_of_canReplace hn h text⟩
  · refine Or.inr ?_
    obtain ⟨other, hother, htemp⟩ := Path.temporary?_child base hn
    have hn' := isEntryName_temporaryName hn.2.2.2
    unfold replaceFile
    rw [htemp]
    dsimp only
    cases hwrite : t.perform (.write (other.child (temporaryName name)) (.text text)) with
    | error e => exact ⟨_, t, rfl, Confined.refl _ t⟩
    | ok written =>
        obtain ⟨dir, hfolder, hpath, hentry, hfree, rfl⟩ := perform_write_child hn' hwrite
        have hdir : t.folderAt base = .ok dir := (folderAt_congr hother).symm.trans hfolder
        have hput := Confined.put (concat_ne_nil dir (temporaryName name)) hfree (.text text)
        dsimp only
        cases hrename : (t.put (dir ++ [temporaryName name]) (.file (.text text))).perform
            (.rename (other.child (temporaryName name)) (base.child name)) with
        | ok renamed =>
            -- then the file could have been replaced
            obtain ⟨found, hfound, hpath', hentry', hfree'⟩ := perform_rename_child hn hrename
            obtain rfl : found = dir := Except.ok.inj
              (hfound.symm.trans (hput.folderAt_eq_ok.mpr hdir))
            exact absurd ⟨found, hdir, hpath', hentry', ⟨other, hother, htemp, hpath⟩, hentry,
              fun hd => hfree' ((hput.directory _).mpr hd), hfree⟩ hcan
        | error e =>
            refine ⟨_, _, rfl, ?_⟩
            rw [perform_remove_written hn' hfolder hpath hentry hfree]
            exact (confined_temporary _ hfree).mono fun place hp => ⟨dir, hdir, hp⟩

/-- Replacing a file of a folder touches the file and its temporary file at most. -/
theorem confined_replaceFile (t : FileTree) (base : Path) (hn : IsEntryName name)
    (text : String) :
    Confined (fun place => ∃ dir, t.folderAt base = .ok dir ∧ ReplacePlaces dir name place) t
      (t.replaceFile (base.child name) text).2 := by
  rcases replaceFile_child t base hn text with ⟨dir, hcan, h⟩ | ⟨failure, t', h, hc⟩
  · rw [h]
    exact (confined_replaced hcan text).mono fun place hp => ⟨dir, hcan.folder, hp⟩
  · rw [h]
    exact hc.mono fun place ⟨dir, hdir, hp⟩ => ⟨dir, hdir, Or.inr hp⟩

/-- Of a file that is missing for a removal nothing can be read. -/
theorem readText_of_remove_missing (hn : IsEntryName name)
    (h : t.perform (.remove (base.child name)) = .error .notFound) :
    t.readText (base.child name) = .error .notFound := by
  suffices hentry : t.entryAt (base.child name) = .error .notFound by
    rw [readText, hentry]
    rfl
  rw [perform_remove] at h
  rw [entryAt_eq]
  cases htarget : t.target (base.child name) with
  | error e =>
      rw [htarget] at h
      exact congrArg Except.error (Except.error.inj h)
  | ok target =>
      obtain ⟨dir, -, -, -, rfl⟩ := (target_child_eq_ok_iff hn).mp htarget
      rw [htarget] at h
      simp only [existing, entryOf, Except.bind] at h ⊢
      cases hfind : t.find? (dir ++ [name]) with
      | none => rfl
      | some entry =>
          rw [hfind] at h
          cases entry with
          | directory => cases h
          | file content => cases h

/-- Removing a file that may be missing either takes it away, or finds nothing to read, or fails
    and changes nothing. -/
theorem removeIfPresent_child (t : FileTree) (base : Path) (hn : IsEntryName name) :
    (∃ dir content, t.folderAt base = .ok dir ∧ (base.child name).checkText = .ok () ∧
      checkEntryName name = .ok () ∧ t.find? (dir ++ [name]) = some (.file content) ∧
      t.removeIfPresent (base.child name) = (.ok true, t.erase (dir ++ [name]))) ∨
    (t.readText (base.child name) = .error .notFound ∧
      t.removeIfPresent (base.child name) = (.ok false, t)) ∨
    ∃ failure, t.removeIfPresent (base.child name) = (.error failure, t) := by
  unfold removeIfPresent
  cases hremove : t.perform (.remove (base.child name)) with
  | ok t' =>
      obtain ⟨dir, content, hdir, hpath, hentry, hfind, rfl⟩ := perform_remove_child hn hremove
      exact Or.inl ⟨dir, content, hdir, hpath, hentry, hfind, rfl⟩
  | error e =>
      by_cases he : e = .notFound
      · subst he
        exact Or.inr (Or.inl ⟨readText_of_remove_missing hn hremove, rfl⟩)
      · refine Or.inr (Or.inr ?_)
        cases e with
        | notFound => exact absurd rfl he
        | _ => exact ⟨_, rfl⟩

/-! ## Files that are no names

A dot in place of a file name leads to a directory, so nothing there can be replaced or removed.
What a failed attempt leaves behind is at most a temporary file. -/

theorem target_child_dots (h : name = "." ∨ name = "..") (t : FileTree) (base : Path)
    (parent : Place) (last : String) (endsOpen : Bool) :
    t.target (base.child name) ≠ .ok (.named parent last endsOpen) := by
  have hsteps : (base.child name).steps = base.steps ++ [name] := by
    rcases h with rfl | rfl
    · exact Path.steps_child base (by decide) (by decide)
    · exact Path.steps_child base (by decide) (by decide)
  intro htarget
  rw [target_of_steps hsteps] at htarget
  obtain ⟨-, -, htarget⟩ := bind_eq_ok htarget
  obtain ⟨dir, -, harrive⟩ := bind_eq_ok htarget
  rcases h with rfl | rfl
  · cases harrive
  · cases harrive

theorem removeIfPresent_dots (h : name = "." ∨ name = "..") (t : FileTree) (base : Path) :
    (t.removeIfPresent (base.child name)).2 = t := by
  unfold removeIfPresent
  cases hremove : t.perform (.remove (base.child name)) with
  | error e =>
      cases e with
      | notFound => rfl
      | _ => rfl
  | ok t' =>
      obtain ⟨parent, last, endsOpen, -, htarget, -, -⟩ := perform_remove_eq_ok hremove
      exact absurd htarget (target_child_dots h t base parent last endsOpen)

/-- The temporary file of a path ends in a temporary name. -/
theorem target_temporary {p temporary : Path} (h : p.temporary? = some temporary) {parent : Place}
    {last : String} {endsOpen : Bool}
    (htarget : t.target temporary = .ok (.named parent last endsOpen)) :
    ∃ other, last = temporaryName other := by
  obtain ⟨other, hother, rfl⟩ := Option.map_eq_some_iff.mp h
  have hn : IsEntryName (temporaryName other) :=
    isEntryName_temporaryName (Path.not_mem_of_mem_names (Path.mem_names_of_fileName? hother))
  obtain ⟨base, hbase⟩ : ∃ base,
      p.sibling (temporaryName other) = Path.child base (temporaryName other) := by
    unfold Path.sibling
    split
    · exact ⟨_, rfl⟩
    · exact ⟨_, rfl⟩
  change t.target (p.sibling (temporaryName other)) = _ at htarget
  rw [hbase] at htarget
  obtain ⟨dir, -, -, -, hnamed⟩ := (target_child_eq_ok_iff hn).mp htarget
  injection hnamed with _ hlast _
  exact ⟨other, hlast.symm⟩

theorem confined_replaceFile_dots (h : name = "." ∨ name = "..") (t : FileTree) (base : Path)
    (text : String) :
    Confined (fun place => ∃ other, place.getLast? = some (temporaryName other)) t
      (t.replaceFile (base.child name) text).2 := by
  unfold replaceFile
  split
  · exact Confined.refl _ t
  · rename_i temporary htemporary
    cases hwrite : t.perform (.write temporary (.text text)) with
    | error e => exact Confined.refl _ t
    | ok written =>
        obtain ⟨parent, last, endsOpen, htarget, hfree, rfl⟩ := perform_write_eq_ok hwrite
        obtain ⟨other, rfl⟩ := target_temporary htemporary htarget
        have hput : Confined (fun place => ∃ other, place.getLast? = some (temporaryName other)) t
            (t.put (parent ++ [temporaryName other]) (.file (.text text))) := by
          refine (Confined.put (concat_ne_nil _ _) hfree _).mono ?_
          intro place hp
          exact ⟨other, by rw [hp, List.getLast?_concat]⟩
        dsimp only
        cases hrename : (t.put (parent ++ [temporaryName other]) (.file (.text text))).perform
            (.rename temporary (base.child name)) with
        | ok renamed =>
            -- no file is moved to a name of dots
            obtain ⟨source, -, hmove⟩ := bind_eq_ok hrename
            obtain ⟨dest, hdest, hmove⟩ := bind_eq_ok hmove
            cases dest with
            | directory place => cases source <;> cases hmove
            | named parent' last' endsOpen' =>
                exact absurd hdest (target_child_dots h _ base parent' last' endsOpen')
        | error e =>
            dsimp only
            cases hremove : (t.put (parent ++ [temporaryName other]) (.file (.text text))).perform
                (.remove temporary) with
            | error e => exact hput
            | ok cleaned =>
                obtain ⟨parent', last', _, content, htarget', hfind, rfl⟩ :=
                  perform_remove_eq_ok hremove
                obtain ⟨other', rfl⟩ := target_temporary htemporary htarget'
                refine hput.trans ((Confined.erase (concat_ne_nil _ _) ?_).mono ?_)
                · rw [hfind]
                  intro hd
                  cases hd
                · intro place hp
                  exact ⟨other', by rw [hp, List.getLast?_concat]⟩

end FileTree

end ServiceWiring
