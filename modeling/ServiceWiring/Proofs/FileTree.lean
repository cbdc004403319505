import ServiceWiring.Proofs.Path

/-!
# Paths in a file tree

Where a path leads is a matter of its steps.  The steps of a pass change files only, and each of
them in one folder.  What a change leaves alone is said once, by `FileTree.Confined`, and
everything that reads a tree is shown not to see such a change.

* `FileTree.folderAt` — the place of the folder that a path names;
* `FileTree.target_of_steps`, `FileTree.target_child` — where a path leads, and that of a file in a
  folder;
* `FileTree.Confined` — a change of files at given places, and nothing else;
* `FileTree.folderAt_of_entryAt`, `FileTree.entryAt_of_folderAt` — what leads to a directory;
* `FileTree.readText_child` — reading a file of a folder.
-/

namespace ServiceWiring

namespace FileTree

variable {t t' t'' : FileTree} {base : Path} {name : String} {dir : Place}

/-! ## Folders and targets -/

/-- The place of the folder that a path names. -/
def folderAt (t : FileTree) (p : Path) : Except FileError Place :=
  t.enterAll (if p.isAbsolute then [] else t.workingDir) p.names

theorem folderAt_congr {p q : Path} (h : p.LeadsAlike q) : t.folderAt p = t.folderAt q := by
  rw [folderAt, folderAt, h.1, h.2]

/-- A name leads to a directory by being a dot or by naming one. -/
theorem enter_eq_ok_iff {place dir : Place} :
    t.enter place name = .ok dir ↔
      (name = "." ∧ place = dir) ∨
      (name ≠ "." ∧ name = ".." ∧ place.dropLast = dir) ∨
      (name ≠ "." ∧ name ≠ ".." ∧ checkEntryName name = .ok () ∧
        t.find? (place ++ [name]) = some .directory ∧ place ++ [name] = dir) := by
  unfold enter
  by_cases hdot : name = "."
  · simp [hdot]
  · by_cases hup : name = ".."
    · simp [hup]
    · rw [if_neg hdot, if_neg hup]
      cases hc : checkEntryName name with
      | error e => simp [bind, Except.bind, hdot, hup]
      | ok u =>
          cases hf : t.find? (place ++ [name]) with
          | none => simp [bind, Except.bind, hdot, hup, throw, throwThe, MonadExceptOf.throw]
          | some entry =>
              cases entry with
              | directory => simp [bind, Except.bind, hdot, hup, pure, Except.pure]
              | file c => simp [bind, Except.bind, hdot, hup, throw, throwThe, MonadExceptOf.throw]

/-- Names behind some that lead to a directory are followed from there. -/
theorem enterAll_concat {place : Place} {names : List String} (h : t.enterAll place names = .ok dir)
    (name : String) : t.enterAll place (names ++ [name]) = t.enter dir name := by
  rw [enterAll_append, h]
  show (t.enter dir name).bind _ = _
  cases t.enter dir name with
  | error e => rfl
  | ok place => rfl

/-- Where the last step of a path leads from the directory in front of it. -/
def arrive (dir : Place) (last : String) (endsOpen : Bool) : Except FileError Target :=
  if last = "." then .ok (.directory dir)
  else if last = ".." then .ok (.directory dir.dropLast)
  else (checkEntryName last).bind fun _ => .ok (.named dir last endsOpen)

theorem target_of_steps {p : Path} {front : List String} {last : String}
    (hsteps : p.steps = front ++ [last]) :
    t.target p = p.checkText.bind fun _ =>
      (t.enterAll (if p.isAbsolute then [] else t.workingDir) front).bind fun dir =>
        arrive dir last p.endsOpen := by
  have hvisible : p.text.isEmpty = false := by
    rw [Bool.eq_false_iff]
    intro hempty
    rw [Path.steps, String.isEmpty_iff.mp hempty] at hsteps
    exact List.append_ne_nil_of_right_ne_nil front (List.cons_ne_nil last []) hsteps.symm
  rw [target, hvisible, hsteps, List.getLast?_concat, List.dropLast_concat]
  rfl

/-- Without a step a path is empty or the root. -/
theorem target_of_no_steps {p : Path} (hsteps : p.steps = []) :
    t.target p = p.checkText.bind fun _ =>
      if p.text.isEmpty then .error .notFound else .ok (.directory []) := by
  rw [target, hsteps]
  rfl

/-- Where the path of a file in a folder leads. -/
theorem target_child (t : FileTree) (base : Path) (hn : IsEntryName name) :
    t.target (base.child name) = (do
      (base.child name).checkText
      let dir ← t.folderAt base
      checkEntryName name
      return .named dir name false) := by
  rw [target_of_steps (Path.steps_child base hn.1 hn.2.2.2), enterAll_steps,
    Path.isAbsolute_child base hn, Path.endsOpen_child base hn]
  simp only [arrive, hn.2.1, hn.2.2.1, if_false]
  rfl

theorem target_child_eq_ok_iff (hn : IsEntryName name) {target : Target} :
    t.target (base.child name) = .ok target ↔
      ∃ dir, t.folderAt base = .ok dir ∧ (base.child name).checkText = .ok () ∧
        checkEntryName name = .ok () ∧ Target.named dir name false = target := by
  rw [target_child t base hn]
  constructor
  · intro h
    obtain ⟨u, hu, h⟩ := bind_eq_ok h
    obtain ⟨dir, hdir, h⟩ := bind_eq_ok h
    obtain ⟨v, hv, h⟩ := bind_eq_ok h
    exact ⟨dir, hdir, hu, hv, Except.ok.inj h⟩
  · rintro ⟨dir, hdir, hu, hv, rfl⟩
    rw [hu, hdir, hv]
    rfl

/-- A path that leads to a name ends in that name, and its folder is the one it leads to. -/
theorem names_of_target {p : Path} {parent : Place} {endsOpen : Bool}
    (h : t.target p = .ok (.named parent name endsOpen)) :
    p.names.getLast? = some name ∧ name ≠ ".." ∧
      t.enterAll (if p.isAbsolute then [] else t.workingDir) p.names.dropLast = .ok parent := by
  rcases List.eq_nil_or_concat' p.steps with hsteps | ⟨front, last, hsteps⟩
  · rw [target_of_no_steps hsteps] at h
    obtain ⟨-, -, h⟩ := bind_eq_ok h
    split at h <;> cases h
  · rw [target_of_steps hsteps] at h
    obtain ⟨-, -, h⟩ := bind_eq_ok h
    obtain ⟨dir, hdir, h⟩ := bind_eq_ok h
    unfold arrive at h
    split at h
    · cases h
    · split at h
      · cases h
      · rename_i hdot hup
        obtain ⟨-, -, h⟩ := bind_eq_ok h
        injection Except.ok.inj h with hparent hname hopen
        subst hparent hname
        have hnames : p.names = front.filter (· ≠ ".") ++ [last] := by
          rw [← Path.filter_steps, hsteps, List.filter_append]
          simp [hdot]
        rw [hnames, List.getLast?_concat, List.dropLast_concat, ← enterAll_filter_dot]
        exact ⟨rfl, hup, hdir⟩

/-! ## Confined changes -/

/-- A tree changes in files at the given places only: every other place keeps what it has, and
    nothing becomes or ceases to be a directory. -/
structure Confined (places : Place → Prop) (t t' : FileTree) : Prop where
  workingDir : t'.workingDir = t.workingDir
  elsewhere : ∀ place, ¬ places place → t'.find? place = t.find? place
  directory : ∀ place, t'.find? place = some .directory ↔ t.find? place = some .directory

namespace Confined

variable {places more : Place → Prop}

theorem refl (places : Place → Prop) (t : FileTree) : Confined places t t :=
  ⟨rfl, fun _ _ => rfl, fun _ => Iff.rfl⟩

theorem trans (h : Confined places t t') (h' : Confined places t' t'') : Confined places t t'' :=
  ⟨h'.workingDir.trans h.workingDir,
    fun place hp => (h'.elsewhere place hp).trans (h.elsewhere place hp),
    fun place => (h'.directory place).trans (h.directory place)⟩

theorem symm (h : Confined places t t') : Confined places t' t :=
  ⟨h.workingDir.symm, fun place hp => (h.elsewhere place hp).symm,
    fun place => (h.directory place).symm⟩

theorem mono (h : Confined places t t') (hsub : ∀ place, places place → more place) :
    Confined more t t' :=
  ⟨h.workingDir, fun place hp => h.elsewhere place fun hin => hp (hsub place hin), h.directory⟩

/-- Files may be written where no directory is. -/
theorem put {place : Place} (hroot : place ≠ []) (hfile : t.find? place ≠ some .directory)
    (content : Content) : Confined (· = place) t (t.put place (.file content)) := by
  refine ⟨rfl, fun other hother => find?_put_of_ne t hother _, fun other => ?_⟩
  by_cases hother : other = place
  · subst hother
    rw [find?_put_self t hroot]
    constructor
    · intro h
      cases h
    · intro h
      exact absurd h hfile
  · rw [find?_put_of_ne t hother]

/-- Files may be taken away. -/
theorem erase {place : Place} (hroot : place ≠ []) (hfile : t.find? place ≠ some .directory) :
    Confined (· = place) t (t.erase place) := by
  refine ⟨rfl, fun other hother => find?_erase_of_ne t hother, fun other => ?_⟩
  by_cases hother : other = place
  · subst hother
    rw [find?_erase_self t hroot]
    constructor
    · intro h
      cases h
    · intro h
      exact absurd h hfile
  · rw [find?_erase_of_ne t hother]

theorem enter_eq_ok (h : Confined places t t') {place dir : Place} :
    t'.enter place name = .ok dir ↔ t.enter place name = .ok dir := by
  rw [enter_eq_ok_iff, enter_eq_ok_iff, h.directory]

theorem enterAll_eq_ok (h : Confined places t t') {place dir : Place} {names : List String} :
    t'.enterAll place names = .ok dir ↔ t.enterAll place names = .ok dir := by
  induction names generalizing place with
  | nil => exact Iff.rfl
  | cons name names ih =>
      constructor
      · intro hok
        obtain ⟨mid, hmid, hrest⟩ := bind_eq_ok hok
        show (t.enter place name >>= fun mid => t.enterAll mid names) = _
        rw [h.enter_eq_ok.mp hmid]
        exact ih.mp hrest
      · intro hok
        obtain ⟨mid, hmid, hrest⟩ := bind_eq_ok hok
        show (t'.enter place name >>= fun mid => t'.enterAll mid names) = _
        rw [h.enter_eq_ok.mpr hmid]
        exact ih.mpr hrest

/-- Folders stay where they are. -/
theorem folderAt_eq_ok (h : Confined places t t') :
    t'.folderAt base = .ok dir ↔ t.folderAt base = .ok dir := by
  rw [folderAt, folderAt, h.workingDir]
  exact h.enterAll_eq_ok

end Confined

/-! ## Reading -/

/-- What is found at a target. -/
def entryOf (t : FileTree) : Target → Except FileError (Place × Entry)
  | .directory place => .ok (place, .directory)
  | .named parent name endsOpen =>
      match t.find? (parent ++ [name]) with
      | none => .error .notFound
      | some .directory => .ok (parent ++ [name], .directory)
      | some (.file content) =>
          if endsOpen then .error .notDirectory else .ok (parent ++ [name], .file content)

theorem entryAt_eq (t : FileTree) (p : Path) : t.entryAt p = (t.target p).bind t.entryOf := by
  unfold entryAt
  cases t.target p with
  | error e => rfl
  | ok target =>
      cases target with
      | directory place => rfl
      | named parent name endsOpen => rfl

/-- The last step leads to a directory exactly if it can be entered. -/
theorem entryOf_arrive_iff {place : Place} {last : String} {endsOpen : Bool} :
    (arrive dir last endsOpen).bind t.entryOf = .ok (place, .directory)
      ↔ t.enter dir last = .ok place := by
  rw [enter_eq_ok_iff]
  unfold arrive
  by_cases hdot : last = "."
  · simp [hdot, Except.bind, entryOf]
  · by_cases hup : last = ".."
    · simp [hup, Except.bind, entryOf]
    · rw [if_neg hdot, if_neg hup]
      cases checkEntryName last with
      | error e => simp [Except.bind, hdot, hup]
      | ok u =>
          simp only [Except.bind, entryOf]
          cases hfind : t.find? (dir ++ [last]) with
          | none => simp [hdot, hup]
          | some entry =>
              cases entry with
              | directory => simp [hdot, hup]
              | file content => cases endsOpen <;> simp [hdot, hup]

/-- What leads anywhere is a text that an access takes. -/
theorem checkText_of_entryAt {p : Path} {found : Place × Entry} (h : t.entryAt p = .ok found) :
    p.checkText = .ok () ∧ p.text.toList ≠ [] := by
  obtain ⟨target, htarget, -⟩ := bind_eq_ok h
  obtain ⟨checked, hcheck, htarget⟩ := bind_eq_ok htarget
  refine ⟨hcheck, ?_⟩
  split at htarget
  · cases htarget
  · rename_i hne
    intro hempty
    exact hne (String.isEmpty_iff.mpr (String.toList_inj.mp hempty))

/-- What leads to a directory leads there by its names. -/
theorem folderAt_of_entryAt {p : Path} (h : t.entryAt p = .ok (dir, .directory)) :
    t.folderAt p = .ok dir := by
  have hne := (checkText_of_entryAt h).2
  obtain ⟨target, htarget, hentry⟩ := bind_eq_ok ((entryAt_eq t p).symm.trans h)
  rw [folderAt, ← enterAll_steps]
  rcases List.eq_nil_or_concat' p.steps with hsteps | ⟨front, last, hsteps⟩
  · -- without a step the path is the root
    rw [target_of_no_steps hsteps] at htarget
    obtain ⟨-, -, htarget⟩ := bind_eq_ok htarget
    split at htarget
    · cases htarget
    · rw [← Except.ok.inj htarget] at hentry
      rw [hsteps, Path.isAbsolute_of_steps hne hsteps, if_pos rfl]
      exact congrArg Except.ok (Prod.mk.inj (Except.ok.inj hentry)).1
  · rw [target_of_steps hsteps] at htarget
    obtain ⟨-, -, htarget⟩ := bind_eq_ok htarget
    obtain ⟨mid, hmid, harrive⟩ := bind_eq_ok htarget
    rw [hsteps, enterAll_concat hmid, ← entryOf_arrive_iff, harrive]
    exact hentry

/-- Names that lead to a directory lead there as a path. -/
theorem entryAt_of_folderAt {p : Path} (h : t.folderAt p = .ok dir) (hcheck : p.checkText = .ok ())
    (hne : p.text.toList ≠ []) : t.entryAt p = .ok (dir, .directory) := by
  rw [folderAt, ← enterAll_steps] at h
  rcases List.eq_nil_or_concat' p.steps with hsteps | ⟨front, last, hsteps⟩
  · rw [hsteps, Path.isAbsolute_of_steps hne hsteps, if_pos rfl] at h
    have hvisible : ¬ p.text.isEmpty = true := fun hempty =>
      hne (congrArg String.toList (String.isEmpty_iff.mp hempty))
    rw [entryAt_eq, target_of_no_steps hsteps, hcheck, ← Except.ok.inj h, if_neg hvisible]
    rfl
  · rw [hsteps, enterAll_append] at h
    obtain ⟨mid, hmid, hlast⟩ := bind_eq_ok h
    obtain ⟨next, hnext, hnil⟩ := bind_eq_ok hlast
    obtain rfl : next = dir := Except.ok.inj hnil
    rw [entryAt_eq, target_of_steps hsteps, hcheck, hmid]
    exact entryOf_arrive_iff.mpr hnext

/-- The text that an entry of a directory holds. -/
def textOf : Option Entry → Except FileError String
  | none => .error .notFound
  | some .directory => .error .isDirectory
  | some (.file (.bytes _)) => .error .notText
  | some (.file (.text s)) => .ok s

/-- Reading a file of a folder is reading the entry of its name. -/
theorem readText_child (hn : IsEntryName name) (hdir : t.folderAt base = .ok dir) :
    t.readText (base.child name) = (do
      (base.child name).checkText
      checkEntryName name
      textOf (t.find? (dir ++ [name]))) := by
  unfold readText entryAt
  rw [target_child t base hn, hdir]
  cases (base.child name).checkText with
  | error e => rfl
  | ok u =>
      cases checkEntryName name with
      | error e => rfl
      | ok u =>
          simp only [bind, Except.bind, pure, Except.pure]
          cases t.find? (dir ++ [name]) with
          | none => rfl
          | some entry =>
              cases entry with
              | directory => rfl
              | file content => cases content <;> rfl

/-- A file of a folder that can be read is there. -/
theorem find?_of_readText (hn : IsEntryName name) {text : String}
    (h : t.readText (base.child name) = .ok text) :
    ∃ dir, t.folderAt base = .ok dir ∧ t.find? (dir ++ [name]) = some (.file (.text text)) ∧
      (base.child name).checkText = .ok () ∧ checkEntryName name = .ok () := by
  cases hdir : t.folderAt base with
  | error e =>
      unfold readText entryAt at h
      rw [target_child t base hn, hdir] at h
      cases hc : (base.child name).checkText with
      | error e => rw [hc] at h; cases h
      | ok u => rw [hc] at h; cases h
  | ok dir =>
      rw [readText_child hn hdir] at h
      obtain ⟨u, hu, h⟩ := bind_eq_ok h
      obtain ⟨v, hv, h⟩ := bind_eq_ok h
      refine ⟨dir, rfl, ?_, hu, hv⟩
      unfold textOf at h
      split at h
      · cases h
      · cases h
      · cases h
      · rename_i s hf
        rw [Except.ok.inj h] at hf
        exact hf

/-- A file of a folder that is missed when it is read is not there. -/
theorem find?_of_missing (hn : IsEntryName name) (hdir : t.folderAt base = .ok dir)
    (h : t.readText (base.child name) = .error .notFound) :
    t.find? (dir ++ [name]) = none := by
  rw [readText_child hn hdir] at h
  -- the two checks of the path fail with other errors
  unfold Path.checkText checkEntryName at h
  split at h
  · cases h
  · split at h
    · cases h
    · split at h
      · cases h
      · change textOf _ = _ at h
        unfold textOf at h
        split at h
        · assumption
        · cases h
        · cases h
        · cases h

/-- A path that leads to a file names it in a folder. -/
theorem entryAt_file {p : Path} {place : Place} {content : Content}
    (h : t.entryAt p = .ok (place, .file content)) :
    ∃ parent last endsOpen, t.target p = .ok (.named parent last endsOpen) ∧
      place = parent ++ [last] ∧ t.find? (parent ++ [last]) = some (.file content) := by
  obtain ⟨target, htarget, hentry⟩ := bind_eq_ok h
  cases target with
  | directory place => cases hentry
  | named parent last endsOpen =>
      refine ⟨parent, last, endsOpen, htarget, ?_⟩
      dsimp only at hentry
      split at hentry
      · cases hentry
      · cases hentry
      · rename_i found hfind
        split at hentry
        · cases hentry
        · obtain ⟨hplace, hfile⟩ := Prod.mk.inj (Except.ok.inj hentry)
          rw [← hplace, hfind, hfile]
          exact ⟨rfl, rfl⟩

/-- The texts of all files. -/
def texts (t : FileTree) : List String :=
  t.entries.filterMap fun
    | (_, .file (.text s)) => some s
    | _ => none

theorem mem_texts_of_find? {place : Place} {s : String}
    (h : t.find? place = some (.file (.text s))) : s ∈ t.texts := by
  unfold find? at h
  split at h
  · cases h
  · obtain ⟨⟨place', entry⟩, hentry, heq⟩ := Option.map_eq_some_iff.mp h
    change entry = .file (.text s) at heq
    subst heq
    exact List.mem_filterMap.mpr ⟨_, List.mem_of_find?_eq_some hentry, rfl⟩

theorem mem_texts_of_readText {p : Path} {s : String} (h : t.readText p = .ok s) :
    s ∈ t.texts := by
  obtain ⟨⟨place, entry⟩, hentry, hread⟩ := bind_eq_ok h
  cases entry with
  | directory => cases hread
  | file content =>
      cases content with
      | bytes data => cases hread
      | text s' =>
          obtain ⟨_, _, _, -, -, hfind⟩ := entryAt_file hentry
          rw [← Except.ok.inj hread]
          exact mem_texts_of_find? hfind

namespace Confined

variable {places : Place → Prop}

/-- A file that is none of the changed ones reads as before. -/
theorem readText_child (h : Confined places t t') (hn : IsEntryName name)
    (hdir : t.folderAt base = .ok dir) (hplace : ¬ places (dir ++ [name])) :
    t'.readText (base.child name) = t.readText (base.child name) := by
  rw [FileTree.readText_child hn hdir, FileTree.readText_child hn (h.folderAt_eq_ok.mpr hdir),
    h.elsewhere _ hplace]

/-- So does a file of a folder under any spelling of its path. -/
theorem readText_of_leadsAlike (h : Confined places t t') {p : Path} (hn : IsEntryName name)
    (hp : p.LeadsAlike (base.child name)) (hdir : t.folderAt base = .ok dir)
    (hplace : ¬ places (dir ++ [name])) : t'.readText p = t.readText p := by
  have habsolute : p.isAbsolute = base.isAbsolute := hp.1.trans (Path.isAbsolute_child base hn)
  have hnames : p.names = base.names ++ [name] := hp.2.trans (Path.names_child base hn)
  have hfind := h.elsewhere _ hplace
  have hfilter := (Path.filter_steps p).trans hnames
  suffices hentry : t'.entryAt p = t.entryAt p by rw [readText, readText, hentry]
  rw [entryAt_eq, entryAt_eq]
  rcases List.eq_nil_or_concat' p.steps with hsteps | ⟨front, last, hsteps⟩
  · rw [hsteps] at hfilter
    exact absurd hfilter.symm (List.append_ne_nil_of_right_ne_nil _ (List.cons_ne_nil name []))
  rw [hsteps, List.filter_append] at hfilter
  rw [target_of_steps hsteps, target_of_steps hsteps, enterAll_filter_dot t, enterAll_filter_dot t',
    habsolute]
  cases p.checkText with
  | error e => rfl
  | ok u =>
      have hdir' := h.folderAt_eq_ok.mpr hdir
      rw [folderAt] at hdir hdir'
      by_cases hdot : last = "."
      · -- a dot behind the name: the name has to be a directory
        have hfront : front.filter (· ≠ ".") = base.names ++ [name] := by simpa [hdot] using hfilter
        have hsame : t'.enter dir name = t.enter dir name := by
          unfold enter
          rw [hfind]
        rw [hfront, enterAll_concat hdir, enterAll_concat hdir', hsame, hdot]
        cases t.enter dir name with
        | error e => rfl
        | ok place => rfl
      · -- the name is the last step, behind steps that lead to the folder
        rw [List.filter_cons_of_pos (by simpa using hdot), List.filter_nil] at hfilter
        obtain ⟨hfront, hname⟩ := List.append_inj' hfilter rfl
        obtain rfl : last = name := (List.cons.inj hname).1
        rw [hfront, hdir, hdir']
        simp only [Except.bind, arrive, hn.2.1, hn.2.2.1, if_false]
        cases checkEntryName last with
        | error e => rfl
        | ok u =>
            simp only [entryOf]
            rw [hfind]

/-- A file that is none of the changed ones is found as it was, whatever it holds. -/
theorem entryAt_child (h : Confined places t t') (hn : IsEntryName name)
    (hdir : t.folderAt base = .ok dir) (hplace : ¬ places (dir ++ [name])) :
    t'.entryAt (base.child name) = t.entryAt (base.child name) := by
  rw [entryAt_eq, entryAt_eq, target_child t base hn, target_child t' base hn, hdir,
    h.folderAt_eq_ok.mpr hdir]
  cases (base.child name).checkText with
  | error e => rfl
  | ok u =>
      cases checkEntryName name with
      | error e => rfl
      | ok u =>
          show t'.entryOf (.named dir name false) = t.entryOf (.named dir name false)
          rw [entryOf, entryOf, h.elsewhere _ hplace]

/-- A folder that can be entered is found where it was. -/
theorem entryAt_folder (h : Confined places t t') (hdir : t.folderAt base = .ok dir) :
    t'.entryAt base = t.entryAt base := by
  cases hcheck : base.checkText with
  | error e =>
      rw [entryAt, entryAt, target, target, hcheck]
      rfl
  | ok u =>
      by_cases hempty : base.text = ""
      · rw [entryAt, entryAt, target, target, hcheck, hempty]
        rfl
      · have hne : base.text.toList ≠ [] := fun hnil => hempty (String.toList_inj.mp hnil)
        rw [entryAt_of_folderAt hdir hcheck hne,
          entryAt_of_folderAt (h.folderAt_eq_ok.mpr hdir) hcheck hne]

end Confined

end FileTree

end ServiceWiring
