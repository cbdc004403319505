import ServiceWiring.Proofs.FileTree

/-!
# Another content for a file

A file that is given another content is a file as before, so every path leads where it led: only
reading the file gives another text.

* `FileTree.SameShape` — trees with the same directories and files, whatever the files hold;
* `FileTree.SameShape.target` — where paths lead in such trees;
* `FileTree.entryAt_put_file` — what a path leads to when a file has another content;
* `FileTree.readText_put_file` — what reading gives then.
-/

namespace ServiceWiring.FileTree

variable {t t' : FileTree} {place : Place} {old new : Content}

/-- Two trees have directories and files at the same places. -/
structure SameShape (t t' : FileTree) : Prop where
  workingDir : t'.workingDir = t.workingDir
  missing : ∀ place, t'.find? place = none ↔ t.find? place = none
  directory : ∀ place, t'.find? place = some .directory ↔ t.find? place = some .directory

namespace SameShape

/-- Trees in which the same is found at every place. -/
theorem of_find? (hworking : t'.workingDir = t.workingDir)
    (hfind : ∀ place, t'.find? place = t.find? place) : SameShape t t' where
  workingDir := hworking
  missing place := by rw [hfind place]
  directory place := by rw [hfind place]

/-- A file with another content is still a file. -/
theorem put_file (h : t.find? place = some (.file old)) (new : Content) :
    SameShape t (t.put place (.file new)) := by
  have hroot : place ≠ [] := by
    rintro rfl
    cases h
  refine ⟨rfl, ?_, ?_⟩
  · intro other
    by_cases hother : other = place
    · subst hother
      rw [find?_put_self t hroot, h]
      exact ⟨nofun, nofun⟩
    · rw [find?_put_of_ne t hother]
  · intro other
    by_cases hother : other = place
    · subst hother
      rw [find?_put_self t hroot, h]
      exact ⟨nofun, nofun⟩
    · rw [find?_put_of_ne t hother]

theorem enter (h : SameShape t t') (dir : Place) (name : String) :
    t'.enter dir name = t.enter dir name := by
  unfold FileTree.enter
  split
  · rfl
  · split
    · rfl
    · cases checkEntryName name with
      | error e => rfl
      | ok u =>
          have hmissing := h.missing (dir ++ [name])
          have hdirectory := h.directory (dir ++ [name])
          simp only [bind, Except.bind]
          cases hfind : t.find? (dir ++ [name]) with
          | none => rw [hmissing.mpr hfind]
          | some entry =>
              cases entry with
              | directory => rw [hdirectory.mpr hfind]
              | file content =>
                  -- what is there and is no directory is a file in both trees
                  cases hfind' : t'.find? (dir ++ [name]) with
                  | none => rw [hmissing.mp hfind'] at hfind; cases hfind
                  | some entry' =>
                      cases entry' with
                      | directory => rw [hdirectory.mp hfind'] at hfind; cases hfind
                      | file content' => rfl

theorem enterAll (h : SameShape t t') (dir : Place) (names : List String) :
    t'.enterAll dir names = t.enterAll dir names := by
  induction names generalizing dir with
  | nil => rfl
  | cons name names ih =>
      unfold FileTree.enterAll
      rw [h.enter]
      exact congrArg _ (funext ih)

/-- Paths lead to the same places. -/
theorem target (h : SameShape t t') (p : Path) : t'.target p = t.target p := by
  unfold FileTree.target
  simp only [h.workingDir, h.enterAll]

end SameShape

/-- What a path leads to depends on what is found at each place only. -/
theorem entryAt_of_find? (hworking : t'.workingDir = t.workingDir)
    (hfind : ∀ place, t'.find? place = t.find? place) (p : Path) : t'.entryAt p = t.entryAt p := by
  unfold entryAt
  rw [(SameShape.of_find? hworking hfind).target]
  simp only [hfind]

/-- What a path leads to, with another content for one file. -/
def withContent (place : Place) (new : Content) : Place × Entry → Place × Entry
  | (found, .file content) => (found, .file (if found = place then new else content))
  | (found, .directory) => (found, .directory)

theorem entryOf_put_file (h : t.find? place = some (.file old)) (new : Content) (target : Target) :
    (t.put place (.file new)).entryOf target = (t.entryOf target).map (withContent place new) := by
  have hroot : place ≠ [] := by
    rintro rfl
    cases h
  cases target with
  | directory found => rfl
  | named parent name endsOpen =>
      rw [entryOf, entryOf]
      by_cases hplace : parent ++ [name] = place
      · rw [hplace, find?_put_self t hroot, h]
        cases endsOpen with
        -- a file is no directory, before and after
        | true => rfl
        | false =>
            show Except.ok (place, Entry.file new) = .ok (withContent place new (place, .file old))
            rw [withContent, if_pos rfl]
      · rw [find?_put_of_ne t hplace]
        cases t.find? (parent ++ [name]) with
        | none => rfl
        | some entry =>
            cases entry with
            | directory => rfl
            | file content =>
                cases endsOpen with
                | true => rfl
                | false =>
                    show Except.ok (parent ++ [name], Entry.file content)
                      = .ok (withContent place new (parent ++ [name], .file content))
                    rw [withContent, if_neg hplace]

/-- With another content for a file paths lead where they led. -/
theorem entryAt_put_file (h : t.find? place = some (.file old)) (new : Content) (p : Path) :
    (t.put place (.file new)).entryAt p = (t.entryAt p).map (withContent place new) := by
  rw [entryAt_eq, entryAt_eq, (SameShape.put_file h new).target]
  cases t.target p with
  | error e => rfl
  | ok target => exact entryOf_put_file h new target

theorem canonical?_put_file (h : t.find? place = some (.file old)) (new : Content) (p : Path) :
    (t.put place (.file new)).canonical? p = t.canonical? p := by
  unfold canonical?
  rw [entryAt_put_file h]
  cases t.entryAt p with
  | error e => rfl
  | ok found =>
      obtain ⟨found, entry⟩ := found
      cases entry with
      | directory => rfl
      | file content => rfl

/-- A path reads as before, or it is one of the file. -/
theorem readText_put_file {text : String} (h : t.find? place = some (.file (.text text)))
    (text' : String) (p : Path) :
    (t.put place (.file (.text text'))).readText p = t.readText p ∨
      t.readText p = .ok text ∧ (t.put place (.file (.text text'))).readText p = .ok text' := by
  have hentry := entryAt_put_file h (.text text') p
  unfold readText
  cases hfound : t.entryAt p with
  | error e =>
      rw [hfound] at hentry
      rw [hentry]
      exact .inl rfl
  | ok found =>
      obtain ⟨found, entry⟩ := found
      rw [hfound] at hentry
      change _ = Except.ok (withContent place (.text text') (found, entry)) at hentry
      rw [hentry]
      cases entry with
      | directory => exact .inl rfl
      | file content =>
          by_cases hplace : found = place
          · -- the path leads to the file, so it read as its text before
            obtain ⟨parent, last, endsOpen, -, rfl, hcontent⟩ := entryAt_file hfound
            rw [hplace, h] at hcontent
            obtain rfl := Entry.file.inj (Option.some.inj hcontent)
            rw [withContent, if_pos hplace]
            exact .inr ⟨rfl, rfl⟩
          · rw [withContent, if_neg hplace]
            exact .inl rfl

end ServiceWiring.FileTree
