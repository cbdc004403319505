import ServiceWiring.Generated.CodeLine

/-!
# Properties of the lines of generated code

A property of texts holds of every line of a block, or of some line of it.  Indentation does not
matter, and both are told from the parts that a block is put together from.  Statements of several
lines can be told apart where they follow each other.

* `CodeBlock.All`, `CodeBlock.Has` — the texts of all lines, the text of some line;
* `CodeBlock.map_eq_of_flatMap_eq` — what is decided by the pieces that a list is put together from;
* `CodeBlock.Compound`, `CodeBlock.map_eq_of_compound` — statements that end with their last line.
-/

namespace ServiceWiring.CodeBlock

variable {P : String → Prop} {a b block : CodeBlock} {text : String}

/-- Every line has the property. -/
def All (P : String → Prop) (block : CodeBlock) : Prop :=
  ∀ l ∈ block, P l.text

/-- Some line has the property. -/
def Has (P : String → Prop) (block : CodeBlock) : Prop :=
  ∃ l ∈ block, P l.text

/-! ## Every line -/

theorem all_nil : All P [] :=
  fun _ h => nomatch h

theorem all_line : All P (line text) ↔ P text := by
  constructor
  · intro h
    exact h _ (List.mem_singleton_self _)
  · intro h l hl
    rw [List.mem_singleton.mp hl]
    exact h

theorem all_append : All P (a ++ b) ↔ All P a ∧ All P b := by
  constructor
  · intro h
    exact ⟨fun l hl => h l (List.mem_append_left _ hl), fun l hl => h l (List.mem_append_right _ hl)⟩
  · rintro ⟨ha, hb⟩ l hl
    rcases List.mem_append.mp hl with hl | hl
    · exact ha l hl
    · exact hb l hl

theorem all_nested : All P (nested block) ↔ All P block := by
  constructor
  · intro h l hl
    exact h (l.shift 1) (List.mem_map_of_mem hl)
  · intro h l hl
    obtain ⟨l', hl', rfl⟩ := List.mem_map.mp hl
    exact h l' hl'

theorem all_flatMap {α : Type} {xs : List α} {f : α → CodeBlock} (h : ∀ x ∈ xs, All P (f x)) :
    All P (xs.flatMap f) := by
  intro l hl
  obtain ⟨x, hx, hl⟩ := List.mem_flatMap.mp hl
  exact h x hx l hl

/-! ## Some line -/

theorem has_line (h : P text) : Has P (line text) :=
  ⟨_, List.mem_singleton_self _, h⟩

theorem has_append_left (h : Has P a) (b : CodeBlock) : Has P (a ++ b) := by
  obtain ⟨l, hl, hP⟩ := h
  exact ⟨l, List.mem_append_left _ hl, hP⟩

theorem has_append_right (a : CodeBlock) (h : Has P b) : Has P (a ++ b) := by
  obtain ⟨l, hl, hP⟩ := h
  exact ⟨l, List.mem_append_right _ hl, hP⟩

theorem has_nested (h : Has P block) : Has P (nested block) := by
  obtain ⟨l, hl, hP⟩ := h
  exact ⟨l.shift 1, List.mem_map_of_mem hl, hP⟩

/-- A list is cut in one way at the first occurrence of an element. -/
theorem cut_inj {ι : Type} {l : ι} {as bs xs ys : List ι} (ha : l ∉ as) (hb : l ∉ bs)
    (h : as ++ l :: xs = bs ++ l :: ys) : as = bs ∧ xs = ys := by
  induction as generalizing bs with
  | nil =>
      cases bs with
      | nil => exact ⟨rfl, (List.cons.inj h).2⟩
      | cons m bs => exact absurd (List.mem_cons.mpr (.inl (List.cons.inj h).1)) hb
  | cons k as ih =>
      cases bs with
      | nil => exact absurd (List.mem_cons.mpr (.inl (List.cons.inj h).1.symm)) ha
      | cons m bs =>
          obtain ⟨rfl, htail⟩ := List.cons.inj h
          obtain ⟨rfl, hxy⟩ := ih (fun hmem => ha (List.mem_cons_of_mem _ hmem))
            (fun hmem => hb (List.mem_cons_of_mem _ hmem)) htail
          exact ⟨rfl, hxy⟩

/-- Two lists that are put together from pieces are put together from as many, if each piece can be
    cut off and a list that goes on with a piece can be told from what follows the last one.  What
    a piece decides is then the same in both. -/
theorem map_eq_of_flatMap_eq {ι α β γ : Type} {f : α → List ι} {g : β → List ι} {p : α → γ}
    {q : β → γ} {GoesOn : List ι → Prop}
    (hcut : ∀ i j xs ys, f i ++ xs = g j ++ ys → f i = g j ∧ xs = ys)
    (hf : ∀ i xs, GoesOn (f i ++ xs)) (hg : ∀ j ys, GoesOn (g j ++ ys))
    (hdecides : ∀ i j, f i = g j → p i = q j) {xs ys : List ι} (hxs : ¬ GoesOn xs)
    (hys : ¬ GoesOn ys) {is : List α} {js : List β} (h : is.flatMap f ++ xs = js.flatMap g ++ ys) :
    is.map p = js.map q := by
  induction is generalizing js with
  | nil =>
      cases js with
      | nil => rfl
      | cons j js =>
          rw [List.flatMap_nil, List.nil_append, List.flatMap_cons, List.append_assoc] at h
          exact absurd (h ▸ hg j _) hxs
  | cons i is ih =>
      rw [List.flatMap_cons, List.append_assoc] at h
      cases js with
      | nil =>
          rw [List.flatMap_nil, List.nil_append] at h
          exact absurd (h ▸ hf i _) hys
      | cons j js =>
          rw [List.flatMap_cons, List.append_assoc] at h
          obtain ⟨hpiece, hmore⟩ := hcut i j _ _ h
          rw [List.map_cons, List.map_cons, hdecides i j hpiece, ih hmore]

/-! ## Statements over several lines -/

variable {word other last first : String} {x y : CodeBlock}

/-- A statement over several lines: it starts with `word`, and only its last line is `last`. -/
inductive Compound (word last : String) : CodeBlock → Prop where
  | intro {first : String} {more : CodeBlock} (hfirst : word.toList <+: first.toList)
      (hlast : ¬ word.toList <+: last.toList) (honce : ⟨0, last⟩ ∉ more) :
      Compound word last (line first ++ more ++ line last)

/-- A block whose first line starts with `word`. -/
def StartsWith (word : String) (block : CodeBlock) : Prop :=
  ∃ l ∈ block.head?, word.toList <+: l.text.toList

theorem not_mem_line (h : last ≠ text) : (⟨0, last⟩ : CodeLine) ∉ line text := by
  intro hmem
  exact h (congrArg CodeLine.text (List.mem_singleton.mp hmem))

theorem not_mem_nested (last : String) (block : CodeBlock) :
    (⟨0, last⟩ : CodeLine) ∉ nested block := by
  intro hmem
  obtain ⟨l, -, hl⟩ := List.mem_map.mp hmem
  exact absurd (congrArg CodeLine.indent hl) (Nat.succ_ne_zero _)

theorem not_mem_append (ha : (⟨0, last⟩ : CodeLine) ∉ a) (hb : ⟨0, last⟩ ∉ b) :
    (⟨0, last⟩ : CodeLine) ∉ a ++ b := by
  intro hmem
  exact (List.mem_append.mp hmem).elim ha hb

theorem nested_inj (h : nested a = nested b) : a = b := by
  refine (List.map_inj_right ?_).mp h
  rintro ⟨n, text⟩ ⟨m, text'⟩ hl
  obtain ⟨hindent, rfl⟩ := CodeLine.mk.inj hl
  obtain rfl := Nat.succ.inj hindent
  rfl

theorem Compound.exists_front (h : Compound word last a) :
    ∃ front, a = front ++ line last ∧ ⟨0, last⟩ ∉ front := by
  cases h with
  | intro hfirst hlast honce =>
      refine ⟨_, rfl, not_mem_append (not_mem_line ?_) honce⟩
      rintro rfl
      exact hlast hfirst

/-- A statement is told from what follows it. -/
theorem Compound.append_inj (ha : Compound word last a) (hb : Compound other last b)
    (h : a ++ x = b ++ y) : a = b ∧ x = y := by
  obtain ⟨front, rfl, honce⟩ := ha.exists_front
  obtain ⟨front', rfl, honce'⟩ := hb.exists_front
  rw [List.append_assoc, List.append_assoc] at h
  obtain ⟨rfl, hxy⟩ := cut_inj honce honce' h
  exact ⟨rfl, hxy⟩

theorem Compound.exists_first (h : Compound word last a) :
    ∃ first more, a = ⟨0, first⟩ :: more ∧ word.toList <+: first.toList := by
  cases h with
  | intro hfirst hlast honce => exact ⟨_, _, rfl, hfirst⟩

theorem Compound.startsWith_append (h : Compound word last a) (x : CodeBlock) :
    StartsWith word (a ++ x) := by
  obtain ⟨first, more, rfl, hfirst⟩ := h.exists_first
  exact ⟨_, rfl, hfirst⟩

/-- A statement that starts with one word does not start with another one. -/
theorem Compound.not_startsWith (h : Compound word last a) (hother : ¬ other.toList <+: word.toList)
    (hword : ¬ word.toList <+: other.toList) : ¬ StartsWith other (a ++ x) := by
  cases h with
  | intro hfirst hlast honce =>
      rintro ⟨l, ⟨⟩, hl⟩
      exact (List.prefix_or_prefix_of_prefix hl hfirst).elim hother hword

/-- Two sequences of statements with the same code have as many statements, and what the code of
    a statement decides is the same in both. -/
theorem map_eq_of_compound {α β γ : Type} {f : α → CodeBlock} {g : β → CodeBlock} {p : α → γ}
    {q : β → γ} (hf : ∀ i, Compound word last (f i)) (hg : ∀ j, Compound word last (g j))
    (hdecides : ∀ i j, f i = g j → p i = q j) (hx : ¬ StartsWith word x) (hy : ¬ StartsWith word y)
    {is : List α} {js : List β} (h : is.flatMap f ++ x = js.flatMap g ++ y) :
    is.map p = js.map q :=
  map_eq_of_flatMap_eq (fun i j _ _ hsame => (hf i).append_inj (hg j) hsame)
    (fun i => (hf i).startsWith_append) (fun j => (hg j).startsWith_append) hdecides hx hy h

end ServiceWiring.CodeBlock
