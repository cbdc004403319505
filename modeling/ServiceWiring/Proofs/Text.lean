import Mathlib.Data.List.Basic
import ServiceWiring.Text.Alphanumeric
import ServiceWiring.Text.Lines
import ServiceWiring.Text.Quoted

/-!
# Reading texts

* `bind_eq_ok`, `map_eq_ok` — what a reader that succeeds has read;
* `Text.takeWhile_run`, `Text.dropWhile_run` — a run of characters and what follows it;
* `Text.splitWhere_append_cons`, `Text.splitWhere_intercalate` — splitting a text that is put
  together from parts;
* `Text.after?_eq_some_iff` — what stands behind the start of a text;
* `Text.trim_subset`, `Text.subset_of_mem_splitOn` — taking a text apart gives no characters but
  its own;
* `Text.trimEnd_append`, `Text.trim_trim` — trimming a text that is put together, and twice;
* `Text.Unbroken`, `Text.linesOf_unlines` — texts on one line, and the lines of a text that is put
  together from them.
-/

namespace ServiceWiring

/-! ## Results of readers -/

theorem bind_eq_ok {ε α β : Type} {x : Except ε α} {f : α → Except ε β} {b : β}
    (h : x >>= f = .ok b) : ∃ a, x = .ok a ∧ f a = .ok b := by
  cases x with
  | error e => cases h
  | ok a => exact ⟨a, rfl, h⟩

theorem map_eq_ok {ε α β : Type} {x : Except ε α} {f : α → β} {b : β} (h : x.map f = .ok b) :
    ∃ a, x = .ok a ∧ f a = b := by
  cases x with
  | error e => cases h
  | ok a => exact ⟨a, rfl, Except.ok.inj h⟩

theorem exists_of_mem_mapM {ε α β : Type} {f : α → Except ε β} {l : List α} {r : List β}
    (h : l.mapM f = .ok r) : ∀ y ∈ r, ∃ x ∈ l, f x = .ok y := by
  induction l generalizing r with
  | nil =>
      rw [← Except.ok.inj h]
      exact fun y hy => nomatch hy
  | cons x l ih =>
      rw [List.mapM_cons] at h
      obtain ⟨first, hfirst, h⟩ := bind_eq_ok h
      obtain ⟨more, hmore, h⟩ := bind_eq_ok h
      rw [← Except.ok.inj h]
      intro y hy
      rcases List.mem_cons.mp hy with rfl | hy
      · exact ⟨x, List.mem_cons_self .., hfirst⟩
      · obtain ⟨x', hx', hy⟩ := ih hmore y hy
        exact ⟨x', List.mem_cons_of_mem _ hx', hy⟩

namespace Text

/-! ## Runs of characters -/

theorem bne_of_not_mem {c : Char} {cs : List Char} (h : c ∉ cs) : ∀ d ∈ cs, (d != c) = true := by
  intro d hd
  rw [bne_iff_ne]
  rintro rfl
  exact h hd

variable {run rest : List Char}

/-- A run of characters is read up to the first one that is none of it. -/
theorem takeWhile_run {p : Char → Bool} (hrun : ∀ c ∈ run, p c = true)
    (hrest : rest.head?.all (!p ·) = true) : (run ++ rest).takeWhile p = run := by
  rw [List.takeWhile_append_of_pos hrun]
  cases rest with
  | nil => exact List.append_nil run
  | cons c rest =>
      rw [List.takeWhile_cons_of_neg (by simpa using hrest)]
      exact List.append_nil run

/-- What follows a run of characters is left. -/
theorem dropWhile_run {p : Char → Bool} (hrun : ∀ c ∈ run, p c = true)
    (hrest : rest.head?.all (!p ·) = true) : (run ++ rest).dropWhile p = rest := by
  rw [List.dropWhile_append_of_pos hrun]
  cases rest with
  | nil => rfl
  | cons c rest => exact List.dropWhile_cons_of_neg (by simpa using hrest)

/-- What follows a run starts with something that is none of it. -/
theorem not_of_dropWhile {α : Type} {p : α → Bool} {l tail : List α} {a : α}
    (h : l.dropWhile p = a :: tail) : p a = false := by
  have hhead := List.head?_dropWhile_not p l
  rw [h] at hhead
  simpa using hhead

theorem eq_of_dropWhile_ne {cs tail : List Char} {c d : Char}
    (h : cs.dropWhile (· != d) = c :: tail) : c = d := by
  simpa using not_of_dropWhile h

/-! ## Splitting -/

theorem splitWhere_ne_nil (p : Char → Bool) (cs : List Char) : splitWhere p cs ≠ [] := by
  cases cs with
  | nil => exact List.cons_ne_nil _ _
  | cons c cs =>
      rw [splitWhere]
      by_cases hc : p c = true
      · rw [if_pos hc]
        exact List.cons_ne_nil _ _
      · rw [if_neg hc]
        cases hs : splitWhere p cs with
        | nil => exact List.cons_ne_nil _ _
        | cons part parts => exact List.cons_ne_nil _ _

theorem extendHead_append {parts : List (List Char)} (h : parts ≠ []) (c : Char)
    (more : List (List Char)) :
    extendHead c (parts ++ more) = extendHead c parts ++ more := by
  cases parts with
  | nil => exact absurd rfl h
  | cons part parts => rfl

/-- A separator splits a text into the parts in front of it and those behind it. -/
theorem splitWhere_append_cons {p : Char → Bool} {c : Char} (hc : p c = true)
    (front behind : List Char) :
    splitWhere p (front ++ c :: behind) = splitWhere p front ++ splitWhere p behind := by
  induction front with
  | nil =>
      show splitWhere p (c :: behind) = [[]] ++ splitWhere p behind
      rw [splitWhere, if_pos hc]
      rfl
  | cons d front ih =>
      show splitWhere p (d :: (front ++ c :: behind)) = splitWhere p (d :: front) ++ _
      rw [splitWhere, splitWhere, ih]
      by_cases hd : p d = true
      · rw [if_pos hd, if_pos hd]
        rfl
      · rw [if_neg hd, if_neg hd]
        exact extendHead_append (splitWhere_ne_nil p front) d _

theorem splitWhere_eq_singleton {p : Char → Bool} {cs : List Char}
    (h : ∀ c ∈ cs, p c = false) : splitWhere p cs = [cs] := by
  induction cs with
  | nil => rfl
  | cons c cs ih =>
      have hc : p c = false := h c (List.mem_cons_self ..)
      rw [splitWhere, ih fun d hd => h d (List.mem_cons_of_mem _ hd), hc]
      rfl

/-- No part holds a separator. -/
theorem not_mem_splitWhere {p : Char → Bool} {cs part : List Char}
    (h : part ∈ splitWhere p cs) : ∀ c ∈ part, p c = false := by
  induction cs generalizing part with
  | nil =>
      have hp : part = [] := List.mem_singleton.mp h
      subst hp
      intro c hc
      cases hc
  | cons d cs ih =>
      rw [splitWhere] at h
      by_cases hd : p d = true
      · rw [if_pos hd] at h
        rcases List.mem_cons.mp h with rfl | h
        · intro c hc
          cases hc
        · exact ih h
      · rw [if_neg hd] at h
        cases hs : splitWhere p cs with
        | nil => exact absurd hs (splitWhere_ne_nil p cs)
        | cons first parts =>
            rw [hs] at h ih
            rcases List.mem_cons.mp h with rfl | h
            · intro c hc
              rcases List.mem_cons.mp hc with rfl | hc
              · exact Bool.eq_false_iff.mpr hd
              · exact ih (List.mem_cons_self ..) c hc
            · exact ih (List.mem_cons_of_mem _ h)

/-- Joining parts and splitting the text again gives the parts back. -/
theorem splitWhere_intercalate {p : Char → Bool} {c : Char} (hc : p c = true)
    {parts : List (List Char)} (hne : parts ≠ []) (h : ∀ part ∈ parts, ∀ d ∈ part, p d = false) :
    splitWhere p ([c].intercalate parts) = parts := by
  induction parts with
  | nil => exact absurd rfl hne
  | cons part parts ih =>
      have hpart : splitWhere p part = [part] :=
        splitWhere_eq_singleton (h part (List.mem_cons_self ..))
      cases parts with
      | nil =>
          rw [List.intercalate_singleton]
          exact hpart
      | cons next rest =>
          rw [List.intercalate_cons_cons, List.append_assoc, List.singleton_append,
            splitWhere_append_cons hc, hpart,
            ih (List.cons_ne_nil _ _) fun q hq => h q (List.mem_cons_of_mem _ hq)]
          rfl

/-- The parts behind the first one each have the separator in front of them. -/
theorem intercalate_eq_append (sep first : List Char) (more : List (List Char)) :
    sep.intercalate (first :: more) = first ++ more.flatMap (sep ++ ·) := by
  induction more generalizing first with
  | nil => rw [List.intercalate_singleton, List.flatMap_nil, List.append_nil]
  | cons next more ih =>
      rw [List.intercalate_cons_cons, ih next, List.flatMap_cons, List.append_assoc,
        List.append_assoc]

/-! ## Starts -/

/-- What follows a start is the rest of the text. -/
theorem after?_eq_some_iff {start cs rest : List Char} :
    after? start cs = some rest ↔ cs = start ++ rest := by
  rw [after?, List.isPrefixOf?_eq_some_iff_append_eq]
  exact eq_comm

theorem startsWith_append (start rest : List Char) : startsWith start (start ++ rest) = true := by
  rw [startsWith, after?_eq_some_iff.mpr rfl]
  rfl

/-! ## Parts have the characters of the whole -/

theorem trimStartWhere_subset (p : Char → Bool) (cs : List Char) : trimStartWhere p cs ⊆ cs :=
  (List.dropWhile_sublist p).subset

theorem trimEndWhere_subset (p : Char → Bool) (cs : List Char) : trimEndWhere p cs ⊆ cs := by
  intro c hc
  have hdropped := (List.dropWhile_sublist p).subset (List.mem_reverse.mp hc)
  exact List.mem_reverse.mp hdropped

theorem trimStart_subset (cs : List Char) : trimStart cs ⊆ cs :=
  trimStartWhere_subset isBlank cs

theorem trim_subset (cs : List Char) : trim cs ⊆ cs :=
  List.Subset.trans (trimEndWhere_subset isBlank _) (trimStart_subset cs)

/-- A character in front of the first part is one of the whole text. -/
theorem subset_of_mem_extendHead {c : Char} {cs part : List Char} {parts : List (List Char)}
    (hparts : ∀ other ∈ parts, other ⊆ cs) (h : part ∈ extendHead c parts) : part ⊆ c :: cs := by
  cases parts with
  | nil =>
      rw [List.mem_singleton.mp h]
      exact List.cons_subset_cons c (List.nil_subset cs)
  | cons first rest =>
      rcases List.mem_cons.mp h with rfl | h
      · exact List.cons_subset_cons c (hparts first (List.mem_cons_self ..))
      · exact List.subset_cons_of_subset c (hparts part (List.mem_cons_of_mem _ h))

theorem subset_of_mem_splitWhere {p : Char → Bool} {cs part : List Char}
    (h : part ∈ splitWhere p cs) : part ⊆ cs := by
  induction cs generalizing part with
  | nil =>
      rw [List.mem_singleton.mp h]
      exact List.Subset.refl _
  | cons c cs ih =>
      rw [splitWhere] at h
      split at h
      · rcases List.mem_cons.mp h with rfl | h
        · exact List.nil_subset _
        · exact List.subset_cons_of_subset c (ih h)
      · exact subset_of_mem_extendHead (fun other hother => ih hother) h

theorem subset_of_mem_words {cs word : List Char} (h : word ∈ words cs) : word ⊆ cs :=
  subset_of_mem_splitWhere (List.mem_filter.mp h).1

theorem subset_of_mem_splitOnFrom {sep cs part : List Char} {skip : Nat}
    (h : part ∈ splitOnFrom sep skip cs) : part ⊆ cs := by
  induction cs generalizing part skip with
  | nil =>
      rw [splitOnFrom, List.mem_singleton] at h
      rw [h]
      exact List.Subset.refl _
  | cons c cs ih =>
      cases skip with
      | succ skip => exact List.subset_cons_of_subset c (ih h)
      | zero =>
          rw [splitOnFrom] at h
          split at h
          · rcases List.mem_cons.mp h with rfl | h
            · exact List.nil_subset _
            · exact List.subset_cons_of_subset c (ih h)
          · exact subset_of_mem_extendHead (fun other hother => ih hother) h

theorem subset_of_mem_splitOn {sep cs part : List Char} (h : part ∈ splitOn sep cs) :
    part ⊆ cs := by
  unfold splitOn at h
  split at h
  · rcases List.mem_append.mp h with h | h
    · rcases List.mem_cons.mp h with rfl | h
      · exact List.nil_subset _
      · obtain ⟨c, hc, rfl⟩ := List.mem_map.mp h
        exact List.cons_subset.mpr ⟨hc, List.nil_subset _⟩
    · rw [List.mem_singleton.mp h]
      exact List.nil_subset _
  · exact subset_of_mem_splitOnFrom h

theorem after?_subset {start cs rest : List Char} (h : after? start cs = some rest) :
    rest ⊆ cs := by
  rw [after?_eq_some_iff.mp h]
  exact List.subset_append_right start rest

theorem asciiName?_eq_append {cs name rest : List Char} (h : asciiName? cs = some (name, rest)) :
    cs = name ++ rest := by
  cases cs with
  | nil => cases h
  | cons c cs =>
      rw [asciiName?] at h
      split at h
      · obtain ⟨rfl, rfl⟩ := Prod.mk.inj (Option.some.inj h)
        rw [List.cons_append, List.takeWhile_append_dropWhile]
      · cases h

theorem asciiName?_subset {cs name rest : List Char} (h : asciiName? cs = some (name, rest)) :
    name ⊆ cs ∧ rest ⊆ cs := by
  rw [asciiName?_eq_append h]
  exact ⟨List.subset_append_left name rest, List.subset_append_right name rest⟩

/-! ## Trimming -/

/-- What is in front of the first visible character is cut off, whatever follows it. -/
theorem trimStart_append {cs : List Char} (h : trimStart cs ≠ []) (ds : List Char) :
    trimStart (cs ++ ds) = trimStart cs ++ ds := by
  unfold trimStart trimStartWhere at *
  rw [List.dropWhile_append, if_neg]
  rwa [List.isEmpty_iff]

/-- What is behind a text that ends visibly is trimmed alone. -/
theorem trimEnd_append {cs : List Char} (h : cs.getLast?.any (!isBlank ·) = true)
    (ds : List Char) : trimEnd (cs ++ ds) = cs ++ trimEnd ds := by
  obtain ⟨last, hlast, hvisible⟩ := (Option.any_eq_true _ _).mp h
  obtain ⟨front, rfl⟩ := List.getLast?_eq_some_iff.mp hlast
  have hkept : (front ++ [last]).reverse.dropWhile isBlank = (front ++ [last]).reverse := by
    rw [List.reverse_append, List.reverse_singleton, List.singleton_append, List.dropWhile_cons,
      if_neg (by simpa using hvisible)]
  unfold trimEnd trimEndWhere
  rw [List.reverse_append, List.dropWhile_append]
  split
  · rename_i hempty
    rw [List.isEmpty_iff.mp hempty, hkept, List.reverse_reverse, List.reverse_nil, List.append_nil]
  · rw [List.reverse_append, List.reverse_reverse]

theorem trimStart_eq_self {cs : List Char} (h : cs.head?.any (!isBlank ·) = true) :
    trimStart cs = cs := by
  cases cs with
  | nil => rfl
  | cons c cs => exact List.dropWhile_cons_of_neg (by simpa using h)

theorem trimEnd_eq_self {cs : List Char} (h : cs.getLast?.any (!isBlank ·) = true) :
    trimEnd cs = cs := by
  have happend := trimEnd_append h []
  rw [List.append_nil] at happend
  exact happend.trans (List.append_nil cs)

theorem trim_isPrefix (cs : List Char) : trim cs <+: trimStart cs := by
  have hdropped := List.dropWhile_suffix isBlank (l := (trimStart cs).reverse)
  have hkept := List.reverse_prefix.mpr hdropped
  rw [List.reverse_reverse] at hkept
  exact hkept

/-- What is left of a text starts and ends visibly. -/
theorem trim_ends {cs : List Char} (h : trim cs ≠ []) :
    (trim cs).head?.any (!isBlank ·) = true ∧ (trim cs).getLast?.any (!isBlank ·) = true := by
  constructor
  · obtain ⟨behind, hbehind⟩ := trim_isPrefix cs
    have hhead := List.head?_dropWhile_not isBlank cs
    rw [show cs.dropWhile isBlank = trimStart cs from rfl, ← hbehind] at hhead
    cases htrim : trim cs with
    | nil => exact absurd htrim h
    | cons c rest =>
        rw [htrim] at hhead
        simpa using hhead
  · have hlast := List.head?_dropWhile_not isBlank (trimStart cs).reverse
    rw [← List.getLast?_reverse,
      show ((trimStart cs).reverse.dropWhile isBlank).reverse = trim cs from rfl] at hlast
    cases htrim : (trim cs).getLast? with
    | none => exact absurd (List.getLast?_eq_none_iff.mp htrim) h
    | some c =>
        rw [htrim] at hlast
        simpa using hlast

theorem trim_trim (cs : List Char) : trim (trim cs) = trim cs := by
  by_cases h : trim cs = []
  · rw [h]
    rfl
  · obtain ⟨hhead, hlast⟩ := trim_ends h
    show trimEnd (trimStart (trim cs)) = trim cs
    rw [trimStart_eq_self hhead, trimEnd_eq_self hlast]

/-! ## Texts on one line -/

/-- A text on one line. -/
def Unbroken (cs : List Char) : Prop :=
  '\n' ∉ cs

instance (cs : List Char) : Decidable (Unbroken cs) :=
  inferInstanceAs (Decidable (¬ _))

namespace Unbroken

variable {cs ds : List Char}

theorem of_subset (h : Unbroken cs) (hsub : ds ⊆ cs) : Unbroken ds :=
  fun hmem => h (hsub hmem)

theorem nil : Unbroken [] :=
  List.not_mem_nil

theorem append (h : Unbroken cs) (h' : Unbroken ds) : Unbroken (cs ++ ds) := by
  intro hmem
  rcases List.mem_append.mp hmem with hmem | hmem
  · exact h hmem
  · exact h' hmem

theorem cons {c : Char} (hc : c ≠ '\n') (h : Unbroken cs) : Unbroken (c :: cs) := by
  intro hmem
  rcases List.mem_cons.mp hmem with heq | hmem
  · exact hc heq.symm
  · exact h hmem

theorem tail {c : Char} (h : Unbroken (c :: cs)) : Unbroken cs :=
  h.of_subset (List.subset_cons_self c cs)

theorem head_ne {c : Char} (h : Unbroken (c :: cs)) : c ≠ '\n' := by
  rintro rfl
  exact h (List.mem_cons_self ..)

theorem trim (h : Unbroken cs) : Unbroken (trim cs) :=
  h.of_subset (trim_subset cs)

theorem quoteChars (cs : List Char) : Unbroken (quoteChars cs) := by
  refine cons (by decide) (append ?_ (by decide))
  intro hmem
  obtain ⟨c, -, hc⟩ := List.mem_flatMap.mp hmem
  unfold escapeChar at hc
  split at hc
  · exact absurd hc (by decide)
  · split at hc
    · exact absurd hc (by decide)
    · split at hc
      · exact absurd hc (by decide)
      · split at hc
        · exact absurd hc (by decide)
        · rename_i hne _
          exact hne (List.mem_singleton.mp hc).symm

end Unbroken

@[simp]
theorem toString_string (s : String) : toString s = s :=
  rfl

@[simp]
theorem unbroken_append {a b : String} :
    Unbroken (a ++ b).toList ↔ Unbroken a.toList ∧ Unbroken b.toList := by
  unfold Unbroken
  rw [String.toList_append, List.mem_append, not_or]

@[simp]
theorem unbroken_quote (s : String) : Unbroken (quote s).toList := by
  rw [quote, String.toList_ofList]
  exact Unbroken.quoteChars s.toList

theorem not_mem_toString {c : Char} (hc : c.isDigit = false) (n : Nat) :
    c ∉ (toString n).toList := by
  intro h
  rw [show toString n = n.repr from rfl, Nat.repr_eq_ofList_toDigits, String.toList_ofList] at h
  have hdigit := Nat.isDigit_of_mem_toDigits (by decide) (by decide) h
  rw [hc] at hdigit
  cases hdigit

@[simp]
theorem unbroken_toString (n : Nat) : Unbroken (toString n).toList :=
  not_mem_toString rfl n

theorem unbroken_intercalate {sep : String} (hsep : Unbroken sep.toList) {parts : List String}
    (h : ∀ part ∈ parts, Unbroken part.toList) :
    Unbroken (String.intercalate sep parts).toList := by
  rw [String.toList_intercalate]
  induction parts with
  | nil => exact Unbroken.nil
  | cons part parts ih =>
      have hpart := h part (List.mem_cons_self ..)
      have hparts := ih fun other hother => h other (List.mem_cons_of_mem _ hother)
      cases parts with
      | nil => simpa using hpart
      | cons next rest =>
          rw [List.map_cons, List.map_cons, List.intercalate_cons_cons]
          exact (hpart.append hsep).append hparts

theorem map_toList_map_ofList (texts : List (List Char)) :
    (texts.map String.ofList).map String.toList = texts := by
  rw [List.map_map]
  exact (List.map_congr_left fun text _ => String.toList_ofList).trans (List.map_id texts)

theorem dropReturn_subset (line : List Char) : dropReturn line ⊆ line := by
  unfold dropReturn
  split
  · exact List.dropLast_subset line
  · exact List.Subset.refl line

/-- A blank at the end of a text is trimmed. -/
theorem trim_concat {c : Char} (hc : isBlank c = true) (cs : List Char) :
    trim (cs ++ [c]) = trim cs := by
  have hend : ∀ ds : List Char, trimEnd (ds ++ [c]) = trimEnd ds := by
    intro ds
    unfold trimEnd trimEndWhere
    rw [List.reverse_append, List.reverse_singleton, List.singleton_append,
      List.dropWhile_cons_of_pos hc]
  by_cases hblank : trimStart cs = []
  · have hboth : trimStart (cs ++ [c]) = [] := by
      have hempty : (cs.dropWhile isBlank).isEmpty = true := List.isEmpty_iff.mpr hblank
      show (cs ++ [c]).dropWhile isBlank = []
      rw [List.dropWhile_append, if_pos hempty, List.dropWhile_cons_of_pos hc]
      rfl
    show trimEnd (trimStart (cs ++ [c])) = trimEnd (trimStart cs)
    rw [hboth, hblank]
  · show trimEnd (trimStart (cs ++ [c])) = trimEnd (trimStart cs)
    rw [trimStart_append hblank, hend]

theorem trim_dropReturn (line : List Char) : trim (dropReturn line) = trim line := by
  unfold dropReturn
  split
  · rename_i hlast
    obtain ⟨front, rfl⟩ := List.getLast?_eq_some_iff.mp hlast
    rw [List.dropLast_concat, trim_concat (by decide)]
  · rfl

theorem unbroken_of_mem_lines {cs line : List Char} (h : line ∈ lines cs) : Unbroken line := by
  have hpart : ∀ part ∈ splitWhere (· == '\n') cs, Unbroken part := by
    intro part hpart hmem
    have := not_mem_splitWhere hpart _ hmem
    cases this
  rcases List.mem_append.mp h with h | h
  · obtain ⟨part, hmem, rfl⟩ := List.mem_map.mp h
    exact (hpart part (List.dropLast_subset _ hmem)).of_subset (dropReturn_subset part)
  · have hlast := Option.mem_toList.mp (List.mem_filter.mp h).1
    exact hpart line (List.mem_of_getLast? hlast)

theorem subset_of_mem_lines {cs line : List Char} (h : line ∈ lines cs) : line ⊆ cs := by
  rcases List.mem_append.mp h with h | h
  · obtain ⟨part, hpart, rfl⟩ := List.mem_map.mp h
    exact List.Subset.trans (dropReturn_subset part)
      (subset_of_mem_splitWhere (List.dropLast_subset _ hpart))
  · have hlast := Option.mem_toList.mp (List.mem_filter.mp h).1
    exact subset_of_mem_splitWhere (List.mem_of_getLast? hlast)

theorem unlines_append (front behind : List String) :
    unlines (front ++ behind) = unlines front ++ unlines behind := by
  induction front with
  | nil =>
      show unlines behind = "" ++ unlines behind
      rw [String.empty_append]
  | cons l front ih =>
      show l ++ "\n" ++ unlines (front ++ behind) = l ++ "\n" ++ unlines front ++ unlines behind
      rw [ih]
      simp only [String.append_assoc]

/-- A line feed ends the lines in front of it. -/
theorem lines_append_cons (front behind : List Char) :
    lines (front ++ '\n' :: behind)
      = (splitWhere (· == '\n') front).map dropReturn ++ lines behind := by
  have hne : splitWhere (· == '\n') behind ≠ [] := splitWhere_ne_nil _ behind
  unfold lines
  rw [splitWhere_append_cons rfl]
  dsimp only
  rw [List.dropLast_append_of_ne_nil hne, List.getLast?_append_of_ne_nil _ hne, List.map_append,
    List.append_assoc]

theorem toList_unlines_cons (l : String) (ls : List String) :
    (unlines (l :: ls)).toList = l.toList ++ '\n' :: (unlines ls).toList := by
  show (l ++ "\n" ++ unlines ls).toList = _
  rw [String.toList_append, String.toList_append, List.append_assoc]
  rfl

/-- The characters of a text that is put together from lines are those of the lines and the line
    feeds. -/
theorem mem_unlines_iff {c : Char} (hc : c ≠ '\n') {ls : List String} :
    c ∈ (unlines ls).toList ↔ ∃ l ∈ ls, c ∈ l.toList := by
  induction ls with
  | nil =>
      constructor
      · intro h
        cases h
      · rintro ⟨l, hl, -⟩
        cases hl
  | cons l ls ih =>
      rw [toList_unlines_cons, List.mem_append, List.mem_cons, ih, List.exists_mem_cons_iff,
        or_iff_right hc]

/-- What stands behind a text that is put together from lines does not change its lines. -/
theorem linesOf_unlines_append (ls : List String) (behind : String) :
    linesOf (unlines ls ++ behind) = linesOf (unlines ls) ++ linesOf behind := by
  unfold linesOf
  rw [← List.map_append, String.toList_append]
  refine congrArg _ ?_
  induction ls with
  | nil => rfl
  | cons l ls ih =>
      rw [toList_unlines_cons, List.append_assoc, List.cons_append, lines_append_cons,
        lines_append_cons, ih, List.append_assoc]

/-- The lines of a text that is put together from lines are these, but for a carriage return at
    their end. -/
theorem linesOf_unlines {ls : List String} (h : ∀ l ∈ ls, Unbroken l.toList) :
    linesOf (unlines ls) = ls.map fun l => String.ofList (dropReturn l.toList) := by
  unfold linesOf
  induction ls with
  | nil => rfl
  | cons l ls ih =>
      have hl : splitWhere (· == '\n') l.toList = [l.toList] := by
        refine splitWhere_eq_singleton fun c hc => beq_eq_false_iff_ne.mpr ?_
        rintro rfl
        exact h l (List.mem_cons_self ..) hc
      rw [toList_unlines_cons, lines_append_cons, hl, List.map_append,
        ih fun m hm => h m (List.mem_cons_of_mem _ hm)]
      rfl

end Text

end ServiceWiring
