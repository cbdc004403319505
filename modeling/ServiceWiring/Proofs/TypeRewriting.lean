import Mathlib.Data.List.TakeWhile
import ServiceWiring.Proofs.PlanText

/-!
# Types under other names

A type's text with its qualifiers renamed has the same segments, up to the names: no new qualified
name comes up, and none is lost.

* `Text.IsAsciiName` — the ASCII identifiers;
* `TypeText.SplitsInto`, `TypeText.segments_eq_iff` — what a text is taken apart into;
* `TypeText.segmentsFrom_rewrite` — the segments of a text with renamed qualifiers;
* `TypeText.Refers`, `TypeText.refers_rewrite` — what a renamed qualifier refers to;
* `TypeExpr.Resolved` — what the qualifiers of a resolved type are;
* `TypeExpr.renderWith_eq_rewrite` — a resolved type under other names is a renamed text;
* `TypeExpr.Names` — the packages that a type names, and what it refers to under their new names.
-/

namespace ServiceWiring

open Text

/-! ## ASCII identifiers -/

namespace Text

/-- Whether a text is an ASCII identifier: a letter or an underscore, and letters, digits and
    underscores behind it. -/
def IsAsciiName : List Char → Prop
  | [] => False
  | c :: cs => isAsciiNameStart c = true ∧ ∀ d ∈ cs, isAsciiNameChar d = true

theorem isAsciiName_cons_iff {c : Char} {cs : List Char} :
    IsAsciiName (c :: cs) ↔ isAsciiNameStart c = true ∧ ∀ d ∈ cs, isAsciiNameChar d = true :=
  Iff.rfl

/-- An ASCII identifier is read to its end. -/
theorem isAsciiName_iff {name : List Char} :
    IsAsciiName name ↔ asciiName? name = some (name, []) := by
  cases name with
  | nil => exact ⟨False.elim, nofun⟩
  | cons c cs =>
      rw [isAsciiName_cons_iff, asciiName?]
      constructor
      · rintro ⟨hstart, hchars⟩
        rw [if_pos hstart, List.takeWhile_eq_self_iff.mpr hchars,
          List.dropWhile_eq_nil_iff.mpr hchars]
      · intro h
        split at h
        · rename_i hstart
          obtain ⟨htake, -⟩ := Prod.mk.inj (Option.some.inj h)
          refine ⟨hstart, fun d hd => ?_⟩
          rw [← (List.cons.inj htake).2] at hd
          exact List.mem_takeWhile_imp hd
        · cases h

instance (name : List Char) : Decidable (IsAsciiName name) :=
  decidable_of_iff _ isAsciiName_iff.symm

theorem IsAsciiName.ne_nil {name : List Char} (h : IsAsciiName name) : name ≠ [] := by
  rintro rfl
  cases h

theorem isAsciiNameChar_of_start {c : Char} (h : isAsciiNameStart c = true) :
    isAsciiNameChar c = true := by
  rw [isAsciiNameStart, Bool.or_eq_true] at h
  rw [isAsciiNameChar, Bool.or_eq_true, Char.isAlphanum, Bool.or_eq_true]
  exact h.imp_left .inl

theorem IsAsciiName.isAsciiNameChar {name : List Char} (h : IsAsciiName name) :
    ∀ c ∈ name, isAsciiNameChar c = true := by
  cases name with
  | nil => exact absurd rfl h.ne_nil
  | cons c cs =>
      obtain ⟨hstart, hchars⟩ := isAsciiName_cons_iff.mp h
      intro d hd
      rcases List.mem_cons.mp hd with rfl | hd
      · exact isAsciiNameChar_of_start hstart
      · exact hchars d hd

/-- An ASCII identifier with more characters of identifiers behind it. -/
theorem IsAsciiName.append {name more : List Char} (h : IsAsciiName name)
    (hmore : ∀ c ∈ more, Text.isAsciiNameChar c = true) : IsAsciiName (name ++ more) := by
  cases name with
  | nil => exact absurd rfl h.ne_nil
  | cons c cs =>
      obtain ⟨hstart, hchars⟩ := isAsciiName_cons_iff.mp h
      refine isAsciiName_cons_iff.mpr ⟨hstart, fun d hd => ?_⟩
      exact (List.mem_append.mp hd).elim (hchars d) (hmore d)

/-- An ASCII identifier is read up to the first character that is none of an identifier. -/
theorem asciiName?_append {name rest : List Char} (h : IsAsciiName name)
    (hrest : rest.head?.all (!Text.isAsciiNameChar ·) = true) :
    asciiName? (name ++ rest) = some (name, rest) := by
  cases name with
  | nil => exact absurd rfl h.ne_nil
  | cons c cs =>
      obtain ⟨hstart, hchars⟩ := isAsciiName_cons_iff.mp h
      rw [List.cons_append, asciiName?, if_pos hstart, Text.takeWhile_run hchars hrest,
        Text.dropWhile_run hchars hrest]

theorem isAsciiName_of_asciiName? {cs name rest : List Char}
    (h : asciiName? cs = some (name, rest)) :
    IsAsciiName name ∧ rest.head?.all (!Text.isAsciiNameChar ·) = true := by
  cases cs with
  | nil => cases h
  | cons c cs =>
      rw [asciiName?] at h
      split at h
      · rename_i hstart
        obtain ⟨rfl, rfl⟩ := Prod.mk.inj (Option.some.inj h)
        refine ⟨isAsciiName_cons_iff.mpr ⟨hstart, fun d hd => List.mem_takeWhile_imp hd⟩, ?_⟩
        cases hrest : cs.dropWhile Text.isAsciiNameChar with
        | nil => rfl
        | cons d rest =>
            show (!Text.isAsciiNameChar d) = true
            rw [not_of_dropWhile hrest]
            rfl
      · cases h

/-- The code points of the characters of ASCII identifiers. -/
theorem toNat_of_isAsciiNameChar {c : Char} (h : isAsciiNameChar c = true) :
    (48 ≤ c.toNat ∧ c.toNat ≤ 57) ∨ (65 ≤ c.toNat ∧ c.toNat ≤ 90) ∨ c.toNat = 95
      ∨ (97 ≤ c.toNat ∧ c.toNat ≤ 122) := by
  have hrange : ∀ {low high : UInt32}, low ≤ c.val → c.val ≤ high →
      low.toNat ≤ c.toNat ∧ c.toNat ≤ high.toNat :=
    fun hlow hhigh => ⟨UInt32.le_iff_toNat_le.mp hlow, UInt32.le_iff_toNat_le.mp hhigh⟩
  have hcases : ((c.isUpper || c.isLower) || c.isDigit || c == '_') = true := h
  simp only [Bool.or_eq_true] at hcases
  rcases hcases with ((hupper | hlower) | hdigit) | hunder
  · obtain ⟨hlow, hhigh⟩ := of_decide_eq_true hupper
    exact .inr (.inl (hrange hlow hhigh))
  · obtain ⟨hlow, hhigh⟩ := Bool.and_eq_true_iff.mp hlower
    exact .inr (.inr (.inr (hrange (of_decide_eq_true hlow) (of_decide_eq_true hhigh))))
  · obtain ⟨hlow, hhigh⟩ := Bool.and_eq_true_iff.mp hdigit
    exact .inl (hrange (of_decide_eq_true hlow) (of_decide_eq_true hhigh))
  · rw [beq_iff_eq.mp hunder]
    exact .inr (.inr (.inl rfl))

/-- The characters of ASCII identifiers continue a word. -/
theorem isWordChar_of_isAsciiNameChar {c : Char} (h : isAsciiNameChar c = true) :
    isWordChar c = true := by
  have hascii : c.toNat < 128 := by
    have := toNat_of_isAsciiNameChar h
    omega
  rw [isWordChar, if_pos hascii]
  exact h

/-- No blank stands in an ASCII identifier. -/
theorem isBlank_of_isAsciiNameChar {c : Char} (h : isAsciiNameChar c = true) :
    isBlank c = false := by
  have hpoint := toNat_of_isAsciiNameChar h
  rw [Bool.eq_false_iff]
  intro hblank
  simp only [isBlank, Bool.or_eq_true, Bool.and_eq_true, decide_eq_true_eq, beq_iff_eq] at hblank
  omega

end Text

/-! ## Segments of a renamed text -/

namespace TypeText

theorem qualified?_eq_some_iff {cs qualifier member rest : List Char} :
    qualified? cs = some ((qualifier, member), rest) ↔
      ∃ behind, asciiName? cs = some (qualifier, '.' :: behind)
        ∧ asciiName? behind = some (member, rest) := by
  constructor
  · intro h
    unfold qualified? at h
    split at h
    · rename_i found behind hfound
      split at h
      · rename_i name rest' hname
        obtain ⟨hpair, rfl⟩ := Prod.mk.inj (Option.some.inj h)
        obtain ⟨rfl, rfl⟩ := Prod.mk.inj hpair
        exact ⟨behind, hfound, hname⟩
      · cases h
    · cases h
  · rintro ⟨behind, hqualifier, hmember⟩
    simp only [qualified?, hqualifier, hmember]

theorem segmentsFrom_char {inWord : Bool} {c : Char} {rest : List Char}
    (h : inWord = true ∨ qualified? (c :: rest) = none) :
    segmentsFrom inWord (c :: rest) = .char c :: segmentsFrom (isWordChar c) rest := by
  have hnone : (if inWord then none else qualified? (c :: rest)) = none := by
    rcases h with rfl | h
    · rfl
    · rw [h, ite_self]
  rw [segmentsFrom]
  split
  · rename_i hsome
    rw [hnone] at hsome
    cases hsome
  · rfl

theorem segmentsFrom_qualified {cs qualifier member after : List Char}
    (h : qualified? cs = some ((qualifier, member), after)) :
    segmentsFrom false cs = .qualified qualifier member :: segmentsFrom true after := by
  cases cs with
  | nil => cases h
  | cons c rest =>
      rw [segmentsFrom]
      split
      · rename_i hsome
        rw [if_neg Bool.false_ne_true, h] at hsome
        obtain ⟨hpair, rfl⟩ := Prod.mk.inj (Option.some.inj hsome)
        obtain ⟨rfl, rfl⟩ := Prod.mk.inj hpair
        rfl
      · rename_i hnone
        rw [if_neg Bool.false_ne_true, h] at hnone
        cases hnone

/-- What is looked for outside of words only, and found. -/
theorem outside_word_of_some {inWord : Bool} {found : Option ((List Char × List Char) × List Char)}
    {name : (List Char × List Char) × List Char}
    (h : (if _h : inWord = true then none else found) = some name) :
    inWord = false ∧ found = some name := by
  cases inWord with
  | true => cases h
  | false => exact ⟨rfl, h⟩

/-- What is looked for outside of words only, and not found. -/
theorem inWord_or_none {inWord : Bool} {found : Option ((List Char × List Char) × List Char)}
    (h : (if _h : inWord = true then none else found) = none) :
    inWord = true ∨ found = none := by
  cases inWord with
  | true => exact .inl rfl
  | false => exact .inr h

/-! ### What a text is taken apart into -/

/-- Whether a text begins with a qualified name: an identifier, a dot and the longest identifier
    behind it. -/
structure BeginsQualified (cs qualifier member behind : List Char) : Prop where
  text : cs = qualifier ++ '.' :: member ++ behind
  qualifier : IsAsciiName qualifier
  member : IsAsciiName member
  longest : behind.head?.all (!isAsciiNameChar ·) = true

theorem beginsQualified_iff {cs qualifier member behind : List Char} :
    BeginsQualified cs qualifier member behind ↔
      qualified? cs = some ((qualifier, member), behind) := by
  rw [qualified?_eq_some_iff]
  constructor
  · rintro ⟨rfl, hqualifier, hmember, hbehind⟩
    refine ⟨member ++ behind, ?_, asciiName?_append hmember hbehind⟩
    rw [List.append_assoc, List.cons_append]
    exact asciiName?_append hqualifier rfl
  · rintro ⟨rest, hread, hmember⟩
    obtain ⟨hqualifier, -⟩ := isAsciiName_of_asciiName? hread
    obtain ⟨hmember', hbehind⟩ := isAsciiName_of_asciiName? hmember
    refine ⟨?_, hqualifier, hmember', hbehind⟩
    rw [asciiName?_eq_append hread, asciiName?_eq_append hmember, List.append_assoc,
      List.cons_append]

/-- Whether a text ends within a word. -/
def endsInWord (front : List Char) : Bool :=
  front.getLast?.any isWordChar

@[simp] theorem endsInWord_concat (front : List Char) (c : Char) :
    endsInWord (front ++ [c]) = isWordChar c := by
  simp [endsInWord]

theorem endsInWord_append_name {name : List Char} (hname : IsAsciiName name)
    (front : List Char) : endsInWord (front ++ name) = true := by
  have hlast := hname.isAsciiNameChar _ (List.getLast_mem hname.ne_nil)
  rw [endsInWord, List.getLast?_append_of_ne_nil _ hname.ne_nil,
    List.getLast?_eq_some_getLast hname.ne_nil]
  exact isWordChar_of_isAsciiNameChar hlast

/-- Whether the text behind `front` is made up of segments, taken from the left: a qualified name
    wherever one begins and no word goes on, and a character wherever none does. -/
inductive SplitsInto : List Char → List Char → List Segment → Prop
  | nil (front : List Char) : SplitsInto front [] []
  | qualified {front cs qualifier member behind : List Char} {rest : List Segment}
      (boundary : endsInWord front = false)
      (name : BeginsQualified cs qualifier member behind)
      (tail : SplitsInto (front ++ qualifier ++ ['.'] ++ member) behind rest) :
      SplitsInto front cs (.qualified qualifier member :: rest)
  | char {front cs : List Char} {c : Char} {rest : List Segment}
      (plain : endsInWord front = false →
        ∀ qualifier member behind, ¬ BeginsQualified (c :: cs) qualifier member behind)
      (tail : SplitsInto (front ++ [c]) cs rest) :
      SplitsInto front (c :: cs) (.char c :: rest)

theorem qualified?_eq_none_iff {cs : List Char} :
    qualified? cs = none ↔
      ∀ qualifier member behind, ¬ BeginsQualified cs qualifier member behind := by
  constructor
  · intro h qualifier member behind hbegins
    rw [beginsQualified_iff, h] at hbegins
    cases hbegins
  · intro h
    rw [Option.eq_none_iff_forall_ne_some]
    rintro ⟨⟨qualifier, member⟩, behind⟩ hread
    exact h qualifier member behind (beginsQualified_iff.mpr hread)

/-- A text is taken apart into what the scanner finds, and into nothing else. -/
theorem splitsInto_iff {front cs : List Char} {found : List Segment} :
    SplitsInto front cs found ↔ segmentsFrom (endsInWord front) cs = found := by
  constructor
  · intro h
    induction h with
    | nil front => exact segmentsFrom.eq_1 (endsInWord front)
    | qualified boundary name tail ih =>
        rw [endsInWord_append_name name.member] at ih
        rw [boundary, segmentsFrom_qualified (beginsQualified_iff.mp name), ih]
    | @char front cs c rest plain tail ih =>
        have hplain : endsInWord front = true ∨ qualified? (c :: cs) = none := by
          cases hin : endsInWord front with
          | true => exact .inl rfl
          | false => exact .inr (qualified?_eq_none_iff.mpr (plain hin))
        rw [endsInWord_concat] at ih
        rw [segmentsFrom_char hplain, ih]
  · rintro rfl
    generalize hin : endsInWord front = inWord
    fun_induction segmentsFrom inWord cs generalizing front with
    | case1 inWord => exact .nil front
    | case2 inWord c rest qualifier member behind h _ ih =>
        obtain ⟨hout, hread⟩ := outside_word_of_some h
        have hname := beginsQualified_iff.mpr hread
        exact .qualified (hin.trans hout) hname (ih (endsInWord_append_name hname.member _))
    | case3 inWord c rest h ih =>
        refine .char (fun hout => ?_) (ih (endsInWord_concat front c))
        obtain hin' | hread := inWord_or_none h
        · rw [← hin, hout] at hin'
          cases hin'
        · exact qualified?_eq_none_iff.mp hread

/-- The segments of a text are the one way to take it apart. -/
theorem segments_eq_iff {cs : List Char} {found : List Segment} :
    segments cs = found ↔ SplitsInto [] cs found :=
  (@splitsInto_iff [] cs found).symm

/-- A segment with its qualifier renamed. -/
def Segment.rename (f : List Char → List Char) : Segment → Segment
  | .char c => .char c
  | .qualified qualifier member => .qualified (f qualifier) member

/-- A text with its qualifiers renamed. -/
def rewrite (f : List Char → List Char) (inWord : Bool) (cs : List Char) : List Char :=
  ((segmentsFrom inWord cs).map (Segment.rename f)).flatMap Segment.text

variable {f : List Char → List Char}

theorem rewrite_char {inWord : Bool} {c : Char} {rest : List Char}
    (h : inWord = true ∨ qualified? (c :: rest) = none) :
    rewrite f inWord (c :: rest) = c :: rewrite f (isWordChar c) rest := by
  rw [rewrite, segmentsFrom_char h]
  rfl

theorem rewrite_qualified {cs qualifier member after : List Char}
    (h : qualified? cs = some ((qualifier, member), after)) :
    rewrite f false cs = f qualifier ++ '.' :: member ++ rewrite f true after := by
  rw [rewrite, segmentsFrom_qualified h]
  rfl

/-- Within a word a text keeps its first character. -/
theorem head?_rewrite_true (cs : List Char) : (rewrite f true cs).head? = cs.head? := by
  cases cs with
  | nil =>
      rw [rewrite, segmentsFrom]
      rfl
  | cons c rest =>
      rw [rewrite_char (.inl rfl)]
      rfl

/-- The end of a name within a word stays as it is. -/
theorem rewrite_nameChars {name : List Char} (hname : ∀ c ∈ name, isAsciiNameChar c = true)
    (rest : List Char) : rewrite f true (name ++ rest) = name ++ rewrite f true rest := by
  induction name with
  | nil => rfl
  | cons c name ih =>
      have hword := isWordChar_of_isAsciiNameChar (hname c (List.mem_cons_self ..))
      rw [List.cons_append, rewrite_char (.inl rfl), hword,
        ih fun d hd => hname d (List.mem_cons_of_mem _ hd)]
      rfl

/-- A text that starts with no name does not start with one when it is rewritten. -/
theorem asciiName?_rewrite {cs : List Char} (h : asciiName? cs = none) (inWord : Bool) :
    asciiName? (rewrite f inWord cs) = none := by
  cases cs with
  | nil =>
      rw [rewrite, segmentsFrom]
      rfl
  | cons c rest =>
      have hqualified : qualified? (c :: rest) = none := by rw [qualified?, h]
      rw [rewrite_char (.inr hqualified)]
      rw [asciiName?] at h ⊢
      by_cases hstart : isAsciiNameStart c = true
      · rw [if_pos hstart] at h
        cases h
      · rw [if_neg hstart]

/-- Where no qualified name starts, none starts in the rewritten text. -/
theorem qualified?_rewrite_char {c : Char} {rest : List Char}
    (h : qualified? (c :: rest) = none) :
    qualified? (c :: rewrite f (isWordChar c) rest) = none := by
  cases hname : asciiName? (c :: rest) with
  | none =>
      have hrewritten := asciiName?_rewrite (f := f) hname false
      rw [rewrite_char (.inr h)] at hrewritten
      rw [qualified?, hrewritten]
  | some found =>
      obtain ⟨name, behind⟩ := found
      obtain ⟨hname', hbehind⟩ := isAsciiName_of_asciiName? hname
      have hsplit := asciiName?_eq_append hname
      obtain ⟨cs, rfl⟩ : ∃ cs, name = c :: cs := by
        cases name with
        | nil => exact absurd rfl hname'.ne_nil
        | cons d cs => exact ⟨cs, by rw [(List.cons.inj hsplit).1]⟩
      obtain rfl : rest = cs ++ behind := (List.cons.inj hsplit).2
      have hchars := hname'.isAsciiNameChar
      -- the name is in one word, and what stands behind it is still looked at within that word
      rw [isWordChar_of_isAsciiNameChar (hchars c (List.mem_cons_self ..)),
        rewrite_nameChars fun d hd => hchars d (List.mem_cons_of_mem _ hd)]
      have hread : asciiName? (c :: (cs ++ rewrite f true behind))
          = some (c :: cs, rewrite f true behind) := by
        refine asciiName?_append hname' ?_
        rw [head?_rewrite_true]
        exact hbehind
      rw [qualified?, hread]
      cases behind with
      | nil =>
          rw [rewrite, segmentsFrom]
          rfl
      | cons d behind =>
          rw [rewrite_char (.inl rfl)]
          by_cases hd : d = '.'
          · subst hd
            have hmember : asciiName? behind = none := by
              cases hmember : asciiName? behind with
              | none => rfl
              | some found =>
                  rw [qualified?_eq_some_iff.mpr ⟨behind, hname, hmember⟩] at h
                  cases h
            simp only [asciiName?_rewrite hmember]
          · split
            · rename_i hdot
              exact absurd (List.cons.inj (Prod.mk.inj (Option.some.inj hdot)).2).1 hd
            · rfl

/-- Renaming qualifiers to ASCII identifiers renames the segments. -/
theorem segmentsFrom_rewrite {inWord : Bool} {cs : List Char}
    (hf : ∀ qualifier member, .qualified qualifier member ∈ segmentsFrom inWord cs →
      IsAsciiName (f qualifier)) :
    segmentsFrom inWord (rewrite f inWord cs) = (segmentsFrom inWord cs).map (Segment.rename f) := by
  fun_induction segmentsFrom inWord cs with
  | case1 inWord =>
      rw [rewrite, segmentsFrom]
      exact segmentsFrom.eq_1 inWord
  | case2 inWord c rest qualifier member after h _ ih =>
      obtain ⟨rfl, hread⟩ := outside_word_of_some h
      have hname := beginsQualified_iff.mpr hread
      have hrenamed : BeginsQualified (rewrite f false (c :: rest)) (f qualifier) member
          (rewrite f true after) := by
        refine ⟨rewrite_qualified hread, hf qualifier member (List.mem_cons_self ..), hname.member,
          ?_⟩
        rw [head?_rewrite_true]
        exact hname.longest
      rw [segmentsFrom_qualified (beginsQualified_iff.mp hrenamed),
        ih fun q m hmem => hf q m (List.mem_cons_of_mem _ hmem)]
      rfl
  | case3 inWord c rest h ih =>
      have hchar := inWord_or_none h
      rw [rewrite_char hchar,
        segmentsFrom_char (hchar.imp_right qualified?_rewrite_char),
        ih fun q m hmem => hf q m (List.mem_cons_of_mem _ hmem)]
      rfl

/-! ### Qualified names in a renamed text -/

end TypeText

/-! ## Resolved types -/

namespace TypeExpr

open TypeText

/-- The qualifiers in a text, one for each qualified name. -/
def qualifierNames (text : String) : List String :=
  (segments text.toList).filterMap fun
    | .qualified qualifier _ => some (String.ofList qualifier)
    | .char _ => none

theorem mem_qualifierNames_iff {text name : String} :
    name ∈ qualifierNames text ↔
      ∃ member, Segment.qualified name.toList member ∈ segments text.toList := by
  rw [qualifierNames, List.mem_filterMap]
  constructor
  · rintro ⟨segment, hsegment, hname⟩
    cases segment with
    | char c => cases hname
    | qualified qualifier member =>
        rw [← Option.some.inj hname, String.toList_ofList]
        exact ⟨member, hsegment⟩
  · rintro ⟨member, hsegment⟩
    exact ⟨_, hsegment, congrArg some String.ofList_toList⟩

/-- What is found for names that are looked up one after the other: every import under its name,
    once. -/
structure Resolved (index : DeclarationIndex) (names : List String)
    (found : List (String × ImportEntry)) : Prop where
  sound : ∀ pair ∈ found, pair.1 ∈ names ∧ index.importNamed? pair.1 = some pair.2
  complete : ∀ name ∈ names, ∀ entry, index.importNamed? name = some entry → (name, entry) ∈ found
  distinct : (found.map (·.1)).Nodup

variable {index : DeclarationIndex} {names : List String} {found : List (String × ImportEntry)}

theorem Resolved.addQualifier (h : Resolved index names found) (name : String) :
    Resolved index (names ++ [name]) (addQualifier index found name) := by
  have hsound : ∀ pair ∈ found, pair.1 ∈ names ++ [name] ∧ index.importNamed? pair.1 = some pair.2 :=
    fun pair hpair => (h.sound pair hpair).imp_left (List.mem_append_left _)
  rw [TypeExpr.addQualifier]
  by_cases hany : (found.any fun pair => pair.1 == name) = true
  · -- the name has been looked up already
    rw [if_pos hany]
    refine ⟨hsound, ?_, h.distinct⟩
    intro other hother entry hentry
    rcases List.mem_append.mp hother with hother | hother
    · exact h.complete other hother entry hentry
    · obtain ⟨pair, hpair, hname⟩ := List.any_eq_true.mp hany
      rw [beq_iff_eq] at hname
      obtain rfl : other = pair.1 := (List.mem_singleton.mp hother).trans hname.symm
      obtain rfl : pair.2 = entry := Option.some.inj ((h.sound pair hpair).2.symm.trans hentry)
      exact hpair
  · rw [if_neg hany]
    have hnew : name ∉ found.map (·.1) := by
      intro hmem
      obtain ⟨pair, hpair, hname⟩ := List.mem_map.mp hmem
      exact hany (List.any_eq_true.mpr ⟨pair, hpair, beq_iff_eq.mpr hname⟩)
    cases hfound : index.importNamed? name with
    | none =>
        refine ⟨hsound, ?_, h.distinct⟩
        intro other hother entry hentry
        rcases List.mem_append.mp hother with hother | hother
        · exact h.complete other hother entry hentry
        · rw [List.mem_singleton.mp hother, hfound] at hentry
          cases hentry
    | some entry =>
        refine ⟨?_, ?_, ?_⟩
        · intro pair hpair
          rcases List.mem_append.mp hpair with hpair | hpair
          · exact hsound pair hpair
          · rw [List.mem_singleton.mp hpair]
            exact ⟨List.mem_concat_self .., hfound⟩
        · intro other hother entry' hentry
          rcases List.mem_append.mp hother with hother | hother
          · exact List.mem_append_left _ (h.complete other hother entry' hentry)
          · obtain rfl := List.mem_singleton.mp hother
            rw [Option.some.inj (hfound.symm.trans hentry)]
            exact List.mem_concat_self ..
        · rw [List.map_append]
          refine List.nodup_append.mpr ⟨h.distinct, List.pairwise_singleton _ _, ?_⟩
          rintro other hother _ hlast rfl
          rw [List.mem_singleton.mp hlast] at hother
          exact hnew hother

theorem Resolved.foldl (h : Resolved index names found) (more : List String) :
    Resolved index (names ++ more) (more.foldl (TypeExpr.addQualifier index) found) := by
  induction more generalizing names found with
  | nil =>
      rw [List.append_nil]
      exact h
  | cons name more ih =>
      have hmore := ih (h.addQualifier name)
      rw [List.append_assoc] at hmore
      exact hmore

theorem resolved_resolve (text : String) (index : DeclarationIndex) :
    Resolved index (qualifierNames text) (resolve text index).qualifiers := by
  have hempty : Resolved index [] [] := ⟨by simp, by simp, List.nodup_nil⟩
  exact hempty.foldl (qualifierNames text)

/-- What a qualifier of a type is looked up to is what the file has under that name. -/
theorem Resolved.find?_eq (h : Resolved index names found) {name : String} (hname : name ∈ names) :
    found.find? (fun pair => pair.1 == name) = (index.importNamed? name).map (name, ·) := by
  cases hfind : found.find? (fun pair => pair.1 == name) with
  | some pair =>
      have hpair : pair.1 = name := by simpa using List.find?_some hfind
      have hentry := (h.sound pair (List.mem_of_find?_eq_some hfind)).2
      rw [hpair] at hentry
      rw [hentry, Option.map_some, ← hpair]
  | none =>
      cases hentry : index.importNamed? name with
      | none => rfl
      | some entry =>
          have hnot := List.find?_eq_none.mp hfind _ (h.complete name hname entry hentry)
          exact absurd (beq_self_eq_true name) hnot

/-- The name that a qualifier gets. -/
def newQualifier (nameOf : String → Option String) (index : DeclarationIndex)
    (qualifier : List Char) : List Char :=
  match index.importNamed? (String.ofList qualifier) with
  | some entry => ((nameOf entry.path).map String.toList).getD qualifier
  | none => qualifier

/-- A resolved type under other names is its text with the qualifiers renamed. -/
theorem renderWith_eq_rewrite (nameOf : String → Option String) (text : String)
    (index : DeclarationIndex) :
    ((resolve text index).renderWith nameOf).toList
      = rewrite (newQualifier nameOf index) false text.toList := by
  have hresolved := resolved_resolve text index
  rw [renderWith, String.toList_ofList, rewrite, List.flatMap_map]
  refine List.flatMap_congr fun segment hsegment => ?_
  cases segment with
  | char c => rfl
  | qualified qualifier member =>
      have hname : String.ofList qualifier ∈ qualifierNames text := by
        refine mem_qualifierNames_iff.mpr ⟨member, ?_⟩
        rw [String.toList_ofList]
        exact hsegment
      refine congrArg (· ++ '.' :: member) ?_
      simp only [hresolved.find?_eq hname, newQualifier]
      cases index.importNamed? (String.ofList qualifier) with
      | none => exact String.toList_ofList
      | some entry =>
          show ((nameOf entry.path).getD (String.ofList qualifier)).toList
            = ((nameOf entry.path).map String.toList).getD qualifier
          cases nameOf entry.path with
          | none => exact String.toList_ofList
          | some name => rfl

/-! ### The packages that a type names -/

/-- Whether a qualified name in a type stands for the package of a path. -/
def Names (type : TypeExpr) (path : String) : Prop :=
  ∃ qualifier member entry, .qualified qualifier member ∈ segments type.text.toList
    ∧ (String.ofList qualifier, entry) ∈ type.qualifiers ∧ entry.path = path

/-- Only the names of the packages that a type names matter for its text. -/
theorem renderWith_congr {nameOf nameOf' : String → Option String} {type : TypeExpr}
    (h : ∀ path, type.Names path → nameOf' path = nameOf path) :
    type.renderWith nameOf' = type.renderWith nameOf := by
  rw [renderWith, renderWith]
  refine congrArg String.ofList (List.flatMap_congr fun segment hsegment => ?_)
  cases segment with
  | char c => rfl
  | qualified qualifier member =>
      cases hfind : type.qualifiers.find? fun pair => pair.1 == String.ofList qualifier with
      | none => simp only [hfind]
      | some pair =>
          have hname : pair.1 = String.ofList qualifier := by simpa using List.find?_some hfind
          have hmem := List.mem_of_find?_eq_some hfind
          have hpath : type.Names pair.2.path :=
            ⟨qualifier, member, pair.2, hsegment, hname ▸ hmem, rfl⟩
          simp only [hfind, h _ hpath]

end TypeExpr

end ServiceWiring
