import ServiceWiring.Proofs.SourceCode

/-!
# What a character of a source stands in

A source is read one character after the other, line feeds included: in front of each character
stands code, a comment, a string or a rune literal.  The code of a file does not show what stands
in a comment or in a literal.  A character there can be replaced by any other one, as long as
neither begins or ends anything.

* `Region.next`, `Region.behind` — what stands behind a character, and behind a text;
* `Region.behind_line` — the region behind a line is the state that its code is read to;
* `Code.ofLine_replace` — a character replaced on a line;
* `Code.exists_line` — the line that a character of a text stands on;
* `Code.ofLines_replace` — a character replaced in a text.
-/

namespace ServiceWiring.Code

open Text

/-! ## First characters -/

theorem head?_ne_of_forall {c : Char} {rest : List Char} (h : ∀ tail, rest = c :: tail → False) :
    rest.head? ≠ some c := by
  intro hhead
  obtain ⟨tail, htail⟩ := List.head?_eq_some_iff.mp hhead
  exact h tail htail

theorem ne_of_head?_ne {c d : Char} {rest : List Char} (h : (d :: rest).head? ≠ some c) :
    d ≠ c := by
  rintro rfl
  exact h rfl

theorem head?_append_ne {c d : Char} {rest : List Char} (h : rest.head? ≠ some c) (hd : d ≠ c)
    (tail : List Char) : (rest ++ d :: tail).head? ≠ some c := by
  cases rest with
  | nil =>
      intro heq
      exact hd (Option.some.inj heq)
  | cons first rest => exact h

/-! ## Regions -/

/-- What the text in front of a character leaves open. -/
inductive Region where
  | code
  /-- Code, and right behind a slash that may begin a comment. -/
  | slash
  | lineComment
  | blockComment
  /-- A block comment, and right behind a star that may end it. -/
  | star
  | rawString
  /-- An interpreted string or a rune literal, with its quote. -/
  | literal (quote : Char)
  /-- Such a literal, and right behind a backslash. -/
  | escape (quote : Char)
  deriving DecidableEq, Repr

namespace Region

/-- The region behind a character of code. -/
def opened (c : Char) : Region :=
  if c = '/' then .slash
  else if c = '\x60' then .rawString
  else if c = '"' || c = '\'' then .literal c
  else .code

/-- The region behind one more character.  Interpreted strings and rune literals end with their
    line at the latest. -/
def next : Region → Char → Region
  | .code, c => opened c
  | .slash, c => if c = '/' then .lineComment else if c = '*' then .blockComment else opened c
  | .lineComment, c => if c = '\n' then .code else .lineComment
  | .blockComment, c => if c = '*' then .star else .blockComment
  | .star, c => if c = '/' then .code else if c = '*' then .star else .blockComment
  | .rawString, c => if c = '\x60' then .code else .rawString
  | .literal q, c =>
      if c = '\\' then .escape q else if c = q || c = '\n' then .code else .literal q
  | .escape q, c => if c = '\n' then .code else .literal q

/-- The region behind a text. -/
def behind (region : Region) (text : List Char) : Region :=
  text.foldl next region

/-- Whether a comment or a literal is open. -/
def isInside : Region → Bool
  | .code => false
  | .slash => false
  | _ => true

/-- The region of a state between two characters of a line. -/
def ofState : State → Region
  | .code => .code
  | .comment => .blockComment
  | .raw => .rawString
  | .literal q => .literal q
  | .escape q => .escape q

variable {region : Region} {c : Char} {text rest : List Char}

theorem behind_cons (region : Region) (c : Char) (text : List Char) :
    region.behind (c :: text) = (region.next c).behind text :=
  rfl

theorem behind_append (region : Region) (front text : List Char) :
    region.behind (front ++ text) = (region.behind front).behind text :=
  List.foldl_append

/-- A star matters to a slash only. -/
theorem star_next (h : c ≠ '/') : star.next c = blockComment.next c :=
  if_neg h

/-- A slash matters to a slash and to a star only. -/
theorem slash_next (hslash : c ≠ '/') (hstar : c ≠ '*') : slash.next c = code.next c :=
  (if_neg hslash).trans (if_neg hstar)

/-- A carriage return in front of a line feed changes nothing. -/
theorem return_next (region : Region) : (region.next '\r').next '\n' = region.next '\n' := by
  cases region with
  | code => rfl
  | slash => rfl
  | lineComment => rfl
  | blockComment => rfl
  | star => rfl
  | rawString => rfl
  | literal q =>
      by_cases hq : '\r' = q
      · simp [next, hq.symm, opened]
      · simp [next, hq]
  | escape q => simp [next]

theorem behind_dropReturn (region : Region) (line : List Char) :
    region.behind (dropReturn line ++ ['\n']) = region.behind (line ++ ['\n']) := by
  unfold dropReturn
  split
  · rename_i hlast
    obtain ⟨front, rfl⟩ := List.getLast?_eq_some_iff.mp hlast
    rw [List.dropLast_concat, List.append_assoc, behind_append, behind_append]
    exact (return_next _).symm
  · rfl

theorem behind_lineComment (h : Unbroken text) : lineComment.behind text = lineComment := by
  induction text with
  | nil => rfl
  | cons c text ih =>
      rw [behind_cons, next, if_neg h.head_ne]
      exact ih h.tail

/-- Behind a star that ends nothing a block comment goes on. -/
theorem behind_star (hne : rest ≠ []) (h : rest.head? ≠ some '/') :
    star.behind rest = blockComment.behind rest := by
  cases rest with
  | nil => exact absurd rfl hne
  | cons d rest => rw [behind_cons, behind_cons, star_next (ne_of_head?_ne h)]

theorem isInside_star (h : rest.head? ≠ some '/') :
    (star.behind rest).isInside = (blockComment.behind rest).isInside := by
  cases rest with
  | nil => rfl
  | cons d rest => rw [behind_star (List.cons_ne_nil d rest) h]

/-- Behind a slash that begins nothing code goes on. -/
theorem behind_slash (hne : rest ≠ []) (hslash : rest.head? ≠ some '/')
    (hstar : rest.head? ≠ some '*') : slash.behind rest = code.behind rest := by
  cases rest with
  | nil => exact absurd rfl hne
  | cons d rest =>
      rw [behind_cons, behind_cons, slash_next (ne_of_head?_ne hslash) (ne_of_head?_ne hstar)]

theorem isInside_slash (hslash : rest.head? ≠ some '/') (hstar : rest.head? ≠ some '*') :
    (slash.behind rest).isInside = (code.behind rest).isInside := by
  cases rest with
  | nil => rfl
  | cons d rest => rw [behind_slash (List.cons_ne_nil d rest) hslash hstar]

end Region

open Region

/-! ## Reading one character -/

/-- The state behind a character of code. -/
def State.opened (c : Char) : State :=
  if c = '\x60' then .raw else if c = '"' || c = '\'' then .literal c else .code

/-- A block comment goes on unless a star and a slash end it. -/
theorem ofLine_comment {c : Char} {rest : List Char} (h : c = '*' → rest.head? ≠ some '/') :
    ofLine .comment (c :: rest) = ofLine .comment rest := by
  rw [ofLine]
  rintro cs hc hrest
  rw [hrest] at h
  exact h hc rfl

/-- A character is code unless two slashes, or a slash and a star, begin a comment. -/
theorem ofLine_visible {c : Char} {rest : List Char}
    (h : c = '/' → rest.head? ≠ some '/' ∧ rest.head? ≠ some '*') :
    ofLine .code (c :: rest)
      = (c :: (ofLine (State.opened c) rest).1, (ofLine (State.opened c) rest).2) := by
  rw [ofLine]
  · rfl
  · intro cs hc hrest
    rw [hrest] at h
    exact (h hc).1 rfl
  · intro cs hc hrest
    rw [hrest] at h
    exact (h hc).2 rfl

theorem ofState_opened {c : Char} (h : c ≠ '/') : ofState (State.opened c) = Region.opened c := by
  unfold State.opened Region.opened
  rw [if_neg h]
  split
  · rfl
  · split
    · rfl
    · rfl

/-- Behind a character of code that begins no comment the rest of the line is read in the state of
    its region. -/
theorem behind_visible {c : Char} {rest : List Char} (hne : rest ≠ [])
    (h : c = '/' → rest.head? ≠ some '/' ∧ rest.head? ≠ some '*') :
    code.behind (c :: rest) = (ofState (State.opened c)).behind rest := by
  show (Region.opened c).behind rest = _
  by_cases hc : c = '/'
  · subst hc
    exact behind_slash hne (h rfl).1 (h rfl).2
  · rw [ofState_opened hc]

theorem isInside_visible {c : Char} {rest : List Char}
    (h : c = '/' → rest.head? ≠ some '/' ∧ rest.head? ≠ some '*') :
    (code.behind (c :: rest)).isInside = ((ofState (State.opened c)).behind rest).isInside := by
  show ((Region.opened c).behind rest).isInside = _
  by_cases hc : c = '/'
  · subst hc
    exact isInside_slash (h rfl).1 (h rfl).2
  · rw [ofState_opened hc]

/-- Behind a character of a block comment that ends nothing the comment goes on. -/
theorem behind_comment {c : Char} {rest : List Char} (hne : rest ≠ [])
    (h : c = '*' → rest.head? ≠ some '/') :
    blockComment.behind (c :: rest) = blockComment.behind rest := by
  rw [behind_cons, next]
  by_cases hc : c = '*'
  · rw [if_pos hc]
    exact behind_star hne (h hc)
  · rw [if_neg hc]

theorem isInside_comment {c : Char} {rest : List Char} (h : c = '*' → rest.head? ≠ some '/') :
    (blockComment.behind (c :: rest)).isInside = (blockComment.behind rest).isInside := by
  rw [behind_cons, next]
  by_cases hc : c = '*'
  · rw [if_pos hc]
    exact isInside_star (h hc)
  · rw [if_neg hc]

/-- The region behind a line is the state that its code is read to. -/
theorem Region.behind_line (state : State) {line : List Char} (h : Unbroken line) :
    (ofState state).behind (line ++ ['\n']) = ofState (ofLine state line).2 := by
  fun_induction ofLine state line with
  | case1 q => simp [ofState, behind, next]
  | case2 q => simp [ofState, behind, next]
  | case3 state hliteral hescape =>
      cases state with
      | code => rfl
      | comment => rfl
      | raw => rfl
      | literal q => exact absurd rfl (hliteral q)
      | escape q => exact absurd rfl (hescape q)
  | case4 cs out state hout ih =>
      rw [hout] at ih
      exact ih h.tail.tail
  | case5 c cs hend ih =>
      rw [← ih h.tail]
      refine behind_comment (List.concat_ne_nil '\n' cs) fun hstar => ?_
      exact head?_append_ne (head?_ne_of_forall fun rest => hend rest hstar) (by decide) []
  | case6 cs out state hout ih =>
      rw [hout] at ih
      exact ih h.tail
  | case7 c cs hc ih =>
      rw [← ih h.tail, List.cons_append, behind_cons]
      show (if c = '\x60' then Region.code else .rawString).behind _ = _
      rw [if_neg hc]
      rfl
  | case8 q c cs ih =>
      rw [← ih h.tail, List.cons_append, behind_cons]
      show (if c = '\n' then Region.code else .literal q).behind _ = _
      rw [if_neg h.head_ne]
      rfl
  | case9 q cs ih =>
      exact ih h.tail
  | case10 c cs hback out state hout ih =>
      rw [hout] at ih
      rw [← ih h.tail, List.cons_append, behind_cons]
      show (if c = '\\' then Region.escape c
        else if c = c || c = '\n' then .code else .literal c).behind _ = _
      rw [if_neg hback, if_pos (by simp)]
      rfl
  | case11 q c cs hback hquote ih =>
      rw [← ih h.tail, List.cons_append, behind_cons]
      show (if c = '\\' then Region.escape q
        else if c = q || c = '\n' then .code else .literal q).behind _ = _
      rw [if_neg hback, if_neg (by simp [hquote, h.head_ne])]
      rfl
  | case12 cs =>
      show lineComment.behind (cs ++ ['\n']) = Region.code
      rw [behind_append, behind_lineComment h.tail.tail]
      rfl
  | case13 cs ih =>
      exact ih h.tail.tail
  | case14 c cs hline hblock nextState out state hout ih =>
      rw [hout] at ih
      rw [← ih h.tail]
      refine behind_visible (List.concat_ne_nil '\n' cs) fun hslash => ⟨?_, ?_⟩
      · exact head?_append_ne (head?_ne_of_forall fun rest => hline rest hslash) (by decide) []
      · exact head?_append_ne (head?_ne_of_forall fun rest => hblock rest hslash) (by decide) []

/-! ## A character replaced -/

/-- Neither begins nor ends a comment, a literal or a line. -/
def IsInert (c : Char) : Prop :=
  c ∉ ['"', '\'', '\x60', '\\', '*', '/', '\n', '\r']

instance (c : Char) : Decidable (IsInert c) :=
  inferInstanceAs (Decidable (_ ∉ _))

theorem IsInert.ne {c d : Char} (h : IsInert c)
    (hd : d ∈ ['"', '\'', '\x60', '\\', '*', '/', '\n', '\r']) : c ≠ d := by
  rintro rfl
  exact h hd

/-- The literal that a state is in has a quote for its delimiter. -/
def State.Quoted (state : State) : Prop :=
  ∀ q, state = .literal q ∨ state = .escape q → q = '"' ∨ q = '\''

/-- No literal runs on from one line to the next. -/
theorem State.Quoted.of_start {state : State}
    (h : state = .code ∨ state = .comment ∨ state = .raw) : state.Quoted := by
  intro q hq
  rcases h with rfl | rfl | rfl
  · rcases hq with hq | hq <;> cases hq
  · rcases hq with hq | hq <;> cases hq
  · rcases hq with hq | hq <;> cases hq

theorem State.quoted_opened (c : Char) : (State.opened c).Quoted := by
  unfold State.opened
  intro q h
  split at h
  · rcases h with h | h <;> cases h
  · split at h
    · rename_i hquote
      rcases h with h | h
      · rw [← State.literal.inj h]
        simpa using hquote
      · cases h
    · rcases h with h | h <;> cases h

theorem State.Quoted.unescaped {q : Char} (h : (State.escape q).Quoted) :
    (State.literal q).Quoted := by
  rintro q' (hq' | hq')
  · rw [← State.literal.inj hq']
    exact h q (.inr rfl)
  · cases hq'

theorem State.Quoted.escaped {q : Char} (h : (State.literal q).Quoted) :
    (State.escape q).Quoted := by
  rintro q' (hq' | hq')
  · cases hq'
  · rw [← State.escape.inj hq']
    exact h q (.inl rfl)

/-- The state behind a character that is passed over. -/
def State.resumed : State → State
  | .escape q => .literal q
  | state => state

/-- Inside of a comment or a literal such a character is passed over. -/
theorem ofLine_inert {state : State} (hquoted : state.Quoted)
    (h : (ofState state).isInside = true) {c : Char} (hc : IsInert c) (tail : List Char) :
    ofLine state (c :: tail) = ofLine state.resumed tail := by
  cases state with
  | code => cases h
  | comment => exact ofLine_comment fun hstar => absurd hstar (hc.ne (by decide))
  | raw =>
      show _ = ofLine .raw tail
      rw [ofLine, if_neg (hc.ne (by decide))]
  | literal q =>
      have hquote : c ≠ q := by
        rcases hquoted q (.inl rfl) with rfl | rfl
        · exact hc.ne (by decide)
        · exact hc.ne (by decide)
      show _ = ofLine (.literal q) tail
      rw [ofLine, if_neg (hc.ne (by decide)), if_neg hquote]
  | escape q => rfl

/-- What a comment or a literal holds is not seen in the code of its line, nor in the state behind
    it. -/
theorem ofLine_replace {c c' : Char} (hc : IsInert c) (hc' : IsInert c') (tail : List Char)
    {state : State} {front : List Char} (hquoted : state.Quoted) (hfront : Unbroken front)
    (h : ((ofState state).behind front).isInside = true) :
    ofLine state (front ++ c :: tail) = ofLine state (front ++ c' :: tail) := by
  -- by induction on the text in front: each arm reads one of its characters on both lines
  have hcode : State.code.Quoted := .of_start (.inl rfl)
  have hcomment : State.comment.Quoted := .of_start (.inr (.inl rfl))
  have hraw : State.raw.Quoted := .of_start (.inr (.inr rfl))
  fun_induction ofLine state front with
  | case1 | case2 | case3 =>
      exact (ofLine_inert hquoted h hc tail).trans (ofLine_inert hquoted h hc' tail).symm
  | case4 cs out state hout ih =>
      show ofLine .comment ('*' :: '/' :: (cs ++ c :: tail)) = _
      rw [ofLine, ih hcode hfront.tail.tail h]
      rfl
  | case5 x cs hend ih =>
      -- the star and the slash that end the comment are not made by the character either
      have hslash : x = '*' → cs.head? ≠ some '/' := fun hx =>
        head?_ne_of_forall fun rest => hend rest hx
      rw [List.cons_append, List.cons_append,
        ofLine_comment fun hx => head?_append_ne (hslash hx) (hc.ne (by decide)) tail,
        ofLine_comment fun hx => head?_append_ne (hslash hx) (hc'.ne (by decide)) tail]
      exact ih hcomment hfront.tail ((isInside_comment hslash).symm.trans h)
  | case6 cs out state hout ih =>
      show ofLine .raw ('\x60' :: (cs ++ c :: tail)) = ofLine .raw ('\x60' :: (cs ++ c' :: tail))
      rw [ofLine, ofLine, if_pos rfl, if_pos rfl, ih hcode hfront.tail h]
  | case7 x cs hx ih =>
      rw [List.cons_append, List.cons_append, ofLine, ofLine, if_neg hx, if_neg hx]
      refine ih hraw hfront.tail ?_
      change ((rawString.next x).behind cs).isInside = true at h
      rw [next, if_neg hx] at h
      exact h
  | case8 q x cs ih =>
      rw [List.cons_append, List.cons_append, ofLine, ofLine]
      refine ih hquoted.unescaped hfront.tail ?_
      change (((Region.escape q).next x).behind cs).isInside = true at h
      rw [next, if_neg hfront.head_ne] at h
      exact h
  | case9 q cs ih =>
      rw [List.cons_append, List.cons_append, ofLine, ofLine, if_pos rfl, if_pos rfl]
      exact ih hquoted.escaped hfront.tail h
  | case10 x cs hback out state hout ih =>
      rw [List.cons_append, List.cons_append, ofLine, ofLine, if_neg hback, if_neg hback, if_pos rfl,
        if_pos rfl, ih hcode hfront.tail]
      change (((Region.literal x).next x).behind cs).isInside = true at h
      rw [next, if_neg hback, if_pos (by simp)] at h
      exact h
  | case11 q x cs hback hquote ih =>
      rw [List.cons_append, List.cons_append, ofLine, ofLine, if_neg hback, if_neg hback,
        if_neg hquote, if_neg hquote]
      refine ih hquoted hfront.tail ?_
      change (((Region.literal q).next x).behind cs).isInside = true at h
      rw [next, if_neg hback, if_neg (by simp [hquote, hfront.head_ne])] at h
      exact h
  | case12 cs =>
      show ofLine .code ('/' :: '/' :: (cs ++ c :: tail)) = _
      rw [ofLine]
      rfl
  | case13 cs ih =>
      show ofLine .code ('/' :: '*' :: (cs ++ c :: tail)) = _
      rw [ofLine, ih hcomment hfront.tail.tail h]
      rfl
  | case14 x cs hline hblock nextState out state hout ih =>
      -- nor does the character begin a comment behind a slash
      have hstart : x = '/' → cs.head? ≠ some '/' ∧ cs.head? ≠ some '*' := fun hx =>
        ⟨head?_ne_of_forall fun rest => hline rest hx, head?_ne_of_forall fun rest => hblock rest hx⟩
      have hvisible : ∀ {d : Char}, IsInert d → ofLine .code (x :: (cs ++ d :: tail))
          = (x :: (ofLine (State.opened x) (cs ++ d :: tail)).1,
            (ofLine (State.opened x) (cs ++ d :: tail)).2) := by
        intro d hd
        refine ofLine_visible fun hx => ⟨?_, ?_⟩
        · exact head?_append_ne (hstart hx).1 (hd.ne (by decide)) tail
        · exact head?_append_ne (hstart hx).2 (hd.ne (by decide)) tail
      have hrest : ofLine (State.opened x) (cs ++ c :: tail)
          = ofLine (State.opened x) (cs ++ c' :: tail) :=
        ih (State.quoted_opened x) hfront.tail ((isInside_visible hstart).symm.trans h)
      rw [List.cons_append, List.cons_append, hvisible hc, hvisible hc', hrest]

/-! ## The line of a character -/

/-- A text without line feeds ends with the first line feed. -/
theorem lines_line {line : List Char} (h : Unbroken line) (rest : List Char) :
    lines (line ++ '\n' :: rest) = dropReturn line :: lines rest := by
  have hline : splitWhere (· == '\n') line = [line] := by
    refine splitWhere_eq_singleton fun c hc => beq_eq_false_iff_ne.mpr ?_
    rintro rfl
    exact h hc
  rw [lines_append_cons, hline]
  rfl

/-- The line that a character begins, behind a text without line feeds, and the lines behind it. -/
theorem exists_line_behind {seg : List Char} (h : Unbroken seg) (back : List Char) :
    ∃ tail after, ∀ x, x ≠ '\n' → x ≠ '\r' →
      lines (seg ++ x :: back) = (seg ++ x :: tail) :: after := by
  by_cases hback : '\n' ∈ back
  · obtain ⟨line, rest, rfl, hline⟩ := List.eq_append_cons_of_mem hback
    refine ⟨dropReturn line, lines rest, ?_⟩
    intro x hx hreturn
    have hwhole : Unbroken (seg ++ x :: line) := h.append (.cons hx hline)
    -- the character is no carriage return, so none in front of it is dropped
    have hdrop : dropReturn (seg ++ x :: line) = seg ++ x :: dropReturn line := by
      unfold dropReturn
      rw [List.getLast?_append_of_ne_nil _ (List.cons_ne_nil x line)]
      cases line with
      | nil =>
          have hkept : [x].getLast? ≠ some '\r' := by
            intro heq
            exact hreturn (Option.some.inj heq)
          rw [if_neg hkept]
          rfl
      | cons d line =>
          rw [List.getLast?_cons_cons]
          split
          · rw [List.dropLast_append_of_ne_nil (List.cons_ne_nil _ _), List.dropLast_cons_cons]
          · rfl
    have hlines := lines_line hwhole rest
    rw [hdrop, List.append_assoc, List.cons_append] at hlines
    exact hlines
  · refine ⟨back, [], ?_⟩
    intro x hx hreturn
    have hwhole : Unbroken (seg ++ x :: back) := h.append (.cons hx hback)
    have hsplit : splitWhere (· == '\n') (seg ++ x :: back) = [seg ++ x :: back] := by
      refine splitWhere_eq_singleton fun c hc => beq_eq_false_iff_ne.mpr ?_
      rintro rfl
      exact hwhole hc
    unfold lines
    rw [hsplit]
    simp

/-- The line that a character stands on, with the lines around it.  The region in front of the
    character is read from the state that its line starts in. -/
theorem exists_line (state : State) (front back : List Char) :
    ∃ before seg tail after, Unbroken seg ∧
      (ofState state).behind front = (ofState (stateBehind state before)).behind seg ∧
      ∀ x, x ≠ '\n' → x ≠ '\r' →
        lines (front ++ x :: back) = before ++ (seg ++ x :: tail) :: after := by
  -- the lines in front of the character are taken off one by one
  induction hlength : front.length using Nat.strongRecOn generalizing state front with
  | ind n ih =>
      by_cases hfront : '\n' ∈ front
      · obtain ⟨line, rest, rfl, hline⟩ := List.eq_append_cons_of_mem hfront
        have hshorter : rest.length < n := by
          rw [← hlength, List.length_append, List.length_cons]
          omega
        obtain ⟨before, seg, tail, after, hseg, hregion, hlines⟩ :=
          ih rest.length hshorter (ofLine state (dropReturn line)).2 rest rfl
        refine ⟨dropReturn line :: before, seg, tail, after, hseg, ?_, ?_⟩
        · have hstart : (ofState state).behind (line ++ ['\n'])
              = ofState (ofLine state (dropReturn line)).2 := by
            rw [← behind_dropReturn]
            exact behind_line state (Unbroken.of_subset hline (dropReturn_subset line))
          rw [List.append_cons, behind_append, hstart, hregion]
          rfl
        · intro x hx hreturn
          rw [List.append_assoc, List.cons_append, lines_line hline, hlines x hx hreturn]
          rfl
      · obtain ⟨tail, after, hlines⟩ := exists_line_behind hfront back
        exact ⟨[], front, tail, after, hfront, rfl, hlines⟩

/-- A line that is read alike can stand in place of another one. -/
theorem ofLines_congr {before after : List (List Char)} {line line' : List Char}
    (h : ofLine (stateBehind .code before) line = ofLine (stateBehind .code before) line') :
    ofLines (before ++ line :: after) = ofLines (before ++ line' :: after) := by
  unfold ofLines
  rw [ofLinesFrom_append, ofLinesFrom_append]
  show _ ++ (ofLine _ line).1 :: ofLinesFrom (ofLine _ line).2 after = _
  rw [h]
  rfl

/-- What a comment or a literal holds is not seen in the code of a text. -/
theorem ofLines_replace {front : List Char} {c c' : Char}
    (h : (Region.code.behind front).isInside = true) (hc : IsInert c) (hc' : IsInert c')
    (back : List Char) :
    ofLines (lines (front ++ c :: back)) = ofLines (lines (front ++ c' :: back)) := by
  obtain ⟨before, seg, tail, after, hseg, hregion, hlines⟩ := exists_line .code front back
  have hinside : ((ofState (stateBehind .code before)).behind seg).isInside = true := by
    rw [← hregion]
    exact h
  rw [hlines c (hc.ne (by decide)) (hc.ne (by decide)),
    hlines c' (hc'.ne (by decide)) (hc'.ne (by decide))]
  exact ofLines_congr
    (ofLine_replace hc hc' tail (.of_start (stateBehind_cases before)) hseg hinside)

end ServiceWiring.Code
