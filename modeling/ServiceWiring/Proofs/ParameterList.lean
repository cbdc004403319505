import ServiceWiring.Proofs.ResultText

/-!
# Parameter lists are read as they are written

A parameter list is written in one of two ways: all parameters have names, and neighbours may
share the type behind the last of them, or none has a name and the list is one of types.  Which
way it is, and which name goes with which type, is seen from the pieces between the commas.

* `IsPlainType` — the texts of types;
* `ParamGroup` — names that share a type, as they are written;
* `ParamGroup.namedParams_pieces` — names wait for the type behind the last of them;
* `parseParams_written` — either way, the list is read as it was written.
-/

namespace ServiceWiring

open Text

/-! ## Joining and dividing -/

/-- The text of a type: on one line, with closed brackets and commas in these only, and with
    nothing blank around it. -/
structure IsPlainType (type : List Char) : Prop where
  nonempty : type ≠ []
  trimmed : trim type = type
  unbroken : Unbroken type
  undivided : Code.Undivided type

theorem intercalate_append {sep : List Char} {front back : List (List Char)} (hfront : front ≠ [])
    (hback : back ≠ []) :
    sep.intercalate (front ++ back) = sep.intercalate front ++ (sep ++ sep.intercalate back) := by
  obtain ⟨first, more, rfl⟩ := List.exists_cons_of_ne_nil hfront
  obtain ⟨next, rest, rfl⟩ := List.exists_cons_of_ne_nil hback
  rw [List.cons_append, intercalate_eq_append, intercalate_eq_append, intercalate_eq_append,
    List.flatMap_append, List.flatMap_cons, List.append_assoc, List.append_assoc]

/-- Lists joined one by one, and the joined texts joined again. -/
theorem intercalate_map_intercalate {sep : List Char} {lists : List (List (List Char))}
    (h : ∀ parts ∈ lists, parts ≠ []) :
    sep.intercalate (lists.map sep.intercalate) = sep.intercalate lists.flatten := by
  induction lists with
  | nil => rfl
  | cons parts lists ih =>
      have hrest := ih fun other hother => h other (List.mem_cons_of_mem _ hother)
      cases lists with
      | nil =>
          rw [List.map_singleton, List.intercalate_singleton, List.flatten_singleton]
      | cons next more =>
          have hflat : (next :: more).flatten ≠ [] := by
            intro hempty
            have hnext := List.flatten_eq_nil_iff.mp hempty next (List.mem_cons_self ..)
            exact h next (List.mem_cons_of_mem _ (List.mem_cons_self ..)) hnext
          have hparts := h parts (List.mem_cons_self ..)
          rw [List.flatten_cons, intercalate_append hparts hflat, ← hrest, List.map_cons,
            List.map_cons, List.intercalate_cons_cons, List.append_assoc]

/-- Blanks behind the commas belong to the parts behind them. -/
theorem intercalate_gap (gap first : List Char) (more : List (List Char)) :
    (',' :: gap).intercalate (first :: more)
      = [','].intercalate (first :: more.map (gap ++ ·)) := by
  rw [intercalate_eq_append, intercalate_eq_append, List.flatMap_map]
  rfl

/-- A piece of a list: it is not divided, and it starts and ends visibly. -/
structure IsPiece (piece : List Char) : Prop where
  nonempty : piece ≠ []
  trimmed : trim piece = piece
  undivided : Code.Undivided piece

theorem IsPlainType.isPiece {type : List Char} (h : IsPlainType type) : IsPiece type :=
  ⟨h.nonempty, h.trimmed, h.undivided⟩

/-- A list is divided into its pieces, with a comma behind the last one or without. -/
theorem splitTopLevel_pieces {gap : List Char} (hgap : AllBlank gap) {pieces : List (List Char)}
    (h : ∀ piece ∈ pieces, IsPiece piece) (hne : pieces ≠ []) {trailing : List Char}
    (htrailing : trailing = [] ∨ trailing = [',']) :
    splitTopLevel ((',' :: gap).intercalate pieces ++ trailing) = pieces := by
  obtain ⟨first, more, rfl⟩ := List.exists_cons_of_ne_nil hne
  have hparts : ∀ part ∈ first :: more.map (gap ++ ·), Code.Undivided part := by
    intro part hpart
    rcases List.mem_cons.mp hpart with rfl | hpart
    · exact (h _ (List.mem_cons_self ..)).undivided
    · obtain ⟨piece, hpiece, rfl⟩ := List.mem_map.mp hpart
      exact (Code.Undivided.blank hgap).append (h piece (List.mem_cons_of_mem _ hpiece)).undivided
  -- a piece is trimmed already, so only the gap in front of it goes
  have htrim : (first :: more.map (gap ++ ·)).map trim = first :: more := by
    rw [List.map_cons, List.map_map, (h first (List.mem_cons_self ..)).trimmed]
    refine congrArg (first :: ·) ?_
    rw [← List.map_id more, List.map_map]
    refine List.map_congr_left ?_
    intro piece hpiece
    show trimEnd (trimStart (gap ++ piece)) = piece
    rw [hgap.trimStart_append]
    exact (h piece (List.mem_cons_of_mem _ hpiece)).trimmed
  have hvisible : (first :: more).filter (fun part => !part.isEmpty) = first :: more := by
    refine List.filter_eq_self.mpr ?_
    intro piece hpiece
    simpa using (h piece hpiece).nonempty
  rw [intercalate_gap]
  rcases htrailing with rfl | rfl
  · rw [List.append_nil, Code.splitTopLevel_intercalate hparts, htrim, hvisible]
  · -- a comma at the end has an empty part behind it, which does not count
    have hcomma : [','].intercalate (first :: more.map (gap ++ ·)) ++ [',']
        = [','].intercalate ((first :: more.map (gap ++ ·)) ++ [[]]) := by
      rw [intercalate_append (List.cons_ne_nil _ _) (List.cons_ne_nil _ _),
        List.intercalate_singleton, List.append_nil]
    rw [hcomma, Code.splitTopLevel_intercalate, List.map_append, htrim, List.filter_append,
      hvisible]
    · exact List.append_nil _
    · intro part hpart
      rcases List.mem_append.mp hpart with hpart | hpart
      · exact hparts part hpart
      · rw [List.mem_singleton.mp hpart]
        exact .nil

/-! ## Names with a type -/

/-- Parameters that share a type, as they are written. -/
structure ParamGroup where
  names : List (List Char)
  type : List Char

namespace ParamGroup

/-- A name of a parameter: an ASCII identifier that is none of the words that start a type. -/
structure IsParamName (name : List Char) : Prop where
  ascii : IsAsciiName name
  free : typeKeywords.contains (String.ofList name) = false

/-- Groups that are written down: with one name at least. -/
structure IsWritten (group : ParamGroup) : Prop where
  nonempty : group.names ≠ []
  names : ∀ name ∈ group.names, IsParamName name
  type : IsPlainType group.type

/-- The text of a group: the names with commas between them, and the type. -/
def text (group : ParamGroup) : List Char :=
  [',', ' '].intercalate group.names ++ ' ' :: group.type

/-- The parameters of a group: each name with the type. -/
def params (group : ParamGroup) : List Param :=
  group.names.map fun name => ⟨String.ofList name, String.ofList group.type⟩

/-- The pieces between the commas of some names with a type behind the last of them. -/
def piecesOf (type : List Char) : List (List Char) → List (List Char)
  | [] => []
  | [name] => [name ++ ' ' :: type]
  | name :: next :: more => name :: piecesOf type (next :: more)

theorem piecesOf_ne_nil {type : List Char} {names : List (List Char)} (h : names ≠ []) :
    piecesOf type names ≠ [] := by
  match names with
  | [] => exact absurd rfl h
  | [_] => exact List.cons_ne_nil _ _
  | _ :: _ :: _ => exact List.cons_ne_nil _ _

theorem intercalate_piecesOf {sep type : List Char} {names : List (List Char)} (h : names ≠ []) :
    sep.intercalate (piecesOf type names) = sep.intercalate names ++ ' ' :: type := by
  induction names with
  | nil => exact absurd rfl h
  | cons name names ih =>
      cases names with
      | nil =>
          show sep.intercalate [name ++ ' ' :: type] = _
          rw [List.intercalate_singleton, List.intercalate_singleton]
      | cons next more =>
          have hne : piecesOf type (next :: more) ≠ [] :=
            piecesOf_ne_nil (List.cons_ne_nil next more)
          obtain ⟨piece, pieces, hpieces⟩ := List.exists_cons_of_ne_nil hne
          have hmore := ih (List.cons_ne_nil next more)
          show sep.intercalate (name :: piecesOf type (next :: more)) = _
          rw [hpieces] at hmore ⊢
          rw [List.intercalate_cons_cons, hmore, List.intercalate_cons_cons, List.append_assoc,
            List.append_assoc, List.append_assoc]

theorem IsParamName.isPiece {name : List Char} (h : IsParamName name) : IsPiece name := by
  have hplain : ∀ c ∈ name, isBlank c = false := by
    intro c hc
    exact isBlank_of_isAsciiNameChar (h.ascii.isAsciiNameChar c hc)
  refine ⟨h.ascii.ne_nil, ?_, ?_⟩
  · obtain ⟨c, cs, rfl⟩ := List.exists_cons_of_ne_nil h.ascii.ne_nil
    have hhead : (c :: cs).head?.any (!isBlank ·) = true := by
      simpa using hplain c (List.mem_cons_self ..)
    have hlast : (c :: cs).getLast?.any (!isBlank ·) = true := by
      rw [List.getLast?_eq_some_getLast (List.cons_ne_nil c cs)]
      simpa using hplain _ (List.getLast_mem (List.cons_ne_nil c cs))
    show trimEnd (trimStart (c :: cs)) = c :: cs
    rw [trimStart_eq_self hhead, trimEnd_eq_self hlast]
  · refine Code.Undivided.plain ?_
    intro c hc
    have hname := h.ascii.isAsciiNameChar c hc
    constructor
    · intro hbracket
      have hother : isAsciiNameChar c = false :=
        Code.of_isBracket (p := (isAsciiNameChar · = false)) (by decide) (by decide) hbracket
      rw [hname] at hother
      cases hother
    · rintro rfl
      cases hname

theorem namedPiece?_name {name : List Char} (h : IsParamName name) : namedPiece? name = none := by
  rw [namedPiece?, isAsciiName_iff.mp h.ascii]
  rfl

theorem namedPiece?_typed {name type : List Char} (h : IsParamName name)
    (htype : IsPlainType type) : namedPiece? (name ++ ' ' :: type) = some (name, type) := by
  have hread : asciiName? (name ++ ' ' :: type) = some (name, ' ' :: type) :=
    asciiName?_append h.ascii rfl
  have hstart : trimStart (' ' :: type) = type :=
    trimStart_eq_self (visible_of_trim htype.trimmed htype.nonempty)
  have hvisible : type.isEmpty = false := by
    simpa using htype.nonempty
  rw [namedPiece?, hread]
  show (if (true && !(trimStart (' ' :: type)).isEmpty) = true then _ else _) = _
  rw [hstart, hvisible]
  rfl

theorem isNamedParam_typed {name type : List Char} (h : IsParamName name)
    (htype : IsPlainType type) : isNamedParam (name ++ ' ' :: type) = true := by
  rw [isNamedParam, namedPiece?_typed h htype]
  show (!typeKeywords.contains (String.ofList name)) = true
  rw [h.free]
  rfl

/-- The pieces of a group are read as its parameters: by induction on the names, all that wait get
    the type behind the last one. -/
theorem namedParams_pieces {type : List Char} (htype : IsPlainType type) {names : List (List Char)}
    (hne : names ≠ []) (h : ∀ name ∈ names, IsParamName name) (waiting : List String)
    (rest : List (List Char)) :
    namedParams waiting (piecesOf type names ++ rest)
      = (waiting ++ names.map String.ofList).map (fun name => ⟨name, String.ofList type⟩)
        ++ namedParams [] rest := by
  induction names generalizing waiting with
  | nil => exact absurd rfl hne
  | cons name names ih =>
      have hname := h name (List.mem_cons_self ..)
      cases names with
      | nil =>
          show namedParams waiting ((name ++ ' ' :: type) :: rest) = _
          rw [namedParams, namedPiece?_typed hname htype]
          dsimp only
          rw [htype.trimmed]
          rfl
      | cons next more =>
          have hmore := ih (List.cons_ne_nil next more)
            (fun other hother => h other (List.mem_cons_of_mem _ hother))
            (waiting ++ [String.ofList name])
          show namedParams waiting (name :: (piecesOf type (next :: more) ++ rest)) = _
          rw [namedParams, namedPiece?_name hname]
          dsimp only
          rw [hmore, List.append_assoc]
          rfl

/-- The pieces of a group. -/
def pieces (group : ParamGroup) : List (List Char) :=
  piecesOf group.type group.names

theorem isPiece_of_mem_piecesOf {type : List Char} (htype : IsPlainType type)
    {names : List (List Char)} (h : ∀ name ∈ names, IsParamName name) :
    ∀ piece ∈ piecesOf type names, IsPiece piece := by
  induction names with
  | nil => exact fun piece hpiece => nomatch hpiece
  | cons name names ih =>
      have hname := (h name (List.mem_cons_self ..)).isPiece
      cases names with
      | nil =>
          intro piece hpiece
          obtain rfl : piece = name ++ ' ' :: type := List.mem_singleton.mp hpiece
          have hspace : Code.Undivided (' ' :: type) :=
            .char (by decide) (by decide) htype.undivided
          refine ⟨List.append_ne_nil_of_left_ne_nil hname.nonempty _, ?_, ?_⟩
          · -- the name starts the piece visibly, and the type ends it so
            have hhead := visible_of_trim hname.trimmed hname.nonempty
            have hends : type.getLast?.any (!isBlank ·) = true := by
              have hvisible : trim type ≠ [] := by
                rw [htype.trimmed]
                exact htype.nonempty
              rw [← htype.trimmed]
              exact (trim_ends hvisible).2
            have hstart : trimStart (name ++ ' ' :: type) = name ++ ' ' :: type :=
              trimStart_visible hhead _
            have hlast : (name ++ ' ' :: type).getLast?.any (!isBlank ·) = true := by
              rw [List.append_cons, List.getLast?_append_of_ne_nil _ htype.nonempty]
              exact hends
            rw [trim, hstart, trimEnd_eq_self hlast]
          · exact hname.undivided.append hspace
      | cons next more =>
          have hmore := ih fun other hother => h other (List.mem_cons_of_mem _ hother)
          intro piece hpiece
          rcases List.mem_cons.mp hpiece with rfl | hpiece
          · exact hname
          · exact hmore piece hpiece

theorem exists_named_of_piecesOf {type : List Char} (htype : IsPlainType type)
    {names : List (List Char)} (hne : names ≠ []) (h : ∀ name ∈ names, IsParamName name) :
    ∃ piece ∈ piecesOf type names, isNamedParam piece = true := by
  induction names with
  | nil => exact absurd rfl hne
  | cons name names ih =>
      cases names with
      | nil =>
          exact ⟨_, List.mem_singleton_self _,
            isNamedParam_typed (h name (List.mem_cons_self ..)) htype⟩
      | cons next more =>
          obtain ⟨piece, hpiece, hnamed⟩ := ih (List.cons_ne_nil next more)
            fun other hother => h other (List.mem_cons_of_mem _ hother)
          exact ⟨piece, List.mem_cons_of_mem _ hpiece, hnamed⟩

variable {groups : List ParamGroup}

/-- The pieces of groups are read as the parameters of all of them. -/
theorem namedParams_groups (h : ∀ group ∈ groups, group.IsWritten) :
    namedParams [] (groups.flatMap pieces) = groups.flatMap params := by
  induction groups with
  | nil => rfl
  | cons group groups ih =>
      have hgroup := h group (List.mem_cons_self ..)
      have hrest := ih fun other hother => h other (List.mem_cons_of_mem _ hother)
      have hfirst := namedParams_pieces hgroup.type hgroup.nonempty hgroup.names []
        (groups.flatMap pieces)
      rw [List.flatMap_cons, List.flatMap_cons, ← hrest]
      rw [List.nil_append, List.map_map] at hfirst
      exact hfirst

theorem intercalate_text (h : ∀ group ∈ groups, group.IsWritten) :
    [',', ' '].intercalate (groups.map text) = [',', ' '].intercalate (groups.flatMap pieces) := by
  have htexts : groups.map text = (groups.map pieces).map [',', ' '].intercalate := by
    rw [List.map_map]
    refine List.map_congr_left ?_
    intro group hgroup
    exact (intercalate_piecesOf (h group hgroup).nonempty).symm
  rw [htexts, intercalate_map_intercalate, List.flatMap_def]
  intro parts hparts
  obtain ⟨group, hgroup, rfl⟩ := List.mem_map.mp hparts
  exact piecesOf_ne_nil (h group hgroup).nonempty

/-- A list with names is read as its parameters. -/
theorem parseParams_text (h : ∀ group ∈ groups, group.IsWritten) (hne : groups ≠ [])
    {trailing : List Char} (htrailing : trailing = [] ∨ trailing = [',']) :
    parseParams ([',', ' '].intercalate (groups.map text) ++ trailing)
      = groups.flatMap params := by
  have hpieces : ∀ piece ∈ groups.flatMap pieces, IsPiece piece := by
    intro piece hpiece
    obtain ⟨group, hgroup, hpiece⟩ := List.mem_flatMap.mp hpiece
    exact isPiece_of_mem_piecesOf (h group hgroup).type (h group hgroup).names piece hpiece
  obtain ⟨first, more, rfl⟩ := List.exists_cons_of_ne_nil hne
  have hfirst := h first (List.mem_cons_self ..)
  obtain ⟨piece, hpiece, hnamed⟩ :=
    exists_named_of_piecesOf hfirst.type hfirst.nonempty hfirst.names
  have hmem : piece ∈ (first :: more).flatMap pieces :=
    List.mem_flatMap.mpr ⟨first, List.mem_cons_self .., hpiece⟩
  have hgap : AllBlank [' '] := List.forall_mem_singleton.mpr rfl
  rw [intercalate_text h, parseParams,
    splitTopLevel_pieces hgap hpieces (List.ne_nil_of_mem hmem) htrailing,
    if_pos (List.any_eq_true.mpr ⟨piece, hmem, hnamed⟩), namedParams_groups h]

end ParamGroup

/-- A list of types is read as it is, unless one of them starts like a parameter with a name. -/
theorem parseParams_plainTypes {types : List (List Char)} (h : ∀ type ∈ types, IsPlainType type)
    (hnames : ∀ type ∈ types, ¬ StartsWithName type) {gap : List Char} (hgap : AllBlank gap) :
    parseParams ((',' :: gap).intercalate types)
      = types.map fun type => ⟨"", String.ofList type⟩ := by
  by_cases hne : types = []
  · rw [hne]
    rfl
  · have hsplit := splitTopLevel_pieces hgap (fun type htype => (h type htype).isPiece) hne
      (.inl rfl)
    rw [List.append_nil] at hsplit
    have hnone : ¬ types.any isNamedParam = true := by
      intro hany
      obtain ⟨type, htype, hnamed⟩ := List.any_eq_true.mp hany
      exact hnames type htype ((isNamedParam_iff (h type htype).trimmed).mp hnamed)
    rw [parseParams, hsplit]
    exact if_neg hnone

/-- A parameter list is read as it is written: with names, each gets the type of its group, in
    order; without, the types come out with empty names. -/
theorem parseParams_written :
    (∀ groups : List ParamGroup, groups ≠ [] → (∀ group ∈ groups, group.IsWritten) →
      ∀ trailing, trailing = [] ∨ trailing = [','] →
        parseParams ([',', ' '].intercalate (groups.map (·.text)) ++ trailing)
          = groups.flatMap (·.params))
    ∧ ∀ types : List (List Char), (∀ type ∈ types, IsPlainType type ∧ ¬ StartsWithName type) →
      ∀ gap, AllBlank gap →
        parseParams ((',' :: gap).intercalate types)
          = types.map fun type => ⟨"", String.ofList type⟩ := by
  constructor
  · intro groups hne h trailing htrailing
    exact ParamGroup.parseParams_text h hne htrailing
  · intro types h gap hgap
    exact parseParams_plainTypes (fun type htype => (h type htype).1)
      (fun type htype => (h type htype).2) hgap

/-- Two names that share a type with a comma in its brackets, and one that has its own. -/
def sharedParams : List ParamGroup :=
  [⟨["a".toList, "b".toList], "func(int, K) V".toList⟩, ⟨["next".toList], "chan int".toList⟩]

theorem isWritten_sharedParams : ∀ group ∈ sharedParams, group.IsWritten := by
  have hchan : Code.Undivided "chan int".toList := .of_all (by decide)
  have hfunc : Code.Undivided "func(int, K) V".toList := by
    have hword : Code.Undivided "func".toList := .of_all (by decide)
    have hargs : Code.Balanced "int, K".toList := by
      have hfirst : Code.Undivided "int".toList := .of_all (by decide)
      have hsecond : Code.Undivided " K".toList := .of_all (by decide)
      exact hfirst.balanced.append (.char (by decide) hsecond.balanced)
    have hresult : Code.Undivided " V".toList := .of_all (by decide)
    exact hword.append (.nest (by decide) hargs hresult)
  intro group hgroup
  rcases List.mem_pair.mp hgroup with rfl | rfl
  · refine ⟨by decide, ?_, ⟨by decide, by decide, by decide, hfunc⟩⟩
    intro name hname
    rcases List.mem_pair.mp hname with rfl | rfl
    · exact ⟨by decide, by decide⟩
    · exact ⟨by decide, by decide⟩
  · refine ⟨by decide, ?_, ⟨by decide, by decide, by decide, hchan⟩⟩
    intro name hname
    obtain rfl := List.mem_singleton.mp hname
    exact ⟨by decide, by decide⟩

/-- Types that start with one of the words for types, or with a name that no blank follows. -/
def unnamedTypes : List (List Char) :=
  ["chan int".toList, "m.User".toList]

theorem isPlainType_unnamedTypes :
    ∀ type ∈ unnamedTypes, IsPlainType type ∧ ¬ StartsWithName type := by
  intro type htype
  have hplain : IsPlainType type := by
    rcases List.mem_pair.mp htype with rfl | rfl
    · exact ⟨by decide, by decide, by decide, .of_all (by decide)⟩
    · exact ⟨by decide, by decide, by decide, .of_all (by decide)⟩
  have hunnamed : isNamedParam type = false := by
    rcases List.mem_pair.mp htype with rfl | rfl
    · decide
    · decide
  refine ⟨hplain, ?_⟩
  rw [← isNamedParam_iff hplain.trimmed, hunnamed]
  exact Bool.false_ne_true

/-- Two names wait for a type with a comma in it, and a list of types is read as types. -/
theorem parseParams_written_shared :
    sharedParams ≠ [] ∧ (∀ group ∈ sharedParams, group.IsWritten)
      ∧ parseParams ([',', ' '].intercalate (sharedParams.map (·.text)) ++ [','])
        = sharedParams.flatMap (·.params)
      ∧ (∀ type ∈ unnamedTypes, IsPlainType type ∧ ¬ StartsWithName type)
      ∧ AllBlank [' ']
      ∧ parseParams ([',', ' '].intercalate unnamedTypes)
        = unnamedTypes.map fun type => ⟨"", String.ofList type⟩ := by
  have hne : sharedParams ≠ [] := List.cons_ne_nil _ _
  have hgap : AllBlank [' '] := List.forall_mem_singleton.mpr rfl
  exact ⟨hne, isWritten_sharedParams,
    parseParams_written.1 sharedParams hne isWritten_sharedParams _ (.inr rfl),
    isPlainType_unnamedTypes, hgap,
    parseParams_written.2 unnamedTypes isPlainType_unnamedTypes _ hgap⟩

end ServiceWiring
