import ServiceWiring.Proofs.Nesting
import ServiceWiring.Proofs.ResultText

/-!
# Method declarations

A method declaration starts with its receiver, its name and its parameters, and goes on to the
brace of its body.  Its line is read as these parts, whatever the body holds and however many
lines follow.

* `MethodHeader` — the head of a method declaration, up to the brace of its body;
* `MethodHeader.parseFunction?_text` — a signature that starts with a head is read as its parts;
* `MethodHeader.declares_iff` — what a line with a head declares;
* `SourceFile.indexesMethod_iff` — which method declarations are indexed with their result types.
-/

namespace ServiceWiring

open Text

/-! ## Signatures -/

/-- An identifier. -/
structure IsName (name : List Char) : Prop where
  nonempty : name ≠ []
  nameChars : ∀ c ∈ name, isNameChar c = true

namespace IsName

variable {name : List Char}

theorem not_blank (h : IsName name) : ∀ c ∈ name, isBlank c = false := by
  intro c hc
  rw [← Bool.not_eq_true]
  intro hblank
  have hother := isNameChar_of_isBlank hblank
  rw [h.nameChars c hc] at hother
  cases hother

theorem readsAs (h : IsName name) : Code.ReadsAs name name :=
  .plain fun c hc => Code.isPlain_of_isNameChar (h.nameChars c hc)

theorem trimStart_append (h : IsName name) (rest : List Char) :
    trimStart (name ++ rest) = name ++ rest := by
  refine trimStart_visible ?_ rest
  cases name with
  | nil => exact absurd rfl h.nonempty
  | cons c cs =>
      show (!isBlank c) = true
      rw [h.not_blank c (List.mem_cons_self ..)]
      rfl

end IsName

/-- The head of a method declaration, as it is written. -/
structure MethodHeader where
  /-- The variable of the receiver. -/
  self : List Char
  /-- The type of the receiver. -/
  receiver : List Char
  name : List Char
  params : List Char
  results : ResultText

namespace MethodHeader

variable {header : MethodHeader}

/-- The text of a receiver, without its parentheses. -/
def receiverText (header : MethodHeader) : List Char :=
  header.self ++ ' ' :: '*' :: header.receiver

/-- The text of a head, up to the brace of the body. -/
def text (header : MethodHeader) : List Char :=
  ['f', 'u', 'n', 'c', ' ', '('] ++ (header.receiverText ++ ([')', ' '] ++ (header.name ++ (['('] ++
    (header.params ++ ([')', ' '] ++ (header.results.text ++ ['\x7b'])))))))

/-- The code of a head. -/
def code (header : MethodHeader) : MethodHeader :=
  { header with params := Code.ofText header.params, results := header.results.code }

/-- Names are identifiers, and the code of the parameters has its brackets closed. -/
structure IsWritten (header : MethodHeader) : Prop where
  self : IsName header.self
  receiver : IsName header.receiver
  name : IsName header.name
  params : Code.IsWhole header.params ∧ Code.Balanced (Code.ofText header.params)
  results : header.results.IsWritten

theorem receiverType?_receiverText (hself : IsName header.self)
    (hreceiver : IsName header.receiver) :
    receiverType? header.receiverText = some (String.ofList header.receiver) := by
  have hwords : words header.receiverText = [header.self, '*' :: header.receiver] := by
    have hstar : ∀ c ∈ '*' :: header.receiver, isBlank c = false := by
      intro c hc
      rcases List.mem_cons.mp hc with rfl | hc
      · rfl
      · exact hreceiver.not_blank c hc
    rw [words, receiverText, splitWhere_append_cons rfl, splitWhere_eq_singleton hself.not_blank,
      splitWhere_eq_singleton hstar]
    simp [hself.nonempty]
  have hstars : trimStartWhere (· == '*') ('*' :: header.receiver) = header.receiver := by
    show header.receiver.dropWhile (· == '*') = header.receiver
    cases hcases : header.receiver with
    | nil => rfl
    | cons c cs =>
        refine List.dropWhile_cons_of_neg ?_
        rw [beq_iff_eq]
        rintro rfl
        cases hreceiver.nameChars '*' (by simp [hcases])
  have hbase : header.receiver.takeWhile (· != '[') = header.receiver := by
    refine List.takeWhile_eq_self_iff.mpr (bne_of_not_mem fun hbracket => ?_)
    cases hreceiver.nameChars _ hbracket
  rw [receiverType?, hwords, List.getLast?_cons_cons, List.getLast?_singleton]
  dsimp only
  rw [hstars, hbase, if_neg (by simpa using hreceiver.nonempty)]

theorem balanced_receiverText (hself : IsName header.self) (hreceiver : IsName header.receiver) :
    Code.Balanced header.receiverText := by
  have hself := (Code.Undivided.nameChars hself.nameChars).balanced
  have hreceiver := (Code.Undivided.nameChars hreceiver.nameChars).balanced
  exact hself.append (.char (by decide) (.char (by decide) hreceiver))

theorem IsWritten.readsAs (h : header.IsWritten) : Code.ReadsAs header.text header.code.text := by
  have hreceiver : Code.ReadsAs header.receiverText header.receiverText := by
    have hstar : Code.ReadsAs [' ', '*'] [' ', '*'] := .of_all (by decide)
    exact h.self.readsAs.append (hstar.append h.receiver.readsAs)
  refine Code.ReadsAs.append ?_ (hreceiver.append (.append ?_ (h.name.readsAs.append (.append ?_
    (h.params.1.append (.append ?_ (h.results.readsAs.append ?_)))))))
  all_goals exact .of_all (by decide)

/-- A head is read as its parts, whatever the first lines of the body hold. -/
theorem parseFunction?_text (header : MethodHeader) (hself : IsName header.self)
    (hreceiver : IsName header.receiver) (hname : IsName header.name)
    (hparams : Code.Balanced header.params) (tail : List Char) (line : Nat) :
    parseFunction? (header.text ++ tail) line
      = (parseResults? (' ' :: (header.results.text ++ '\x7b' :: tail))).map fun results => {
          name := String.ofList header.name
          kind := .method
          line
          receiver := some (String.ofList header.receiver)
          params := parseParams header.params
          results } := by
  have hsplit : header.text ++ tail = "func".toList ++ ' ' :: '(' :: (header.receiverText ++
      ')' :: ' ' :: (header.name ++ '(' :: (header.params ++
        ')' :: ' ' :: (header.results.text ++ '\x7b' :: tail)))) := by
    simp only [text, List.append_assoc]
    rfl
  -- the results are read as one text: nothing in front of them looks into it
  generalize hresults : ' ' :: (header.results.text ++ '\x7b' :: tail) = results at hsplit ⊢
  have hafter : after? "func".toList (header.text ++ tail) = some (' ' :: '(' ::
      (header.receiverText ++ ')' :: ' ' :: (header.name ++ '(' :: (header.params ++
        ')' :: results)))) := by
    rw [hsplit]
    exact after?_eq_some_iff.mpr rfl
  have hstart : splitReceiver? ('(' :: (header.receiverText ++ ')' :: ' ' :: (header.name ++
      '(' :: (header.params ++ ')' :: results))))
      = some (some (String.ofList header.receiver),
        header.name ++ '(' :: (header.params ++ ')' :: results)) := by
    rw [splitReceiver?, List.head?_cons, if_pos rfl,
      (balanced_receiverText hself hreceiver).takeBracketed]
    show (receiverType? header.receiverText).bind _ = _
    rw [receiverType?_receiverText hself hreceiver]
    show some (_, trimStart (header.name ++ _)) = _
    rw [hname.trimStart_append]
  have hopen : ('(' :: (header.params ++ ')' :: results)).head?.all (!isNameChar ·) = true := rfl
  unfold parseFunction?
  rw [hafter]
  show (splitReceiver? ('(' :: _)).bind _ = _
  rw [hstart]
  dsimp only [Option.bind_some]
  rw [takeWhile_run hname.nameChars hopen, dropWhile_run hname.nameChars hopen,
    if_neg (by simpa using hname.nonempty)]
  show (takeBracketed '(' ')' ('(' :: (header.params ++ ')' :: results))).bind _ = _
  rw [hparams.takeBracketed]
  show (parseResults? results).bind _ = _
  cases parseResults? results with
  | none => rfl
  | some types => rfl

end MethodHeader

/-! ## Reading the line of a method -/

theorem signatureText_prefix (limit : Nat) (parens : Int) (text : List Char)
    (lines : List (List Char)) : text <+: signatureText limit parens text lines := by
  induction limit generalizing parens text lines with
  | zero => exact List.prefix_refl _
  | succ limit ih =>
      cases lines with
      | nil => exact List.prefix_refl _
      | cons line lines =>
          rw [signatureText]
          have hline : text <+: if text.isEmpty then trim line else text ++ ' ' :: trim line := by
            cases text with
            | nil => exact List.nil_prefix
            | cons c cs => exact List.prefix_append _ _
          split
          · exact hline
          · exact hline.trans (ih _ _ _)

/-- The text of a signature starts with its first line. -/
theorem exists_signatureText (code : List Char) (following : List (List Char)) :
    ∃ more, signatureText maxSignatureLines 0 [] (code :: following) = trim code ++ more := by
  rw [maxSignatureLines, signatureText, List.isEmpty_nil, if_pos rfl]
  split
  · exact ⟨[], (List.append_nil _).symm⟩
  · obtain ⟨more, hmore⟩ := signatureText_prefix 31 _ (trim code) following
    exact ⟨more, hmore.symm⟩

theorem readTopLevel_func {code rest : List Char} (h : trim code = "func".toList ++ ' ' :: rest)
    (line : Nat) (raw : List Char) (following : List (List Char)) :
    (readTopLevel line raw code following).1.declaration
      = parseFunction? (signatureText maxSignatureLines 0 [] (code :: following)) line := by
  have hkeyword : (trim code).takeWhile isNameChar = "func".toList := by
    rw [h]
    rfl
  unfold readTopLevel
  rw [hkeyword]
  rfl

theorem kind_of_parseTypeSpec? {spec : List Char} {line : Nat} {d : Declaration}
    (h : parseTypeSpec? spec line = some d) : d.kind ≠ .method := by
  unfold parseTypeSpec? at h
  split at h
  · cases h
  · rw [← Option.some.inj h]
    dsimp only
    split
    · decide
    · split
      · decide
      · split <;> decide

/-- No method is declared in a group. -/
theorem kind_of_group {group : Group} {line : Nat} {raw code : List Char}
    {following : List (List Char)} {d : Declaration}
    (h : (readAtDepthZero (some group) line raw code following).1.declaration = some d) :
    d.kind ≠ .method := by
  unfold readAtDepthZero at h
  dsimp only at h
  split at h
  · cases h
  · split at h
    · cases h
    · exact kind_of_parseTypeSpec? h
    · cases h

namespace MethodHeader

variable {header : MethodHeader}

/-- The method of a head, with the parameters that are read from it. -/
def method (header : MethodHeader) (line : Nat) (params : List Param) : Declaration where
  name := String.ofList header.name
  kind := .method
  line
  receiver := some (String.ofList header.receiver)
  params
  results := header.results.types.map String.ofList

theorem trim_text (header : MethodHeader) (tail : List Char) :
    trim (header.text ++ tail) = header.text ++ trimEnd tail := by
  have hstart : trimStart (header.text ++ tail) = header.text ++ tail := rfl
  have hlast : header.text.getLast?.any (!isBlank ·) = true := by
    simp only [text, ← List.append_assoc, List.getLast?_concat]
    rfl
  rw [trim, hstart, trimEnd_append hlast]

/-- A line at depth zero that starts with a head declares the method, with the types of its
    results, unless a group is open or one of the types is not read as it is written. -/
theorem declares_iff (h : header.IsWritten) {nesting : Nesting} (hdepth : nesting.depth = 0)
    (tail : List Char) (line : Nat) (raw : List Char) (following : List (List Char)) :
    (∃ params, (nesting.read line raw (header.code.text ++ tail) following).1.declaration
        = some (header.method line params))
      ↔ nesting.group = none
        ∧ ∀ type ∈ header.results.types, header.results.ReadsBack type := by
  have htrim := header.code.trim_text tail
  have hne : trim (header.code.text ++ tail) ≠ [] := by
    rw [htrim]
    exact List.cons_ne_nil _ _
  rw [(Nesting.read_of_readsAtZero ⟨hdepth, hne⟩ line raw following).1]
  cases nesting.group with
  | some group =>
      -- a line of a group declares no method
      constructor
      · rintro ⟨params, hread⟩
        exact absurd rfl (kind_of_group hread)
      · rintro ⟨hgroup, -⟩
        cases hgroup
  | none =>
      obtain ⟨more, hmore⟩ := exists_signatureText (header.code.text ++ tail) following
      have hread :
          (readAtDepthZero none line raw (header.code.text ++ tail) following).1.declaration
            = parseFunction? (header.code.text ++ (trimEnd tail ++ more)) line := by
        show (readTopLevel _ _ _ _).1.declaration = _
        rw [readTopLevel_func htrim, hmore, htrim, List.append_assoc]
      rw [hread, header.code.parseFunction?_text h.self h.receiver h.name h.params.2,
        ← ResultText.parseResults?_iff h.results (trimEnd tail ++ more)]
      constructor
      · rintro ⟨params, hmethod⟩
        obtain ⟨results, hresults, hmethod⟩ := Option.map_eq_some_iff.mp hmethod
        refine ⟨rfl, hresults.trans (congrArg some ?_)⟩
        exact congrArg Declaration.results hmethod
      · rintro ⟨-, hresults⟩
        exact ⟨_, Option.map_eq_some_iff.mpr ⟨_, hresults, rfl⟩⟩

end MethodHeader

/-! ## Methods in a file -/

namespace SourceFile

variable {header : MethodHeader} {path : Path} {content : String} {front back : List (List Char)}
  {body : List Char}

/-- The index of a file holds the method of a head on a line, with its receiver and the types of
    its results. -/
def IndexesMethod (file : SourceFile) (line : Nat) (header : MethodHeader) : Prop :=
  ∃ params, file.index.declarationAt? line = some (header.method line params)

/-- A method declaration at the top level is indexed with the types of its results exactly if no
    group is open in front of it, and every one of the types is read as it is written. -/
theorem indexesMethod_iff (hheader : header.IsWritten)
    (hlines : Text.lines content.toList = front ++ (header.text ++ body) :: back)
    (hstate : Code.stateBehind .code front = .code)
    (hdepth : Code.braceDepth (Code.ofLines front) = 0) :
    (parse path content).IndexesMethod (front.length + 1) header
      ↔ (({} : Nesting).behind (Code.ofLines front)).group = none
        ∧ ∀ type ∈ header.results.types, header.results.ReadsBack type := by
  -- the line as it is written, and as code behind the lines in front of it
  have hraw : (Text.lines content.toList)[front.length]? = some (header.text ++ body) := by
    rw [hlines, List.getElem?_append_right (Nat.le_refl _), Nat.sub_self]
    rfl
  have hcode : (Code.ofLines (Text.lines content.toList))[front.length]?
      = some (header.code.text ++ (Code.ofLine .code body).1) := by
    rw [Code.ofLines, Code.getElem?_ofLinesFrom, hraw, hlines, List.take_left, hstate,
      Option.map_some, hheader.readsAs]
  have hfront : (Code.ofLines (Text.lines content.toList)).take front.length
      = Code.ofLines front := by
    rw [hlines, Code.ofLines, Code.ofLinesFrom_append, List.take_left']
    · rfl
    · exact Code.length_ofLinesFrom _ _
  have hzero : (({} : Nesting).behind (Code.ofLines front)).depth = 0 := by
    rw [Nesting.depth_behind, hdepth]
    rfl
  rw [IndexesMethod, declarationAt?_parse, if_neg (Nat.succ_ne_zero _), Nat.add_sub_cancel,
    getElem?_facts hraw hcode, hfront]
  exact MethodHeader.declares_iff hheader hzero _ _ _ _

/-- A method with a list of results. -/
def listingMethod : MethodHeader where
  self := "r".toList
  receiver := "T".toList
  name := "Load".toList
  params := "ids []int".toList
  results := .listed [⟨[], "map[int]string".toList, []⟩, ⟨[' '], "error".toList, []⟩]

theorem isWritten_listingMethod : listingMethod.IsWritten where
  self := ⟨by decide, List.all_eq_true.mp (by decide)⟩
  receiver := ⟨by decide, List.all_eq_true.mp (by decide)⟩
  name := ⟨by decide, List.all_eq_true.mp (by decide)⟩
  params := by
    have hread : Code.ReadsAs "ids []int".toList "ids []int".toList := .of_all (by decide)
    refine ⟨hread.isWhole, ?_⟩
    rw [listingMethod, hread.ofText_eq]
    have hname : Code.Undivided "ids ".toList := .of_all (by decide)
    have htype : Code.Undivided "int".toList := .of_all (by decide)
    exact hname.balanced.append (.nest (by decide) .nil htype.balanced)
  results := by
    have hmap : Code.Undivided "map[int]string".toList := by
      have hword : Code.Undivided "map".toList := .of_all (by decide)
      have hkey : Code.Undivided "int".toList := .of_all (by decide)
      have hvalue : Code.Undivided "string".toList := .of_all (by decide)
      exact hword.append (.nest (by decide) hkey.balanced hvalue)
    have herror : Code.Undivided "error".toList := .of_all (by decide)
    intro item hitem
    rcases List.mem_pair.mp hitem with rfl | rfl
    · exact ⟨AllBlank.nil, AllBlank.nil, .of_all (by decide) hmap rfl (by decide)⟩
    · have hgap : AllBlank [' '] := List.all_eq_true.mp (by decide)
      exact ⟨hgap, AllBlank.nil, .of_all (by decide) herror rfl (by decide)⟩

/-- A source with this method. -/
def listingText : String :=
  "package svc\n\nfunc (r *T) Load(ids []int) (map[int]string, error) \x7b return nil, nil \x7d\n"

/-- Types without braces are indexed. -/
theorem indexesMethod_listing :
    listingMethod.IsWritten
      ∧ Text.lines listingText.toList = ["package svc".toList, []]
        ++ (listingMethod.text ++ " return nil, nil \x7d".toList) :: []
      ∧ (parse ⟨"svc/a.go"⟩ listingText).IndexesMethod 3 listingMethod := by
  have hlines : Text.lines listingText.toList = ["package svc".toList, []]
      ++ (listingMethod.text ++ " return nil, nil \x7d".toList) :: [] := by
    decide +kernel
  refine ⟨isWritten_listingMethod, hlines, ?_⟩
  refine (indexesMethod_iff isWritten_listingMethod hlines (by decide) (by decide)).mpr
    ⟨by decide, ?_⟩
  intro type htype
  have hnamed : isNamedParam type = false := by
    revert type
    decide
  have htrim : trim type = type := by
    revert type
    decide
  refine ⟨?_, ?_, fun _ hname => ?_⟩
  · revert type
    decide
  · revert type
    decide
  · rw [← isNamedParam_iff htrim, hnamed] at hname
    cases hname

/-- A method whose result is an empty interface. -/
def interfaceMethod : MethodHeader where
  self := "r".toList
  receiver := "T".toList
  name := "Get".toList
  params := "id int".toList
  results := .bare "interface\x7b\x7d".toList

theorem isWritten_interfaceMethod : interfaceMethod.IsWritten where
  self := ⟨by decide, List.all_eq_true.mp (by decide)⟩
  receiver := ⟨by decide, List.all_eq_true.mp (by decide)⟩
  name := ⟨by decide, List.all_eq_true.mp (by decide)⟩
  params := by
    have hread : Code.ReadsAs "id int".toList "id int".toList := .of_all (by decide)
    refine ⟨hread.isWhole, ?_⟩
    rw [interfaceMethod, hread.ofText_eq]
    exact (Code.Undivided.of_all (by decide)).balanced
  results := by
    have hword : Code.Undivided "interface".toList := .of_all (by decide)
    have htype : Code.Undivided "interface\x7b\x7d".toList :=
      hword.append (.nest (by decide) .nil .nil)
    exact ⟨.of_all (by decide) htype rfl (by decide), by decide⟩

/-- A source with this method. -/
def interfaceText : String :=
  "package svc\n\nfunc (r *T) Get(id int) interface\x7b\x7d \x7b\n\treturn nil\n\x7d\n"

/-- A method with an empty interface as its result is indexed with a result that is cut. -/
theorem not_indexesMethod_of_interface : ¬ ∀ (header : MethodHeader) (path : Path)
    (content : String) (front back : List (List Char)) (body : List Char), header.IsWritten →
      Text.lines content.toList = front ++ (header.text ++ body) :: back →
      Code.stateBehind .code front = .code → Code.braceDepth (Code.ofLines front) = 0 →
      (parse path content).IndexesMethod (front.length + 1) header := by
  intro h
  obtain ⟨params, hindexed⟩ := h interfaceMethod ⟨"svc/a.go"⟩ interfaceText
    ["package svc".toList, []] ["\treturn nil".toList, "\x7d".toList] []
    isWritten_interfaceMethod (by decide +kernel) (by decide) (by decide)
  have hcut : ((parse ⟨"svc/a.go"⟩ interfaceText).index.declarationAt? 3).map (·.results)
      = some ["interface"] := by
    decide +kernel
  have hresults : some ["interface"] = some ["interface\x7b\x7d"] :=
    hcut.symm.trans (congrArg (Option.map (·.results)) hindexed)
  exact absurd hresults (by decide)

end SourceFile

end ServiceWiring
