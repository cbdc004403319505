import ServiceWiring.Proofs.ConfigArgument

/-!
# Accepted directives

What holds of every directive that can be read, in whichever form it was written.  The checks look
at the texts behind trimming, splitting and upper-casing, so it holds of what later stages see.

* `IsServiceName`, `IsMountPath`, `IsListItem` — the parts of a directive;
* `RouteSpec.WellFormed`, `Directive.WellFormed` — whole directives;
* `Directive.MadeFrom.wellFormed` — one case for each kind of directive;
* `Directive.wellFormed_of_parse?` — the bodies that can be read.
-/

namespace ServiceWiring

open Text

/-! ## The parts of a directive -/

/-- A name that a service can be given: some characters, no double quote, backslash or blank among
    them. -/
def IsServiceName (name : String) : Prop :=
  name ≠ "" ∧ ∀ c ∈ name.toList, c ≠ '"' ∧ c ≠ '\\' ∧ isBlank c = false

/-- A path that a router can be mounted at: none, or one that starts with a slash and does not end
    with one. -/
def IsMountPath (path : String) : Prop :=
  path = "" ∨ path.toList.head? = some '/' ∧ path.toList.getLast? ≠ some '/'

/-- An item of a comma-separated list: some characters, trimmed, no comma among them. -/
def IsListItem (item : String) : Prop :=
  item ≠ "" ∧ trimmed item = item ∧ ',' ∉ item.toList

/-- A configuration value that can be looked up and taken apart. -/
structure ConfigSpec.WellFormed (spec : ConfigSpec) : Prop where
  key : trimmed spec.key ≠ ""
  separator : spec.separator ≠ ""

/-- A route that can be served. -/
structure RouteSpec.WellFormed (spec : RouteSpec) : Prop where
  method : spec.method ∈ Directive.httpMethods
  path : spec.path.toList.head? = some '/'
  middleware : ∀ item ∈ spec.middleware, IsListItem item

/-- What later stages may rely on.  The name of a dependency can be any text. -/
def Directive.WellFormed : Directive → Prop
  | .service name => ∀ n, name = some n → IsServiceName n
  | .router name mountPath => (∀ n, name = some n → IsServiceName n) ∧ IsMountPath mountPath
  | .inject _ => True
  | .config spec => spec.WellFormed
  | .route spec => spec.WellFormed

namespace Directive

variable {kind : DirectiveKind} {args : Arguments} {d : Directive} {body : List Char}

theorem ne_empty_of_toList {s : String} (h : s.toList.isEmpty = false) : s ≠ "" := by
  rintro rfl
  cases h

/-! ## The checks -/

theorem isServiceName_of_checkName {name checked : Option String} (h : checkName name = .ok checked)
    (n : String) (hn : checked = some n) : IsServiceName n := by
  unfold checkName at h
  split at h
  · rename_i given
    split at h
    · cases h
    · rename_i hempty
      split at h
      · cases h
      · rename_i hclean
        obtain rfl : given = n := Option.some.inj ((Except.ok.inj h).trans hn)
        refine ⟨ne_empty_of_toList (Bool.eq_false_iff.mpr hempty), ?_⟩
        intro c hc
        have hchar := List.any_eq_false.mp (Bool.eq_false_iff.mpr hclean) c hc
        simp only [Bool.or_eq_true, beq_iff_eq, not_or, Bool.not_eq_true] at hchar
        exact ⟨hchar.1.1, hchar.1.2, hchar.2⟩
  · rw [← Except.ok.inj h] at hn
    cases hn

/-- A text without its trailing slashes does not end with one. -/
theorem getLast?_trimEndWhere (p : Char → Bool) (cs : List Char) {c : Char}
    (h : (trimEndWhere p cs).getLast? = some c) : p c = false := by
  have hfirst := List.head?_dropWhile_not p cs.reverse
  rw [trimEndWhere, List.getLast?_reverse] at h
  rw [h] at hfirst
  exact hfirst

theorem isMountPath_of_check (h : checkMountPath (mountPathOf args) = .ok ()) :
    IsMountPath (mountPathOf args) := by
  unfold checkMountPath at h
  split at h
  · rename_i hcheck
    rw [Bool.or_eq_true, beq_iff_eq] at hcheck
    rcases hcheck with hempty | hslash
    · exact Or.inl (String.toList_eq_nil_iff.mp (List.isEmpty_iff.mp hempty))
    · refine Or.inr ⟨hslash, ?_⟩
      unfold mountPathOf
      split
      · rw [String.toList_ofList]
        intro hlast
        exact absurd (getLast?_trimEndWhere _ _ hlast) (by decide)
      · exact nofun
  · cases h

theorem isListItem_of_mem_splitList {text : List Char} {item : String} (h : item ∈ splitList text) :
    IsListItem item := by
  obtain ⟨part, hpart, rfl⟩ := List.mem_map.mp h
  obtain ⟨hpart, hvisible⟩ := List.mem_filter.mp hpart
  obtain ⟨written, hwritten, rfl⟩ := List.mem_map.mp hpart
  refine ⟨ne_empty_of_toList ?_, ?_, ?_⟩
  · rw [String.toList_ofList]
    simpa using hvisible
  · rw [trimmed, String.toList_ofList, trim_trim]
  · rw [String.toList_ofList]
    intro hcomma
    exact absurd (not_mem_splitWhere hwritten _ (trim_subset written hcomma)) (by decide)

/-- The middleware of a route, in both forms, comes from comma-separated lists. -/
theorem isListItem_of_routeParts {spec : RouteSpec} (h : routeParts args = .ok spec) :
    ∀ item ∈ spec.middleware, IsListItem item := by
  intro item hitem
  unfold routeParts at h
  split at h
  · cases h
  · -- by position the lists stand behind the path and in the further arguments
    split at h
    · rw [← Except.ok.inj h] at hitem
      rcases List.mem_append.mp hitem with hitem | hitem
      · obtain ⟨text, -, hitem⟩ := List.mem_flatMap.mp hitem
        exact isListItem_of_mem_splitList hitem
      · obtain ⟨value, -, hitem⟩ := List.mem_flatMap.mp hitem
        exact isListItem_of_mem_splitList hitem
    · cases h
  · split at h
    · cases h
    · cases h
    · rw [← Except.ok.inj h] at hitem
      dsimp only at hitem
      cases hmiddleware : textOf? _ "middleware" with
      | none =>
          rw [hmiddleware] at hitem
          cases hitem
      | some text =>
          rw [hmiddleware] at hitem
          exact isListItem_of_mem_splitList hitem

theorem wellFormed_of_checkRoute {spec checked : RouteSpec}
    (hmiddleware : ∀ item ∈ spec.middleware, IsListItem item)
    (h : checkRoute spec = .ok checked) : checked.WellFormed := by
  unfold checkRoute at h
  dsimp only at h
  split at h
  · cases h
  · rename_i hmethod
    split at h
    · cases h
    · rename_i hpath
      rw [← Except.ok.inj h]
      refine ⟨?_, ?_, hmiddleware⟩
      · simpa using hmethod
      · simpa using hpath

/-! ## Directives that can be read -/

theorem MadeFrom.wellFormed (h : MadeFrom args kind d) : d.WellFormed := by
  cases h with
  | service _ _ hname => exact isServiceName_of_checkName hname
  | router _ _ hpath hname => exact ⟨isServiceName_of_checkName hname, isMountPath_of_check hpath⟩
  | inject _ _ => trivial
  | config _ hspec hkey =>
      refine ⟨ne_empty_of_toList ?_, ?_⟩
      · rw [trimmed, String.toList_ofList]
        exact hkey
      · intro hseparator
        exact (takenFrom_of_configSpec hspec).separates (String.toList_eq_nil_iff.mpr hseparator)
  | route _ hparts hspec => exact wellFormed_of_checkRoute (isListItem_of_routeParts hparts) hspec

/-- A directive that can be read is well-formed. -/
theorem wellFormed_of_parse? (h : parse? body = .ok (some (d, args))) : d.WellFormed :=
  (madeFrom_of_parse? h).wellFormed

end Directive

end ServiceWiring
