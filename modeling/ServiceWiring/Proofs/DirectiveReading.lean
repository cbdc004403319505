import ServiceWiring.Directive.Basic
import ServiceWiring.Proofs.Text

/-!
# Reading directives

What an accepted directive was made of: the values that its arguments give, and the checks that
they have passed.  Whatever holds of accepted directives follows by cases on it.

* `Directive.onLine?` — the directive on a line, as the line is read;
* `Directive.knownName?_eq`, `hasDirectives_eq`, `hasMarker_eq` — the names that a text is looked
  through for are those of the directives;
* `Directive.MadeFrom` — one case for each kind of directive;
* `Directive.madeFrom_of_resolve` — every accepted directive was made that way;
* `Directive.parse?_eq_some_iff` — the bodies that are directives.
-/

namespace ServiceWiring

/-! ## Names -/

theorem DirectiveKind.ofName?_eq_some_iff {name : String} {kind : DirectiveKind} :
    ofName? name = some kind ↔ name = kind.label := by
  constructor
  · intro h
    unfold ofName? at h
    split at h <;> cases h <;> rfl
  · rintro rfl
    cases kind <;> rfl

namespace Directive

variable {kind : DirectiveKind} {args : Arguments} {d : Directive} {body : List Char}

/-- The directive on a line, if it holds one of ours. -/
def onLine? (line : List Char) : Option DirectiveKind :=
  match LineClass.ofLine line with
  | .directive body => kindOf? body
  | _ => none

/-- The name that a directive is written with. -/
theorem nameOf_of_kindOf? (h : kindOf? body = some kind) :
    String.ofList (nameOf body) = kind.label :=
  DirectiveKind.ofName?_eq_some_iff.mp h

/-- The known names are those of the directives. -/
theorem mem_knownNames_iff {name : String} :
    name ∈ knownNames ↔ ∃ kind, DirectiveKind.ofName? name = some kind := by
  simp only [DirectiveKind.ofName?_eq_some_iff]
  constructor
  · intro h
    simp only [knownNames, List.mem_cons, List.not_mem_nil, or_false] at h
    rcases h with rfl | rfl | rfl | rfl | rfl
    · exact ⟨.service, rfl⟩
    · exact ⟨.router, rfl⟩
    · exact ⟨.inject, rfl⟩
    · exact ⟨.config, rfl⟩
    · exact ⟨.route, rfl⟩
  · rintro ⟨kind, rfl⟩
    cases kind <;> decide

/-- The names of the markers are those of the directives that turn a struct into a service. -/
theorem label_mem_markerNames_iff : kind.label ∈ markerNames ↔ kind.isMarker = true := by
  cases kind <;> decide

/-- The name that is found in the table is that of the directive as which it is read. -/
theorem find?_knownNames (name : String) :
    knownNames.find? (fun known => known == name)
      = (DirectiveKind.ofName? name).map (·.label) := by
  cases hkind : DirectiveKind.ofName? name with
  | none =>
      refine List.find?_eq_none.mpr fun known hknown hname => ?_
      obtain ⟨kind, hknown⟩ := mem_knownNames_iff.mp hknown
      rw [eq_of_beq hname, hkind] at hknown
      cases hknown
  | some kind =>
      rw [DirectiveKind.ofName?_eq_some_iff.mp hkind]
      cases kind <;> decide

theorem knownName?_eq (line : List Char) : knownName? line = (onLine? line).map (·.label) := by
  unfold knownName? onLine?
  cases LineClass.ofLine line with
  | directive body => exact find?_knownNames _
  | sample => rfl
  | prose => rfl
  | code => rfl

end Directive

theorem hasDirectives_eq (content : String) : hasDirectives content
    = (Text.lines content.toList).any fun line => (Directive.onLine? line).isSome := by
  unfold hasDirectives
  simp only [Directive.knownName?_eq, Option.isSome_map]

theorem hasMarker_eq (content : String) : hasMarker content
    = (Text.lines content.toList).any fun line => (Directive.onLine? line).any (·.isMarker) := by
  unfold hasMarker
  rw [List.any_filterMap]
  congr 1
  funext line
  rw [Directive.knownName?_eq]
  cases Directive.onLine? line with
  | none => rfl
  | some kind =>
      show Directive.markerNames.contains kind.label = kind.isMarker
      rw [Bool.eq_iff_iff, List.contains_iff_mem, Directive.label_mem_markerNames_iff]

/-! ## Directives -/

namespace Directive

variable {kind : DirectiveKind} {args : Arguments} {d : Directive} {body : List Char}

/-- What a directive of a kind was made of. -/
inductive MadeFrom (args : Arguments) : DirectiveKind → Directive → Prop where
  | service {given name : Option String}
      (hkeys : checkKeys .service ["name"] args = .ok ())
      (hgiven : nameArgument .service "a service name" args = .ok given)
      (hname : checkName given = .ok name) : MadeFrom args .service (.service name)
  | router {given name : Option String}
      (hkeys : checkKeys .router ["name", "prefix"] args = .ok ())
      (hgiven : nameArgument .router "a service name" args = .ok given)
      (hpath : checkMountPath (mountPathOf args) = .ok ())
      (hname : checkName given = .ok name) :
      MadeFrom args .router (.router name (mountPathOf args))
  | inject {name : Option String}
      (hkeys : checkKeys .inject ["name"] args = .ok ())
      (hname : nameArgument .inject "a dependency name" args = .ok name) :
      MadeFrom args .inject (.inject name)
  | config {spec : ConfigSpec}
      (hkeys : checkKeys .config ["key", "default", "required", "sep"] args = .ok ())
      (hspec : configSpec args = .ok spec) (hkey : (Text.trim spec.key.toList).isEmpty = false) :
      MadeFrom args .config (.config spec)
  | route {parts spec : RouteSpec}
      (hkeys : checkKeys .route ["method", "path", "middleware"] args = .ok ())
      (hparts : routeParts args = .ok parts) (hspec : checkRoute parts = .ok spec) :
      MadeFrom args .route (.route spec)

theorem madeFrom_of_resolve (h : resolve kind args = .ok d) : MadeFrom args kind d := by
  cases kind with
  | service =>
      obtain ⟨_, hkeys, h⟩ := bind_eq_ok h
      obtain ⟨given, hgiven, h⟩ := bind_eq_ok h
      obtain ⟨name, hname, h⟩ := bind_eq_ok h
      rw [← Except.ok.inj h]
      exact .service hkeys hgiven hname
  | router =>
      obtain ⟨_, hkeys, h⟩ := bind_eq_ok h
      obtain ⟨given, hgiven, h⟩ := bind_eq_ok h
      obtain ⟨_, hpath, h⟩ := bind_eq_ok h
      obtain ⟨name, hname, h⟩ := bind_eq_ok h
      rw [← Except.ok.inj h]
      exact .router hkeys hgiven hpath hname
  | inject =>
      obtain ⟨_, hkeys, h⟩ := bind_eq_ok h
      obtain ⟨name, hname, h⟩ := bind_eq_ok h
      rw [← Except.ok.inj h]
      exact .inject hkeys hname
  | config =>
      obtain ⟨_, hkeys, h⟩ := bind_eq_ok h
      obtain ⟨spec, hspec, h⟩ := bind_eq_ok h
      split at h
      · cases h
      · rename_i hkey
        rw [← Except.ok.inj h]
        exact .config hkeys hspec (Bool.eq_false_iff.mpr hkey)
  | route =>
      obtain ⟨_, hkeys, h⟩ := bind_eq_ok h
      obtain ⟨parts, hparts, h⟩ := bind_eq_ok h
      obtain ⟨spec, hspec, h⟩ := bind_eq_ok h
      rw [← Except.ok.inj h]
      exact .route hkeys hparts hspec

theorem MadeFrom.kind_eq (h : MadeFrom args kind d) : d.kind = kind := by
  cases h with
  | service _ _ _ => rfl
  | router _ _ _ _ => rfl
  | inject _ _ => rfl
  | config _ _ _ => rfl
  | route _ _ _ => rfl

/-- A body is a directive if its name is one and its arguments can be read and accepted. -/
theorem parse?_eq_some_iff :
    parse? body = .ok (some (d, args)) ↔ kindOf? body = some d.kind ∧
      Arguments.parse (body.dropWhile Text.isNameChar) = .ok args ∧
      resolve d.kind args = .ok d := by
  constructor
  · intro h
    unfold parse? at h
    split at h
    · cases h
    · rename_i kind hkind
      obtain ⟨read, hread, h⟩ := bind_eq_ok h
      obtain ⟨resolved, hresolved, h⟩ := bind_eq_ok h
      obtain ⟨rfl, rfl⟩ := Prod.mk.inj (Option.some.inj (Except.ok.inj h))
      obtain rfl := (madeFrom_of_resolve hresolved).kind_eq
      exact ⟨hkind, hread, hresolved⟩
  · rintro ⟨hkind, hread, hresolved⟩
    unfold parse?
    rw [hkind]
    show ((Arguments.parse _).bind fun args => (resolve _ args).bind _) = _
    rw [hread]
    show (resolve _ args).bind _ = _
    rw [hresolved]
    rfl

/-- What a directive was made of. -/
theorem madeFrom_of_parse? (h : parse? body = .ok (some (d, args))) : MadeFrom args d.kind d :=
  madeFrom_of_resolve (parse?_eq_some_iff.mp h).2.2

/-- A body with the name of a directive gives a directive or an error. -/
theorem parse?_ne_none (h : kindOf? body = some kind) : parse? body ≠ .ok none := by
  unfold parse?
  rw [h]
  intro hparse
  obtain ⟨_, -, hparse⟩ := bind_eq_ok hparse
  obtain ⟨_, -, hparse⟩ := bind_eq_ok hparse
  exact nomatch Except.ok.inj hparse

end Directive

end ServiceWiring
