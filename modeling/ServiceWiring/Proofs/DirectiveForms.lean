import ServiceWiring.Directive.Basic
import ServiceWiring.Proofs.Text

/-!
# Positional and named forms of a directive

A directive can be written with its value alone or with the key of the value in front, and the two
forms have defaults and checks of their own.  They agree all the same: a lone value stands for the
name or the key, and a route in one text, with its middleware behind it, stands for the same route
with everything under its key.

* `Text.words_pair` — the words of two words with a blank between them;
* `Directive.splitList_intercalate` — a list of lists, joined by commas, has the items of all;
* `Arguments.routeText`, `Arguments.routePairs` — the two forms of a route;
* `Directive.resolve_forms` — the forms resolve alike, errors included.
-/

namespace ServiceWiring

open Text

namespace Text

/-- One word: some characters and no blank among them. -/
def IsWord (cs : List Char) : Prop :=
  cs ≠ [] ∧ ∀ c ∈ cs, isBlank c = false

instance (cs : List Char) : Decidable (IsWord cs) :=
  have : Decidable (∀ c ∈ cs, isBlank c = false) := List.decidableBAll _ cs
  inferInstanceAs (Decidable (_ ∧ _))

/-- Two words with a blank between them are two words again. -/
theorem words_pair {first second : List Char} (hfirst : IsWord first) (hsecond : IsWord second) :
    words (first ++ ' ' :: second) = [first, second] := by
  have hsplit : splitWhere isBlank (first ++ ' ' :: second) = [first, second] := by
    have hblank : isBlank ' ' = true := by
      decide
    rw [splitWhere_append_cons hblank, splitWhere_eq_singleton hfirst.2,
      splitWhere_eq_singleton hsecond.2]
    rfl
  have hkept : ∀ word ∈ [first, second], (!word.isEmpty) = true := by
    intro word hword
    rw [List.isEmpty_eq_false_iff.mpr]
    · rfl
    · rcases List.mem_pair.mp hword with rfl | rfl
      · exact hfirst.1
      · exact hsecond.1
  rw [words, hsplit, List.filter_eq_self.mpr hkept]

end Text

namespace Arguments

/-- A route in one text, method and path, with the middleware behind it. -/
def routeText (quoting : Quoting) (method path : String) (middleware : List Argument) : Arguments :=
  .positional (⟨quoting, method ++ " " ++ path⟩ :: middleware)

/-- A route with everything under its key.  The middleware stands in one value, joined by commas,
    and its key is left out when there is none. -/
def routePairs (quoting : String → Quoting) (method path : String) (middleware : List String) :
    Arguments :=
  let pair (key text : String) : String × Argument := (key, ⟨quoting key, text⟩)
  .named ([pair "method" method, pair "path" path]
    ++ if middleware.isEmpty then []
      else [pair "middleware" (String.intercalate "," middleware)])

end Arguments

namespace Directive

open Arguments

/-! ## Joined lists -/

/-- A comma ends a list that another one follows. -/
theorem splitList_append_cons (front behind : List Char) :
    splitList (front ++ ',' :: behind) = splitList front ++ splitList behind := by
  unfold splitList
  rw [splitWhere_append_cons (p := (· == ',')) rfl, List.map_append, List.filter_append,
    List.map_append]

/-- Lists joined by commas have the items of all of them: blank items count in neither. -/
theorem splitList_intercalate (texts : List (List Char)) :
    splitList ([','].intercalate texts) = texts.flatMap splitList := by
  induction texts with
  | nil => rfl
  | cons text texts ih =>
      cases texts with
      | nil =>
          rw [List.intercalate_singleton, List.flatMap_singleton]
      | cons next more =>
          rw [List.intercalate_cons_cons, List.append_assoc, List.singleton_append,
            splitList_append_cons, ih]
          rfl

/-! ## Routes -/

/-- What both forms of a route say. -/
def routeSpecOf (method path : String) (middleware : List String) : RouteSpec where
  method := method
  path := path
  middleware := middleware.flatMap fun text => splitList text.toList

theorem routeParts_routeText (quoting : Quoting) {method path : String}
    (hmethod : IsWord method.toList) (hpath : IsWord path.toList) (middleware : List Argument) :
    routeParts (routeText quoting method path middleware)
      = .ok (routeSpecOf method path (middleware.map (·.text))) := by
  have hwords : words (method ++ " " ++ path).toList = [method.toList, path.toList] := by
    rw [String.toList_append, String.toList_append, List.append_assoc]
    exact words_pair hmethod hpath
  have hmiddleware : (middleware.map (·.text)).flatMap (fun text => splitList text.toList)
      = middleware.flatMap fun v => splitList v.text.toList :=
    List.flatMap_map ..
  unfold routeText routeParts routeSpecOf
  dsimp only [List.head?_cons, Option.elim_some, List.tail_cons]
  rw [hwords, hmiddleware]
  dsimp only
  rw [String.ofList_toList, String.ofList_toList, List.flatMap_nil, List.nil_append]

theorem routeParts_routePairs (quoting : String → Quoting) (method path : String)
    (middleware : List String) :
    routeParts (routePairs quoting method path middleware)
      = .ok (routeSpecOf method path middleware) := by
  cases middleware with
  | nil => rfl
  | cons first more =>
      have hjoined : splitList (String.intercalate "," (first :: more)).toList
          = (first :: more).flatMap fun text => splitList text.toList := by
        rw [String.toList_intercalate]
        show splitList ([','].intercalate _) = _
        rw [splitList_intercalate, List.flatMap_map]
      show Except.ok (RouteSpec.mk method path (splitList _)) = _
      rw [hjoined]
      rfl

theorem checkKeys_routePairs (quoting : String → Quoting) (method path : String)
    (middleware : List String) :
    checkKeys .route ["method", "path", "middleware"] (routePairs quoting method path middleware)
      = .ok () := by
  cases middleware with
  | nil => rfl
  | cons first more => rfl

/-! ## Both forms -/

/-- The forms that take a name. -/
theorem resolve_name {kind : DirectiveKind} (hkind : kind ∈ [.service, .router, .inject])
    (quoting quoting' : Quoting) (text : String) :
    resolve kind (.positional [⟨quoting, text⟩])
      = resolve kind (.named [("name", ⟨quoting', text⟩)]) := by
  simp only [List.mem_cons, List.not_mem_nil, or_false] at hkind
  rcases hkind with rfl | rfl | rfl
  · rfl
  · rfl
  · rfl

/-- The key alone: no default, no word on whether it is required, and the default separator. -/
theorem configSpec_key (quoting quoting' : Quoting) (text : String) :
    configSpec (.positional [⟨quoting, text⟩]) = configSpec (.named [("key", ⟨quoting', text⟩)]) := by
  have hkey : textOf? (.named [("key", ⟨quoting', text⟩)]) "key" = some text :=
    rfl
  have hother : ∀ key ∈ ["default", "required", "sep"],
      get? (.named [("key", ⟨quoting', text⟩)]) key = Option.none := by
    intro key hkey
    have hne : "key" ≠ key := by
      rintro rfl
      exact absurd hkey (by decide)
    rw [get?, List.find?_cons_of_neg (by simpa using hne)]
    rfl
  unfold configSpec requiredOf
  dsimp only
  rw [hkey, textOf?, textOf?, hother "default" (by decide), hother "required" (by decide),
    hother "sep" (by decide)]
  rfl

theorem resolve_key (quoting quoting' : Quoting) (text : String) :
    resolve .config (.positional [⟨quoting, text⟩])
      = resolve .config (.named [("key", ⟨quoting', text⟩)]) := by
  have hkeys : checkKeys .config ["key", "default", "required", "sep"]
      (.named [("key", ⟨quoting', text⟩)]) = .ok () :=
    rfl
  unfold resolve
  dsimp only
  rw [hkeys, configSpec_key quoting quoting']
  rfl

theorem resolve_route (quoting : Quoting) (quoting' : String → Quoting) {method path : String}
    (hmethod : IsWord method.toList) (hpath : IsWord path.toList) (middleware : List Argument) :
    resolve .route (routeText quoting method path middleware)
      = resolve .route (routePairs quoting' method path (middleware.map (·.text))) := by
  have hresolve : ∀ {args : Arguments} {spec : RouteSpec},
      checkKeys .route ["method", "path", "middleware"] args = .ok () →
      routeParts args = .ok spec →
      resolve .route args = (checkRoute spec).map .route := by
    intro args spec hkeys hparts
    unfold resolve
    dsimp only
    rw [hkeys, hparts]
    cases hcheck : checkRoute spec with
    | error e => simp [bind, Except.bind, Except.map, hcheck]
    | ok checked => simp [bind, Except.bind, Except.map, hcheck, pure, Except.pure]
  rw [hresolve rfl (routeParts_routeText quoting hmethod hpath middleware),
    hresolve (checkKeys_routePairs ..) (routeParts_routePairs ..)]

/-- The positional and the named form of a directive give the same directive or the same error,
    whatever quotes the values stand in.  A lone value is the name of a service, of a router or of
    a dependency, and the key of a configuration value.  A route in one text, method and path, with
    any texts behind it, is the route with these texts joined by commas as its middleware. -/
theorem resolve_forms :
    (∀ (quoting quoting' : Quoting) (text : String),
      (∀ kind ∈ [DirectiveKind.service, .router, .inject],
        resolve kind (.positional [⟨quoting, text⟩])
          = resolve kind (.named [("name", ⟨quoting', text⟩)])) ∧
      resolve .config (.positional [⟨quoting, text⟩])
        = resolve .config (.named [("key", ⟨quoting', text⟩)])) ∧
    ∀ (quoting : Quoting) (quoting' : String → Quoting) (method path : String)
      (middleware : List Argument), IsWord method.toList → IsWord path.toList →
      resolve .route (routeText quoting method path middleware)
        = resolve .route (routePairs quoting' method path (middleware.map (·.text))) := by
  refine ⟨?_, ?_⟩
  · intro quoting quoting' text
    refine ⟨?_, resolve_key quoting quoting' text⟩
    intro kind hkind
    exact resolve_name hkind quoting quoting' text
  · intro quoting quoting' method path middleware hmethod hpath
    exact resolve_route quoting quoting' hmethod hpath middleware

/-- A router that must not be named so, and a route whose middleware has an empty item, a blank one
    and a comma inside of a text. -/
theorem resolve_forms_of_blankItems :
    (DirectiveKind.router ∈ [DirectiveKind.service, .router, .inject] ∧
      resolve .router (.positional [⟨.bare, "a b"⟩])
        = resolve .router (.named [("name", ⟨.plain, "a b"⟩)])) ∧
    IsWord "get".toList ∧ IsWord "/users".toList ∧
      resolve .route (routeText .plain "get" "/users" [⟨.plain, " auth,, trace"⟩, ⟨.raw, " "⟩])
        = resolve .route (routePairs (fun _ => .plain) "get" "/users" [" auth,, trace", " "]) := by
  have hrouter : DirectiveKind.router ∈ [DirectiveKind.service, .router, .inject] := by
    decide
  have hmethod : IsWord "get".toList := by
    decide
  have hpath : IsWord "/users".toList := by
    decide
  exact ⟨⟨hrouter, (resolve_forms.1 .bare .plain "a b").1 .router hrouter⟩, hmethod, hpath,
    resolve_forms.2 .plain (fun _ => .plain) "get" "/users" _ hmethod hpath⟩

end Directive

end ServiceWiring
