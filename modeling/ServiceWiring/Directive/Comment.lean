import ServiceWiring.Text.Lines
import ServiceWiring.Text.Alphanumeric

/-!
# Comment lines and directive names

A comment line is a directive when its content, right behind the two slashes and at most one
blank, starts with the sigil `@`.  Content that starts with a tab or two blanks is a code
sample inside documentation and never a directive.

The cheap questions about a whole file, `hasDirectives` and `hasMarker`, go through the same
classification of lines as the collection of directives does, with tables of names of their own.
-/

namespace ServiceWiring

open Text

/-- The directives of the generator. -/
inductive DirectiveKind where
  | service
  | router
  | inject
  | config
  | route
  deriving DecidableEq, Repr

namespace DirectiveKind

/-- The name a directive is written with. -/
def label : DirectiveKind → String
  | .service => "Service"
  | .router => "Router"
  | .inject => "Inject"
  | .config => "Config"
  | .route => "Route"

/-- The directive that a name stands for when its line is read. -/
def ofName? : String → Option DirectiveKind
  | "Service" => some .service
  | "Router" => some .router
  | "Inject" => some .inject
  | "Config" => some .config
  | "Route" => some .route
  | _ => none

/-- Whether the directive turns a struct into a service. -/
def isMarker : DirectiveKind → Bool
  | .service => true
  | .router => true
  | _ => false

/-- Whether the directive belongs to a struct field. -/
def isFieldDirective : DirectiveKind → Bool
  | .inject => true
  | .config => true
  | _ => false

end DirectiveKind

/-- What a source line is, as far as directives go. -/
inductive LineClass where
  /-- A directive, with the text behind the sigil. -/
  | directive (body : List Char)
  /-- An indented sample in a documentation comment. -/
  | sample
  /-- Any other comment line. -/
  | prose
  /-- Not a comment line. -/
  | code
  deriving DecidableEq, Repr

/-- Classifies a source line. -/
def LineClass.ofLine (line : List Char) : LineClass :=
  match trimStart line with
  | '/' :: '/' :: content =>
      match content with
      | '\t' :: _ => .sample
      | ' ' :: ' ' :: _ => .sample
      | ' ' :: '@' :: body => .directive body
      | '@' :: body => .directive body
      | _ => .prose
  | _ => .code

namespace Directive

/-- The leading name of a directive body. -/
def nameOf (body : List Char) : List Char :=
  body.takeWhile isNameChar

/-- The directive a body names, if it is one of ours. -/
def kindOf? (body : List Char) : Option DirectiveKind :=
  DirectiveKind.ofName? (String.ofList (nameOf body))

/-- The names that a text is looked through for. -/
def knownNames : List String :=
  ["Service", "Router", "Inject", "Config", "Route"]

/-- The names that mark a service. -/
def markerNames : List String :=
  ["Service", "Router"]

/-- The name of the directive on a source line, if it is a known one. -/
def knownName? (line : List Char) : Option String :=
  match LineClass.ofLine line with
  | .directive body => knownNames.find? fun known => known == String.ofList (nameOf body)
  | _ => none

end Directive

/-- Whether a text holds one of our directives. -/
def hasDirectives (content : String) : Bool :=
  (lines content.toList).any fun line => (Directive.knownName? line).isSome

/-- Whether a text holds a directive that marks a service. -/
def hasMarker (content : String) : Bool :=
  ((lines content.toList).filterMap Directive.knownName?).any fun name =>
    Directive.markerNames.contains name

end ServiceWiring
