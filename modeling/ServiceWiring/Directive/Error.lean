/-!
# Malformed directives

Everything that can be wrong with the text of a directive, as one type of causes, and the
words each cause is reported in.
-/

namespace ServiceWiring

/-- Why a directive cannot be read. -/
inductive DirectiveError where
  /-- A double-quoted value has no closing quote. -/
  | unterminatedString
  /-- A raw-quoted value has no closing backtick. -/
  | unterminatedRawString
  /-- The argument list is not closed. -/
  | missingParenthesis
  /-- A value is followed by something other than a comma. -/
  | unexpectedCharacter (c : Char)
  /-- Nothing stands where a value is due. -/
  | missingValue
  /-- An unquoted value holds a quote. -/
  | unbalancedQuoting (text : String)
  /-- A key is given twice. -/
  | duplicateArgument (key : String)
  /-- Positional and named arguments stand side by side. -/
  | mixedForms
  /-- A key that the directive does not know. -/
  | unknownArgument (key directive : String) (allowed : List String)
  /-- A directive with one positional argument got another number of them. -/
  | notSingle (directive what : String) (count : Nat)
  /-- A service name of length zero. -/
  | emptyServiceName
  /-- A service name with a double quote, a backslash or a blank. -/
  | invalidServiceName (name : String)
  /-- A router path that is not absolute. -/
  | relativeMountPath (path : String)
  /-- A configuration directive without arguments. -/
  | configWithoutKey
  /-- Named configuration arguments without a key. -/
  | configKeyMissing
  /-- A `required` that is neither true nor false. -/
  | requiredNotBoolean (found : String)
  /-- A separator of length zero. -/
  | emptySeparator
  /-- A configuration key without a visible character. -/
  | blankConfigKey
  /-- A route directive without arguments. -/
  | routeWithoutArgument
  /-- A positional route without a path. -/
  | routePathMissing
  /-- Named route arguments without a method. -/
  | routeMethodKeyMissing
  /-- Named route arguments without a path. -/
  | routePathKeyMissing
  /-- A method that is not an HTTP method. -/
  | unsupportedMethod (method : String)
  /-- A route path that is not absolute. -/
  | relativeRoutePath (path : String)
  deriving DecidableEq, Repr

/-- The words a malformed directive is reported in. -/
def DirectiveError.message : DirectiveError → String
  | .unterminatedString => "unterminated string literal"
  | .unterminatedRawString => "unterminated raw string literal"
  | .missingParenthesis => "missing closing parenthesis"
  | .unexpectedCharacter c => s!"unexpected `{c}` after argument value"
  | .missingValue => "missing argument value"
  | .unbalancedQuoting text => s!"unbalanced quoting in `{text}`"
  | .duplicateArgument key => s!"duplicate argument `{key}`"
  | .mixedForms => "cannot mix positional and key=value arguments"
  | .unknownArgument key directive allowed =>
      s!"unknown argument `{key}` for @{directive} (expected one of: "
        ++ String.intercalate ", " allowed ++ ")"
  | .notSingle directive what count =>
      s!"@{directive} takes {what} as its only positional argument, found {count}"
  | .emptyServiceName => "service name must not be empty"
  | .invalidServiceName name => s!"service name `{name}` contains invalid characters"
  | .relativeMountPath path => s!"router prefix `{path}` must start with `/`"
  | .configWithoutKey => "@Config requires a configuration key"
  | .configKeyMissing => "@Config requires `key=`"
  | .requiredNotBoolean found => s!"`required` must be true or false, found `{found}`"
  | .emptySeparator => "`sep` must not be empty"
  | .blankConfigKey => "configuration key must not be empty"
  | .routeWithoutArgument => "@Route requires \"METHOD /path\" as its argument"
  | .routePathMissing => "route must be written as \"METHOD /path\""
  | .routeMethodKeyMissing => "@Route requires `method=`"
  | .routePathKeyMissing => "@Route requires `path=`"
  | .unsupportedMethod method => s!"unsupported HTTP method `{method}`"
  | .relativeRoutePath path => s!"route path `{path}` must start with `/`"

end ServiceWiring
