import ServiceWiring.Generated.Field

/-!
# Route adapters

One call of `router.Handle` for each endpoint.  The adapter declares a variable for each
parameter of the handler, binds it by name from the request, calls the handler and folds its
results into a value and an error.
-/

namespace ServiceWiring.Endpoint

open Text CodeBlock

/-- The middleware names as a Go expression. -/
def middlewareExpression (middleware : List String) : String :=
  if middleware.isEmpty then "nil"
  else "[]string\x7b" ++ String.intercalate ", " (middleware.map quote) ++ "\x7d"

/-- The variable of a parameter. -/
def paramLocal (position : Nat) : String :=
  s!"arg{position}"

/-- Declares and binds the variable of a parameter. -/
def bindParam (names : CodeNames) (param : EndpointParam) (position : Nat) : CodeBlock :=
  let type := names.imports.renderType param.type
  let type := if param.variadic then "[]" ++ type else type
  line s!"var {paramLocal position} {type}"
    ++ line s!"if err := ctx.Bind({quote param.name}, &{paramLocal position}); err != nil \x7b"
    ++ nested (line "return nil, err") ++ line "\x7d"

/-- The variable of a parameter as an argument. -/
def argument (param : EndpointParam) (position : Nat) : String :=
  paramLocal position ++ if param.variadic then "..." else ""

/-- Calls the handler and returns its results.  Results are declared with their types, so that
    every import of the signature is used. -/
def callHandler (names : CodeNames) (call : String) : List TypeExpr → CodeBlock
  | [] => line call ++ line "return nil, nil"
  | [only] =>
      if only.text = "error" then line s!"return nil, {call}"
      else
        line s!"var res0 {names.imports.renderType only} = {call}" ++ line "return res0, nil"
  | first :: _ =>
      line s!"var res0 {names.imports.renderType first}" ++ line s!"res0, err := {call}"
        ++ line "return res0, err"

/-- The call that registers an endpoint. -/
def code (names : CodeNames) (e : Endpoint) : CodeBlock :=
  let params := e.params.zipIdx
  let arguments := String.intercalate ", " (params.map fun (param, i) => argument param i)
  let call := s!"svc.{e.handler}({arguments})"
  let middleware := middlewareExpression e.middleware
  line (s!"router.Handle({quote e.method}, {quote e.path}, {middleware}, "
      ++ s!"func(ctx {names.runtime}.Context) (any, error) \x7b")
    ++ nested (params.flatMap (fun (param, i) => bindParam names param i)
      ++ callHandler names call e.results)
    ++ line "\x7d)"

end ServiceWiring.Endpoint
