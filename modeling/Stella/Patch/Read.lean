import Stella.Patch.Parse
import Stella.Patch.Written

/-! # What a patch is read into

The hunks of an accepted patch are made of its lines.
-/

namespace Stella.Patch

open World (Text)

variable {expandHomePath : Text → Text}

def FileOp.hunks : FileOp → List Hunk
  | .update _ _ hunks => hunks
  | _ => []

end Stella.Patch
