import Stoatpp.Gateway.Malformed

/-!
# Bulk frames

The exception boundary is around the frame that came in, not around the frames a Bulk frame
holds: the first of them that throws takes those behind it with it.
-/

namespace Stoatpp.Gateway
open Stoatpp.Library

def bulk (v : List Json) : Json := .obj [("type", .str "Bulk"), ("v", .arr v)]

variable {self : User} {j : Json}

end Stoatpp.Gateway
