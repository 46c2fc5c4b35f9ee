import Stoatpp.Library.Positional
import Stoatpp.Model.Events

/-!
# The timestamp of a ULID

The first ten characters of a ULID are the milliseconds since the epoch in Crockford's base 32,
which leaves out the letters I, L, O and U. A character that is none of the 32 gives 0.
-/

namespace Stoatpp.Utils
open Stoatpp.Library

def alphabet : List UInt8 := bytes "0123456789ABCDEFGHJKMNPQRSTVWXYZ"

/-- `std::toupper` in the C locale. -/
def toUpper (c : UInt8) : UInt8 := if 97 ≤ c ∧ c ≤ 122 then c - 32 else c

def timePart (ulid : List UInt8) : List UInt8 := (ulid.take 10).map toUpper

structure Dated (ulid : List UInt8) : Prop where
  length : 10 ≤ ulid.length
  alphabet : ∀ c ∈ timePart ulid, c ∈ Utils.alphabet

/-! ## The loop -/

end Stoatpp.Utils
