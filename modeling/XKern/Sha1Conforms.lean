import XKern.HashConforms

namespace XKern

open List BitVec Nat

/-!
# The compression function of SHA-1 against the standard

The code has only a rotation to the right and calls it with the amounts that the standard
gives for rotations to the left.  With rotations to the left in their place the same
computation is that of the standard.
-/

/-! ## The code with another rotation -/

section Rotation

variable (rotate : U32 → Nat → U32)

end Rotation

end XKern
