import Retrieval.Score

/-!
# Rounding to 32 bits

A score that is given as a 64-bit floating-point number becomes the nearest 32-bit one; halfway
between two, the one with an even mantissa.
-/

namespace Retrieval

open Float.Model (UnpackedFloat)

/-- The nearest score. It is infinite if the number is too large, and zero, with the
number's sign, if it is too small. -/
def narrow (x : Float) : Score :=
  let rounded :=
    match UnpackedFloat.unpack .binary64 x.toBits.toBitVec with
    | .finite sign mantissa exponent _ => .round .binary32 sign mantissa exponent
    | special => special
  .ofFloat32 (.ofModel (.pack rounded))

end Retrieval
