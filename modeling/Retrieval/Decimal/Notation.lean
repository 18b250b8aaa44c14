import Retrieval.Decimal.Shortest
import Retrieval.Score

/-!
# Writing scores out in full

The plain notation of a score: its shortest decimal without an exponent,
however many zeros that takes.
-/

namespace Retrieval

namespace Decimal

/-- The digits before and after the decimal point. There is at least one before it, and none after
it if the number is whole. -/
def split (d : Decimal) : List Digit × List Digit :=
  let ds := digits d.coefficient
  if 0 ≤ d.exponent then
    (ds ++ List.replicate d.exponent.toNat .zero, [])
  else
    let places := d.exponent.natAbs
    let padded := List.replicate (places + 1 - ds.length) .zero ++ ds
    (padded.take (padded.length - places), padded.drop (padded.length - places))

def plain (d : Decimal) : String :=
  let (whole, fraction) := d.split
  String.ofList (whole.map Digit.char ++
    if fraction.isEmpty then [] else '.' :: fraction.map Digit.char)

end Decimal

open Float.Model (UnpackedFloat)

def unpack (x : Score) : UnpackedFloat := .unpack .binary32 x.bits.toBitVec

def minus : UnpackedFloat.Sign → String
  | .positive => ""
  | .negative => "-"

/-- The plain notation. Of two shortest decimals that are equally near, the larger one is written.
-/
def plainText (x : Score) : String :=
  match unpack x with
  | .notANumber => "NaN"
  | .infinity sign => s!"{minus sign}inf"
  | .zero sign => s!"{minus sign}0"
  | .finite sign mantissa exponent _ =>
    minus sign ++ (Decimal.Magnitude.shortest ⟨mantissa, exponent⟩ .up).plain

end Retrieval
