import Retrieval.Decimal.Narrowing
import Retrieval.Decimal.Notation
import Retrieval.Json.Value

/-!
# The value of a written number

A number that is written as an integer and fits into 64 bits is read exactly. Any other is read as a
floating-point number: as many of its digits as fit into 64 bits make a whole number, which is then
scaled by a power of ten. A number that is too large for that has no value.
-/

namespace Retrieval

/-- What a written number amounts to. -/
inductive Number where
  | natural (n : Nat)
  | negative (n : Int)
  | float (x : Float)

namespace Numeral

/-- Whether a further digit still fits into 64 bits. -/
def fits (n : Nat) (d : Digit) : Bool := decide (10 * n + d.val ≤ 18446744073709551615)

/-- The number that the digits before the point make, and how many of them had to be dropped. Once
one is dropped, so are all that follow. -/
def readWhole (ds : List Digit) : Nat × Nat :=
  ds.foldl (fun (n, dropped) d =>
    if dropped = 0 && fits n d then (10 * n + d.val, 0) else (n, dropped + 1)) (0, 0)

/-- Digits after the point, up to the first that does not fit, put behind a number, and how many
there were. -/
def readFraction (n : Nat) : List Digit → Nat × Nat
  | [] => (n, 0)
  | d :: rest =>
    if fits n d then
      ((readFraction (10 * n + d.val) rest).1, (readFraction (10 * n + d.val) rest).2 + 1)
    else
      (n, 0)

def powerOfTen (k : Nat) : Float := Float.ofScientific 1 false k

/-- Scale by a power of ten, in one step if the power is a floating-point number and otherwise in
steps of its largest one. There is no value if the result is too large. -/
def scale (x : Float) (exponent : Int) : Option Float :=
  if exponent < -308 then
    if x == 0 then some x else scale (x / powerOfTen 308) (exponent + 308)
  else if exponent < 0 then
    some (x / powerOfTen exponent.natAbs)
  else if exponent ≤ 308 then
    let scaled := x * powerOfTen exponent.toNat
    if scaled.isInf then none else some scaled
  else
    if x == 0 then some x else none
termination_by exponent.natAbs
decreasing_by omega

def signed (n : Numeral) (x : Float) : Float := if n.negative then -x else x

/-- The largest exponent that is taken as it is written. -/
def maxExponent : Nat := 2147483647

/-- The floating-point number that the digits and the exponent amount to. An exponent beyond all
measure makes zero, unless it would make a number too large. -/
def float? (n : Numeral) : Option Float :=
  let (front, dropped) := readWhole n.whole
  let (significand, places) := readFraction front n.fraction
  let exponent := n.exponent.getD 0
  let magnitude :=
    if maxExponent < exponent.natAbs then
      if significand ≠ 0 ∧ 0 < exponent then none else some 0
    else
      scale (UInt64.ofNat significand).toFloat (exponent + dropped - places)
  magnitude.map n.signed

/-- What the number amounts to. Zero with a minus sign is no integer, for integers have no negative
zero. -/
def value? (n : Numeral) : Option Number :=
  let (front, dropped) := readWhole n.whole
  if n.fraction.isEmpty && n.exponent.isNone && dropped == 0 then
    if !n.negative then some (.natural front)
    else if 0 < front && front ≤ 9223372036854775808 then some (.negative (-front))
    else some (.float (n.signed (UInt64.ofNat front).toFloat))
  else
    n.float?.map .float

end Numeral

namespace Number

def toFloat : Number → Float
  | natural n => Float.ofNat n
  | negative n => -Float.ofNat n.natAbs
  | float x => x

/-- The nearest score. Integers are rounded just once. -/
def toScore : Number → Score
  | natural n => .ofNat n
  | negative n => .ofFloat32 (-Float32.ofNat n.natAbs)
  | float x => narrow x

end Number

namespace Json

def number? : Json → Option Number
  | .number n => n.value?
  | _ => none

/-- A score, written with its shortest decimal; of two that are equally near, the one with an even
last digit. Numbers from a millionth up to ten trillion are written without an exponent and with at
least one digit after the point. What is not finite is written as `null`. -/
def ofScore (x : Score) : Json :=
  let numeral (sign : Float.Model.UnpackedFloat.Sign) (whole fraction : List Digit)
      (exponent : Option Int) : Json :=
    let negative :=
      match sign with
      | .negative => true
      | .positive => false
    .number { negative, whole, fraction, exponent }
  match unpack x with
  | .notANumber | .infinity _ => .null
  | .zero sign => numeral sign [.zero] [.zero] none
  | .finite sign mantissa exponent _ =>
    let decimal := Decimal.Magnitude.shortest ⟨mantissa, exponent⟩ .even
    let ds := digits decimal.coefficient
    let leading := decimal.exponent + ds.length - 1
    if -6 ≤ leading ∧ leading ≤ 12 then
      let (whole, fraction) := decimal.split
      numeral sign whole (if fraction.isEmpty then [.zero] else fraction) none
    else
      numeral sign (ds.take 1) (ds.drop 1) (some leading)

end Json

end Retrieval
