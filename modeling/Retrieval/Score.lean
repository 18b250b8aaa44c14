/-!
# Scores

Scores, and the weights and factors that make them up, are 32-bit floating-point numbers. A score is
kept as its bits, for what is not a number comes in many forms, and the form shows when scores are
ranked: `rank` puts all scores into one order, while `<` compares them as numbers.
-/

namespace Retrieval

/-- A 32-bit floating-point number by its bits: the sign, eight bits of exponent and the fraction.
-/
structure Score where
  bits : UInt32
  deriving DecidableEq

namespace Score

/-- The number, as far as it is one: all that is not a number is the same here. -/
def toFloat32 (x : Score) : Float32 := .ofBits x.bits

def ofFloat32 (x : Float32) : Score := ⟨x.toBits⟩

/-- The score nearest to a natural number. -/
def ofNat (n : Nat) : Score := ofFloat32 (Float32.ofNat n)

instance : OfNat Score 0 := ⟨⟨0⟩⟩

instance : OfNat Score 1 := ⟨⟨0x3f800000⟩⟩

instance : Inhabited Score := ⟨0⟩

/-- Whether the score is not a number: the exponent is the largest there is, as that of the
infinities, and the fraction is not zero. -/
def isNaN (x : Score) : Bool := decide (0x7f800000 < x.bits &&& 0x7fffffff)

/-- Neither an infinity nor not a number. -/
def IsFinite (x : Score) : Prop := x.bits &&& 0x7fffffff < 0x7f800000

instance (x : Score) : Decidable x.IsFinite := inferInstanceAs (Decidable (_ < _))

/-- The form in which arithmetic hands on what is not a number: the first bit of the fraction is
set, and all others are kept. -/
def quiet (x : Score) : Score := ⟨x.bits ||| 0x00400000⟩

/-- Combine two scores by an operation on numbers. A score that is not a number is handed on, the
first rather than the second. -/
def combine (op : Float32 → Float32 → Float32) (x y : Score) : Score :=
  if x.isNaN then x.quiet
  else if y.isNaN then y.quiet
  else ofFloat32 (op x.toFloat32 y.toFloat32)

instance : Add Score := ⟨combine (· + ·)⟩

instance : Mul Score := ⟨combine (· * ·)⟩

instance : Div Score := ⟨combine (· / ·)⟩

instance : LT Score := ⟨fun x y => x.toFloat32 < y.toFloat32⟩

/-- As numbers, the two zeros are equal, and what is not a number is neither less nor greater than
anything. -/
instance (x y : Score) : Decidable (x < y) :=
  inferInstanceAs (Decidable (x.toFloat32 < y.toFloat32))

/-- The place of a score among all scores. Without its sign, a score grows with its bits; those with
a minus sign are ordered the other way round, below all others. So negative zero comes before
positive zero, and what is not a number lies beyond the infinity of its sign. -/
def rank (x : Score) : Nat :=
  let bits := x.bits.toNat
  if bits < 2147483648 then 2147483648 + bits else 4294967295 - bits

end Score

end Retrieval
