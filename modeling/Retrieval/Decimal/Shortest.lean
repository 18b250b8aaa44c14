import Retrieval.Decimal.Digit

/-!
# The shortest decimal of a binary number

Many decimals are read back as the same binary number: those in an interval around it whose ends
lie halfway to its neighbours. The shortest one is found on the coarsest decimal grid that has a
point in the interval. If a grid has one, then one of the two points next to the number itself is
inside, so only these two are tried, in exact arithmetic.
-/

namespace Retrieval

/-- The number `coefficient * 10 ^ exponent`. -/
structure Decimal where
  coefficient : Nat
  exponent : Int
  deriving DecidableEq

namespace Decimal

/-- Which of two equally near decimals is taken. -/
inductive Tie where
  | up
  | even
  deriving DecidableEq

/-- The positive number `mantissa * 2 ^ exponent`, as a 32-bit floating-point number has it. -/
structure Magnitude where
  mantissa : Nat
  exponent : Int
  deriving DecidableEq

namespace Magnitude

/-- The neighbour below is only half as far away as the one above if the mantissa is the smallest
one of 24 bits, unless the exponent is the smallest there is. -/
def isNarrow (v : Magnitude) : Bool :=
  v.mantissa == 8388608 && decide (-149 < v.exponent)

/-- The lower end of the interval, in quarters of the last place of the mantissa. -/
def low (v : Magnitude) : Nat := 4 * v.mantissa - if v.isNarrow then 1 else 2

/-- The number itself, in quarters of the last place of the mantissa. -/
def centre (v : Magnitude) : Nat := 4 * v.mantissa

/-- The upper end of the interval, in quarters of the last place of the mantissa. -/
def high (v : Magnitude) : Nat := 4 * v.mantissa + 2

/-- What a quarter of the last place is to be multiplied by, to compare it with a step of the grid
`10 ^ k` that is multiplied by `step v k`. -/
def quarter (v : Magnitude) (k : Int) : Nat :=
  Nat.pow 2 (v.exponent - 2).toNat * Nat.pow 10 (-k).toNat

/-- What a step of the grid `10 ^ k` is to be multiplied by, see `quarter`. -/
def step (v : Magnitude) (k : Int) : Nat :=
  Nat.pow 2 (2 - v.exponent).toNat * Nat.pow 10 k.toNat

/-- Whether `n * 10 ^ k` is read back as the number. The ends of the interval are if the mantissa is
even. -/
def covers (v : Magnitude) (k : Int) (n : Nat) : Bool :=
  let point := n * v.step k
  let low := v.low * v.quarter k
  let high := v.high * v.quarter k
  if v.mantissa % 2 = 0 then decide (low ≤ point ∧ point ≤ high)
  else decide (low < point ∧ point < high)

/-- The point of the grid `10 ^ k` that is nearest to the number, if it is read back as the number.
-/
def onGrid (v : Magnitude) (tie : Tie) (k : Int) : Option Nat :=
  let centre := v.centre * v.quarter k
  let below := centre / v.step k
  let above := below + 1
  match v.covers k below, v.covers k above with
  | false, false => none
  | true, false => some below
  | false, true => some above
  | true, true =>
    match compare (2 * centre) ((below + above) * v.step k), tie with
    | .lt, _ => some below
    | .gt, _ => some above
    | .eq, .up => some above
    | .eq, .even => some (if below % 2 = 0 then below else above)

/-- The exponents of the grids, from the coarsest on which a number can be to the finest that is
needed. -/
def grids : List Int := (List.range 84).map fun (i : Nat) => 38 - (i : Int)

/-- The shortest decimal that is read back as the number, and the nearest of those. -/
def shortest (v : Magnitude) (tie : Tie) : Decimal :=
  (grids.findSome? fun k => (v.onGrid tie k).map (⟨·, k⟩)).getD ⟨0, 0⟩

end Magnitude

end Decimal

end Retrieval
