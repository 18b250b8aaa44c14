/-!
# Binary search

In an array whose elements first satisfy a test and then no longer do, halving finds the place where
the change happens.
-/

namespace Retrieval.Posting

variable {α : Type}

/-- The place at or after `lo` and at or before `hi` where the elements of `xs` stop satisfying
`test`. -/
def boundary (test : α → Bool) (xs : Array α) (lo hi : Nat) (bounded : hi ≤ xs.size) : Nat :=
  if nonempty : lo < hi then
    let middle := lo + (hi - lo) / 2
    if test xs[middle] then
      boundary test xs (middle + 1) hi bounded
    else
      boundary test xs lo middle (by omega)
  else
    lo
termination_by hi - lo

theorem boundary_le (test : α → Bool) (xs : Array α) (lo hi : Nat) (bounded : hi ≤ xs.size)
    (ordered : lo ≤ hi) : lo ≤ boundary test xs lo hi bounded ∧
      boundary test xs lo hi bounded ≤ hi := by
  fun_induction boundary test xs lo hi bounded <;> omega

end Retrieval.Posting
