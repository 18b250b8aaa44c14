import Retrieval.Score

/-!
# Coordination rules

The score of a document is multiplied by a factor that depends on how many of a search's clauses it
matches. The rule that gives the factor is supplied by whoever ranks; it need not be monotone.
-/

namespace Retrieval

/-- How the number of matched clauses, out of all clauses that count, scales a score. -/
structure CoordRule where
  factor : (matched clauses : Nat) → Score

namespace CoordRule

/-- The share of the clauses that matched; no clauses give no score. -/
def fraction : CoordRule where
  factor matched clauses :=
    if clauses = 0 then 0 else .ofNat matched / .ofNat clauses

def constant : CoordRule where
  factor _ _ := 1

/-- Factors by the number of matched clauses alone; the last one stands for all higher numbers. -/
def table (factors : List Score) : CoordRule where
  factor matched _ := factors.getD (min matched (factors.length - 1)) 0

instance : Inhabited CoordRule := ⟨fraction⟩

end CoordRule

end Retrieval
