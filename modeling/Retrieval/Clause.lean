import Retrieval.Failure

/-!
# The clauses of a boolean search

A clause plays one of three roles, and a search has rules on how many clauses it takes and how many
of the optional ones a document has to match.
-/

namespace Retrieval

/-- What a clause demands of a document. -/
inductive Role where
  /-- The document has to match the clause. -/
  | required
  /-- The document may match the clause, and gains by it. -/
  | optional
  /-- The document must not match the clause. -/
  | prohibited
  deriving DecidableEq

namespace Role

def sign : Role → String
  | required => "+"
  | optional => ""
  | prohibited => "-"

/-- Whether a matching clause adds to the score and to the count of matched clauses. -/
def counts : Role → Bool
  | prohibited => false
  | _ => true

end Role

structure ClauseRules where
  /-- How many clauses may be added. -/
  maxClauses : Nat := 1024
  /-- How many optional clauses a document has to match. -/
  minOptional : Nat := 0
  deriving DecidableEq

/-- Rules are usable if they leave room for at least one clause. -/
def ClauseRules.validate (rules : ClauseRules) : Except Failure Unit :=
  if rules.maxClauses = 0 then .error .noClauseAllowed else .ok ()

end Retrieval
