import Retrieval.Clause
import Retrieval.Coordination.Rule
import Retrieval.Decimal.Notation
import Retrieval.Posting.List

/-!
# Queries

A query is a term or a boolean combination of queries. It can be searched any number of times, each
time by a fresh cursor, and it can explain the score of a single document without a search.
-/

namespace Retrieval

/-- A term: the documents of a posting list, their weights all multiplied by a factor. -/
structure TermQuery where
  name : String
  list : PostingList
  boost : Score := 1

/-- Queries of type `κ` in different roles. There are never more of them than the rules allow. -/
structure BooleanQuery (κ : Type) where
  rules : ClauseRules
  rule : CoordRule
  clauses : List (Role × κ)
  usable : rules.maxClauses ≠ 0
  bounded : clauses.length ≤ rules.maxClauses

namespace BooleanQuery

variable {κ : Type}

def create (rule : CoordRule) (rules : ClauseRules) : Except Failure (BooleanQuery κ) :=
  if unusable : rules.maxClauses = 0 then .error .noClauseAllowed
  else .ok { rules, rule, clauses := [], usable := unusable, bounded := Nat.zero_le _ }

/-- Add a query after all others, if the rules leave room for it. -/
def add (q : BooleanQuery κ) (role : Role) (clause : κ) : Except Failure (BooleanQuery κ) :=
  if room : q.clauses.length + 1 ≤ q.rules.maxClauses then
    .ok { q with clauses := q.clauses ++ [(role, clause)], bounded := by simpa using room }
  else
    .error (.tooManyClauses (q.clauses.length + 1) q.rules.maxClauses)

end BooleanQuery

/-- A query whose parts, if it has any, are of type `κ`. -/
inductive QueryNode (κ : Type) where
  | term (q : TermQuery)
  | boolean (q : BooleanQuery κ)

/-- A query with fewer than `height` further queries nested in each other below it. -/
def Query : (height : Nat) → Type
  | 0 => Empty
  | height + 1 => QueryNode (Query height)

/-- The name of a term, with its factor if that makes a difference. -/
def TermQuery.describe (q : TermQuery) : String :=
  if q.boost = 1 then q.name else s!"{q.name}^{plainText q.boost}"

/-- The descriptions of the clauses with the signs of their roles, and how many optional ones have
to match if any has to. -/
def BooleanQuery.describe {κ : Type} (describe : κ → String) (q : BooleanQuery κ) : String :=
  let clauses := " ".intercalate (q.clauses.map fun (role, clause) => role.sign ++ describe clause)
  let least := if 0 < q.rules.minOptional then s!"~{q.rules.minOptional}" else ""
  s!"({clauses}){least}"

/-- A text by which people tell queries apart. -/
def Query.describe : {height : Nat} → Query height → String
  | 0, q => nomatch q
  | _ + 1, .term q => q.describe
  | _ + 1, .boolean q => q.describe Query.describe

end Retrieval
