import Retrieval.Coordination.Rule
import Retrieval.Failure

/-!
# The coordination of one search

A boolean search counts the clauses that match the document being scored, and looks the factor for
that count up in a table made once, when the number of its clauses is final.
-/

namespace Retrieval

/-- The clauses that count, the factor for each number of them, and the count for one document. -/
structure Coordination where
  /-- How many clauses count. -/
  clauses : Nat := 0
  /-- The factor for each number of matched clauses; empty until it is tabulated. -/
  factors : List Score := []
  /-- How many clauses have been counted for `doc`. -/
  matched : UInt64 := 0
  /-- The document that the count belongs to. -/
  doc : DocId := .beforeFirst
  deriving DecidableEq

namespace Coordination

def addClause (c : Coordination) : Coordination :=
  { c with clauses := c.clauses + 1 }

def isTabulated (c : Coordination) : Bool :=
  !c.factors.isEmpty

/-- Tabulate the factor for every number of matched clauses from none to all. -/
def tabulate (c : Coordination) (rule : CoordRule) : Coordination :=
  { c with factors := (List.range (c.clauses + 1)).map (rule.factor · c.clauses) }

/-- Turn to a document. The count starts anew only if the document is another one. -/
def enter (c : Coordination) (doc : DocId) : Coordination :=
  if doc = c.doc then c else { c with matched := 0, doc }

def add (c : Coordination) (n : UInt64) : Coordination :=
  { c with matched := c.matched + n }

/-- Forget the count, but not the document it belonged to. -/
def clear (c : Coordination) : Coordination :=
  { c with matched := 0 }

/-- The factor for the present count. There is none if more clauses were counted than there are,
or if the factors were never tabulated. -/
def factor (c : Coordination) : Except Failure Score :=
  match c.factors[c.matched.toNat]? with
  | some factor => .ok factor
  | none => .error (.uncoordinated c.matched c.clauses)

end Coordination

end Retrieval
