import Retrieval.Cursor.Tree
import Retrieval.Query.Basic

/-!
# Searching for a query

Each search runs on a cursor of its own, which a query makes out of cursors for its parts.
-/

namespace Retrieval

def TermQuery.cursor (q : TermQuery) : PostingCursor := q.list.cursor q.boost

/-- A boolean search to which a cursor for each clause is added, in the order of the clauses. -/
def BooleanQuery.cursor {κ σ : Type} (q : BooleanQuery κ) (cursor : κ → Except Failure σ) :
    Except Failure (BooleanCursor σ) := do
  q.clauses.foldlM (fun search (role, clause) => do search.add role (← cursor clause))
    (← BooleanCursor.create q.rule q.rules)

/-- A fresh cursor over the documents that match the query. -/
def Query.cursor : {height : Nat} → Query height → Except Failure (Tree height)
  | 0, q => nomatch q
  | _ + 1, .term q => .ok (.posting q.cursor)
  | _ + 1, .boolean q => do return .boolean (← q.cursor Query.cursor)

end Retrieval
