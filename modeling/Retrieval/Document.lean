import Retrieval.Score

/-!
# Documents and hits

Documents are numbered by 32-bit integers. Two numbers never belong to a document that a cursor
stands on in the ordinary course of a search: one before every document and one after them all.
-/

namespace Retrieval

/-- The number of a document; ordinary documents have a nonnegative one. -/
abbrev DocId := Int32

namespace DocId

/-- Where a cursor stands that has not been moved yet. -/
def beforeFirst : DocId := -1

/-- Where a cursor stands that has no document left. It is the largest number there is, so that
every document is at or before it. -/
def afterLast : DocId := 2147483647

end DocId

structure Hit where
  doc : DocId
  score : Score
  deriving DecidableEq

end Retrieval
