import Retrieval.Cursor.Basic
import Retrieval.Posting.List

/-!
# Walking through a posting list

The leaves of every search: a place in a posting list, and a factor that all its weights are
multiplied by.
-/

namespace Retrieval

/-- A place in a posting list. -/
structure PostingCursor where
  list : PostingList
  boost : Score
  /-- The place of the posting it stands on, once started. -/
  place : Nat := 0
  started : Bool := false

namespace PostingCursor

/-- The posting it stands on, or would stand on if it were started. -/
def posting? (c : PostingCursor) : Option Posting := c.list.postings[c.place]?

def isExhausted (c : PostingCursor) : Bool := c.started && decide (c.list.size ≤ c.place)

def doc (c : PostingCursor) : DocId :=
  if c.started then (c.posting?.map (·.doc)).getD .afterLast else .beforeFirst

/-- The cursor after one step; the first step only starts it. -/
def step (c : PostingCursor) : PostingCursor :=
  if c.started then
    if c.place < c.list.size then { c with place := c.place + 1 } else c
  else
    { c with started := true }

def next (c : PostingCursor) : Outcome PostingCursor Bool :=
  .done c.step (!c.step.isExhausted)

/-- The cursor moved to the first posting at or after the target. -/
def jump (c : PostingCursor) (target : DocId) : PostingCursor :=
  { c with
    started := true
    place := if c.place < c.list.size then c.list.findFrom c.place target else c.place }

def seek (c : PostingCursor) (target : DocId) : Outcome PostingCursor Bool :=
  if target < 0 then
    .fail c (.negativeTarget target)
  else
    .done (c.jump target) (!(c.jump target).isExhausted)

def score (c : PostingCursor) : Outcome PostingCursor Score :=
  if c.started then
    match c.posting? with
    | some posting => .done c (posting.weight * c.boost)
    | none => .fail c .scoreAfterEnd
  else
    .fail c .scoreBeforeStart

/-- One move to start, and one for each posting from here on. -/
def movesLeft (c : PostingCursor) : Nat :=
  c.list.size - c.place + if c.started then 0 else 1

instance : Cursor PostingCursor where
  doc := doc
  next := next
  seek := seek
  score := score
  movesLeft := movesLeft

end PostingCursor

def PostingList.cursor (list : PostingList) (boost : Score) : PostingCursor := { list, boost }

/-- A cursor over some documents that all score the same; negative documents are left out. -/
def PostingCursor.ofDocs (docs : List DocId) (weight : Score) : PostingCursor :=
  (PostingList.ofValidDocs docs weight).cursor 1

end Retrieval
