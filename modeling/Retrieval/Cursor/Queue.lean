import Retrieval.Cursor.Basic

/-!
# A queue of cursors

The queue yields the cursor that is furthest behind. It is a binary heap: every cursor stands at or
before the two that are below it. What the heap is ordered by is a note of where each cursor stood
when it was last moved through the queue.
-/

namespace Retrieval

/-- A cursor and the document that the queue takes it to stand on. -/
structure CursorQueue.Entry (σ : Type) where
  cursor : σ
  doc : DocId

/-- At most `capacity` cursors, in the order of a binary heap. -/
structure CursorQueue (σ : Type) where
  heap : Array (CursorQueue.Entry σ)
  capacity : Nat

namespace CursorQueue

variable {σ : Type}

/-- Let the entry at `i` rise until the one above it stands no later. -/
def siftUp (heap : Array (Entry σ)) (i : Nat) (inside : i < heap.size) : Array (Entry σ) :=
  if _nonroot : 0 < i then
    let parent := (i - 1) / 2
    if heap[parent].doc ≤ heap[i].doc then heap
    else siftUp (heap.swap i parent) parent (by simp; omega)
  else
    heap
termination_by i

/-- Which of the entries below `i` stands first; of two that stand on the same document, the left
one. -/
def smallerChild? (heap : Array (Entry σ)) (i : Nat) : Option (Fin heap.size) :=
  if left : 2 * i + 1 < heap.size then
    if right : 2 * i + 2 < heap.size then
      if heap[2 * i + 2].doc < heap[2 * i + 1].doc then some ⟨2 * i + 2, right⟩
      else some ⟨2 * i + 1, left⟩
    else some ⟨2 * i + 1, left⟩
  else none

theorem smallerChild?_bounds {heap : Array (Entry σ)} {i : Nat} {child : Fin heap.size}
    (found : smallerChild? heap i = some child) :
    child = 2 * i + 1 ∨ child = 2 * i + 2 := by
  unfold smallerChild? at found
  grind

/-- Let the entry at `i` sink until neither of those below it stands earlier. -/
def siftDown (heap : Array (Entry σ)) (i : Nat) (inside : i < heap.size) : Array (Entry σ) :=
  match found : smallerChild? heap i with
  | none => heap
  | some child =>
    if heap[i].doc ≤ heap[child].doc then heap
    else siftDown (heap.swap i child) child (by simp)
termination_by heap.size - i
decreasing_by
  have := smallerChild?_bounds found
  have := child.isLt
  simp only [Array.size_swap]
  omega

@[simp] theorem size_siftDown (heap : Array (Entry σ)) (i : Nat) (inside : i < heap.size) :
    (siftDown heap i inside).size = heap.size := by
  fun_induction siftDown heap i inside <;> simp_all

def empty (capacity : Nat) : CursorQueue σ where
  heap := #[]
  capacity

def size (q : CursorQueue σ) : Nat := q.heap.size

def isEmpty (q : CursorQueue σ) : Bool := q.heap.isEmpty

def top? (q : CursorQueue σ) : Option σ := q.heap[0]?.map (·.cursor)

def topDoc (q : CursorQueue σ) : DocId := (q.heap[0]?.map (·.doc)).getD .afterLast

def push (q : CursorQueue σ) (entry : Entry σ) : CursorQueue σ :=
  { q with heap := siftUp (q.heap.push entry) q.heap.size (by simp) }

/-- The queue without the cursor that is furthest behind. The last entry takes the empty place and
sinks from there. -/
def dropTop (q : CursorQueue σ) : CursorQueue σ :=
  if nonempty : 0 < q.heap.size then
    let heap := (q.heap.swap 0 (q.heap.size - 1)).pop
    if rest : 0 < heap.size then { q with heap := siftDown heap 0 rest } else { q with heap }
  else
    q

/-- Take out the cursor that is furthest behind, as it stands. -/
def pop? (q : CursorQueue σ) : Option (σ × CursorQueue σ) :=
  q.top?.map (·, q.dropTop)

/-- Replace the cursor that is furthest behind by itself after a call, where it stands not being
looked at. -/
def withTop (q : CursorQueue σ) (cursor : σ) : CursorQueue σ :=
  { q with heap := q.heap.modify 0 fun entry => { entry with cursor } }

variable [Cursor σ]

/-- Look where the cursor in front stands now, and let it sink to its place. -/
def settleTop (q : CursorQueue σ) : CursorQueue σ :=
  let heap := q.heap.modify 0 fun entry => { entry with doc := Cursor.doc entry.cursor }
  if nonempty : 0 < heap.size then { q with heap := siftDown heap 0 nonempty } else q

/-- Insert a cursor, which is moved to its first document if it has not started. A cursor without a
document is left out, and `false` is answered. -/
def insert (q : CursorQueue σ) (cursor : σ) : Outcome (CursorQueue σ) Bool :=
  if q.capacity ≤ q.heap.size then
    .fail q (.queueFull q.capacity)
  else if Cursor.doc cursor = .beforeFirst then
    (Cursor.next cursor).bind (fun _ => q) fun found cursor =>
      .done (if found then q.push ⟨cursor, Cursor.doc cursor⟩ else q) found
  else if Cursor.doc cursor = .afterLast then
    .done q false
  else
    .done (q.push ⟨cursor, Cursor.doc cursor⟩) true

def topScore (q : CursorQueue σ) : Outcome (CursorQueue σ) Score :=
  match q.top? with
  | none => .fail q .scoreOfEmptyQueue
  | some cursor => (Cursor.score cursor).within q.withTop

/-- Move the cursor that is furthest behind, and drop it if it has no document left. Answers whether
it still has one. -/
def moveTop (q : CursorQueue σ) (move : σ → Outcome σ Bool) : Outcome (CursorQueue σ) Bool :=
  match q.top? with
  | none => .done q false
  | some cursor =>
    (move cursor).bind q.withTop fun found cursor =>
      let q := q.withTop cursor
      .done (if found then q.settleTop else q.dropTop) found

def nextTop (q : CursorQueue σ) : Outcome (CursorQueue σ) Bool := q.moveTop Cursor.next

def seekTop (q : CursorQueue σ) (target : DocId) : Outcome (CursorQueue σ) Bool :=
  q.moveTop (Cursor.seek · target)

/-- The moves left in all cursors, and one to drop each of them. -/
def movesLeft (q : CursorQueue σ) : Nat :=
  Cursor.movesLeftInAll 1 (q.heap.toList.map (·.cursor))

end CursorQueue

end Retrieval
