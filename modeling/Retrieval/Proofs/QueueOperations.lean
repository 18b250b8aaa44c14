import Retrieval.Posting.Cursor
import Retrieval.Proofs.Queue

/-!
# A queue through all its operations

Nobody has to use a queue as a threshold does. Cursors may be inserted wherever they stand, taken
out, moved outside and inserted again, and calls on the first one may fail. Through all of this the
heap stays in order and its notes stay true, because a call that fails leaves a cursor where it
stands, and a call that is answered is followed by looking where the cursor stands now, or by
dropping it.
-/

namespace Retrieval

namespace Cursor

/-- Cursors that stay where they stand when a move fails and when they are asked for a score. -/
structure Steady (σ : Type) [Cursor σ] : Prop where
  next : ∀ {c : σ} {failure}, (Cursor.next c).answer = .error failure →
    Cursor.doc (Cursor.next c).state = Cursor.doc c
  seek : ∀ {c : σ} {t failure}, (Cursor.seek c t).answer = .error failure →
    Cursor.doc (Cursor.seek c t).state = Cursor.doc c
  score : ∀ c : σ, Cursor.doc (Cursor.score c).state = Cursor.doc c

end Cursor

/-- A place in a posting list is changed by moves that are answered, and by nothing else. -/
theorem PostingCursor.steady : Cursor.Steady PostingCursor where
  next := fun failed => nomatch failed
  seek := by
    intro c t failure failed
    simp only [Cursor.seek, seek] at failed ⊢
    split at failed
    · next negative => rw [if_pos negative, Outcome.fail]
    · nomatch failed
  score := by
    intro c
    simp only [Cursor.score, score]
    split
    · split <;> rfl
    · rfl

namespace CursorQueue

/-- What can be done with a queue. -/
inductive Operation (σ : Type) where
  /-- Insert a cursor, wherever it stands. It may be one that was taken out before. -/
  | insert (cursor : σ)
  /-- Take the first cursor out. -/
  | pop
  /-- Move the first cursor to its next document. -/
  | next
  /-- Send the first cursor to a target. -/
  | seek (target : DocId)
  /-- Ask the first cursor for its score. -/
  | score

variable {σ : Type}

theorem capacity_dropTop (q : CursorQueue σ) : q.dropTop.capacity = q.capacity := by
  unfold dropTop
  split
  · dsimp only
    split <;> rfl
  · rfl

variable [Cursor σ]

/-- The queue that an operation leaves, whether or not it fails. -/
def Operation.perform (q : CursorQueue σ) : Operation σ → CursorQueue σ
  | insert cursor => (q.insert cursor).state
  | pop => (q.pop?.map (·.2)).getD q
  | next => q.nextTop.state
  | seek target => (q.seekTop target).state
  | score => q.topScore.state

/-- The queue that is left after some operations on an empty one, done one after the other. -/
def after (capacity : Nat) (operations : List (Operation σ)) : CursorQueue σ :=
  operations.foldl Operation.perform (empty capacity)

/-- A queue for so many cursors, in order, whose notes tell where they stand. -/
structure Sound (capacity : Nat) (q : CursorQueue σ) : Prop where
  ordered : Ordered q.heap
  noted : ∀ e ∈ q.heap, e.doc = Cursor.doc e.cursor
  room : q.heap.size ≤ capacity
  limit : q.capacity = capacity

variable {capacity : Nat} {q : CursorQueue σ} {e : Entry σ} {entries rest : List (Entry σ)}

/-- Whether a queue is sound can be seen from the entries, in whichever order they are listed. -/
theorem Holds.sound (h : Holds q entries) (noted : ∀ e ∈ entries, e.doc = Cursor.doc e.cursor)
    (room : entries.length ≤ capacity) (limit : q.capacity = capacity) : Sound capacity q where
  ordered := h.ordered
  noted := fun e inside => noted e (h.perm.mem_iff.mp (Array.mem_toList_iff.mpr inside))
  room := h.length_eq ▸ room
  limit := limit

theorem sound_empty (capacity : Nat) : Sound capacity (empty capacity : CursorQueue σ) :=
  (holds_empty capacity).sound (fun _ inside => nomatch inside) (Nat.zero_le _) rfl

/-- A sound queue with some cursor in front: all notes are true, and there was room for it. -/
theorem Sound.front (h : Sound capacity q) (front : q.heap[0]? = some e) :
    ∃ rest, Fronts q e rest ∧ (∀ x ∈ rest, x.doc = Cursor.doc x.cursor) ∧
      rest.length + 1 ≤ capacity := by
  obtain ⟨e', rest, split⟩ : ∃ e' rest, q.heap.toList = e' :: rest := by
    apply List.exists_cons_of_length_pos
    exact (Array.getElem?_eq_some_iff.mp front).1
  obtain rfl : e' = e := by
    rw [← Array.getElem?_toList, split] at front
    exact Option.some.inj front
  refine ⟨rest, ⟨⟨h.ordered, .of_eq split⟩, front⟩, fun x inside => h.noted x ?_, ?_⟩
  · apply Array.mem_toList_iff.mp
    exact split ▸ List.mem_cons_of_mem _ inside
  · have size := h.room
    rwa [← Array.length_toList, split, List.length_cons] at size

theorem Sound.push (h : Sound capacity q) (room : q.heap.size < capacity) (c : σ) :
    Sound capacity (q.push ⟨c, Cursor.doc c⟩) := by
  have held : Holds q q.heap.toList := ⟨h.ordered, .refl _⟩
  refine (held.push ⟨c, Cursor.doc c⟩).sound ?_ (Nat.succ_le_of_lt room) h.limit
  intro x inside
  cases inside with
  | head => rfl
  | tail _ inside => exact h.noted x (Array.mem_toList_iff.mp inside)

theorem capacity_settleTop (q : CursorQueue σ) : q.settleTop.capacity = q.capacity := by
  unfold settleTop
  dsimp only
  split <;> rfl

/-- Nothing is known about the note for the first cursor, but all others are true. -/
structure Pending (capacity : Nat) (q : CursorQueue σ) (e : Entry σ) (rest : List (Entry σ)) :
    Prop where
  fronts : Fronts q e rest
  noted : ∀ x ∈ rest, x.doc = Cursor.doc x.cursor
  room : rest.length + 1 ≤ capacity
  limit : q.capacity = capacity

/-- Dropping the first cursor leaves true notes, ... -/
theorem Pending.dropTop (h : Pending capacity q e rest) : Sound capacity q.dropTop :=
  h.fronts.dropTop.sound h.noted (Nat.le_of_succ_le h.room) ((capacity_dropTop q).trans h.limit)

/-- ... and so does looking where it stands. -/
theorem Pending.settleTop (h : Pending capacity q e rest) : Sound capacity q.settleTop := by
  refine h.fronts.settleTop.sound ?_ h.room ((capacity_settleTop q).trans h.limit)
  intro x inside
  cases inside with
  | head => rfl
  | tail _ inside => exact h.noted x inside

theorem Pending.sound (h : Pending capacity q e rest) (noted : e.doc = Cursor.doc e.cursor) :
    Sound capacity q := by
  refine h.fronts.holds.sound ?_ h.room h.limit
  intro x inside
  cases inside with
  | head => exact noted
  | tail _ inside => exact h.noted x inside

/-- A call on the first cursor leaves its note pending. -/
theorem Sound.withTop (h : Sound capacity q) (front : q.heap[0]? = some e) (cursor : σ) :
    ∃ rest, Pending capacity (q.withTop cursor) ⟨cursor, e.doc⟩ rest := by
  obtain ⟨rest, fronts, noted, room⟩ := h.front front
  exact ⟨rest, fronts.withTop cursor, noted, room, h.limit⟩

/-- A call on the first cursor that leaves it where it stands. -/
theorem Sound.keepTop (h : Sound capacity q) (front : q.heap[0]? = some e) {cursor : σ}
    (stays : Cursor.doc cursor = Cursor.doc e.cursor) : Sound capacity (q.withTop cursor) := by
  obtain ⟨rest, pending⟩ := h.withTop front cursor
  apply pending.sound
  exact (h.noted e (Array.mem_of_getElem? front)).trans stays.symm

theorem Sound.dropTop (h : Sound capacity q) : Sound capacity q.dropTop := by
  cases front : q.heap[0]? with
  | none =>
      have none : ¬ 0 < q.heap.size := Nat.not_lt.mpr (Array.getElem?_eq_none_iff.mp front)
      rwa [CursorQueue.dropTop, dif_neg none]
  | some e =>
      obtain ⟨rest, fronts, noted, room⟩ := h.front front
      exact Pending.dropTop ⟨fronts, noted, room, h.limit⟩

/-- A move of the first cursor, if a failing move leaves cursors where they stand. -/
theorem Sound.moveTop (h : Sound capacity q) {move : σ → Outcome σ Bool}
    (stays : ∀ {c failure}, (move c).answer = .error failure →
      Cursor.doc (move c).state = Cursor.doc c) : Sound capacity (q.moveTop move).state := by
  unfold CursorQueue.moveTop top?
  cases front : q.heap[0]? with
  | none => exact h
  | some e =>
      rcases outcome : move e.cursor with ⟨failure | found, cursor, marks⟩
      · have failed : (move e.cursor).answer = .error failure := congrArg Outcome.answer outcome
        have same := stays failed
        simp only [Option.map_some, outcome] at same ⊢
        exact h.keepTop front same
      · obtain ⟨rest, pending⟩ := h.withTop front cursor
        simp only [Option.map_some, outcome, Outcome.bind_ok]
        cases found with
        | true => exact pending.settleTop
        | false => exact pending.dropTop

theorem Sound.topScore (steady : Cursor.Steady σ) (h : Sound capacity q) :
    Sound capacity q.topScore.state := by
  unfold CursorQueue.topScore top?
  cases front : q.heap[0]? with
  | none => exact h
  | some e => exact h.keepTop front (steady.score e.cursor)

/-- A full queue refuses a cursor, and one that fails to start is not put into the queue. -/
theorem Sound.insert (h : Sound capacity q) (c : σ) : Sound capacity (q.insert c).state := by
  unfold CursorQueue.insert
  split
  · exact h
  next space =>
    have room : q.heap.size < capacity := h.limit ▸ Nat.not_le.mp space
    split
    · apply Outcome.state_bind (Sound capacity) h
      intro found answered
      cases found with
      | true => exact h.push room _
      | false => exact h
    · split
      · exact h
      · exact h.push room c

/-- One operation. -/
theorem Sound.perform (steady : Cursor.Steady σ) (h : Sound capacity q) (op : Operation σ) :
    Sound capacity (op.perform q) := by
  cases op with
  | insert cursor => exact h.insert cursor
  | pop =>
      unfold Operation.perform pop?
      cases q.top? with
      | none => exact h
      | some c => exact h.dropTop
  | next => exact h.moveTop steady.next
  | seek target => exact h.moveTop steady.seek
  | score => exact h.topScore steady

/-- A run of operations. -/
theorem Sound.run (steady : Cursor.Steady σ) (operations : List (Operation σ))
    (h : Sound capacity q) : Sound capacity (operations.foldl Operation.perform q) := by
  induction operations generalizing q with
  | nil => exact h
  | cons op operations ih => exact ih (h.perform steady op)

theorem sound_after (steady : Cursor.Steady σ) (capacity : Nat) (operations : List (Operation σ)) :
    Sound capacity (after capacity operations) :=
  (sound_empty capacity).run steady operations

/-- What a queue for so many cursors is to be at any time. -/
structure InOrder (capacity : Nat) (q : CursorQueue σ) : Prop where
  /-- No entry comes before the one above it. -/
  above_le : ∀ (i : Nat) (_nonroot : 0 < i) (_inside : i < q.heap.size),
    q.heap[(i - 1) / 2].doc ≤ q.heap[i].doc
  /-- Every entry tells where its cursor stands. -/
  doc_eq : ∀ e ∈ q.heap, e.doc = Cursor.doc e.cursor
  size_le : q.size ≤ capacity
  /-- The first document is the least that any cursor stands on. -/
  topDoc_least : q.isEmpty = false → IsLeast {d | ∃ e ∈ q.heap, Cursor.doc e.cursor = d} q.topDoc
  topDoc_empty : q.isEmpty = true → q.topDoc = .afterLast

theorem Sound.inOrder (h : Sound capacity q) : InOrder capacity q where
  above_le := by
    intro i nonroot inside
    have le := h.ordered i nonroot inside
    rwa [docAt_eq inside, docAt_eq (by omega)] at le
  doc_eq := h.noted
  size_le := h.room
  topDoc_least := by
    intro nonempty
    have some : 0 < q.heap.size := by
      apply Nat.pos_of_ne_zero
      simpa [isEmpty] using nonempty
    have first : q.heap[0] ∈ q.heap := Array.getElem_mem some
    have top : q.topDoc = q.heap[0].doc := docAt_eq some
    refine ⟨⟨q.heap[0], first, ?_⟩, ?_⟩
    · exact (top.trans (h.noted _ first)).symm
    · rintro d ⟨e, inside, rfl⟩
      obtain ⟨i, there, rfl⟩ := Array.mem_iff_getElem.mp inside
      have le := h.ordered.first_le i there
      rwa [docAt_eq there, h.noted _ inside] at le
  topDoc_empty := by
    intro none
    have size : q.heap = #[] := by simpa [isEmpty] using none
    simp [topDoc, size]

/-- Whatever is done with a queue of posting cursors, and whether or not it fails, the queue is in
order afterwards. -/
theorem inOrder_after (capacity : Nat) (operations : List (Operation PostingCursor)) :
    InOrder capacity (after capacity operations) :=
  (sound_after PostingCursor.steady capacity operations).inOrder

end CursorQueue

end Retrieval
