import Retrieval.Proofs.Progress
import Retrieval.Proofs.Traversal

/-!
# Halving and stepping

A posting cursor that is sent to a target finds its place by halving. It could as well have moved to
the next document time and again: both ways give the same answer and end in the same state, from
wherever the cursor starts. A move from before the target does not change where halving leads to, so
the moves can be taken back one by one.
-/

namespace Retrieval

namespace DocId

theorem le_afterLast (d : DocId) : d ≤ afterLast := by
  rw [Int32.le_iff_toInt_le]
  exact Int32.toInt_le d

end DocId

namespace PostingList

variable {list : PostingList} {start place : Nat} {t : DocId}

/-- The place that a search ends on is the only one that parts the postings before the target from
the others. -/
theorem findFrom_eq (valid : start ≤ list.postings.size) (le : start ≤ place)
    (bounded : place ≤ list.postings.size)
    (before : ∀ i (inside : i < list.postings.size), start ≤ i → i < place →
      list.postings[i].doc < t)
    (after : ∀ inside : place < list.postings.size, t ≤ list.postings[place].doc) :
    list.findFrom start t = place := by
  obtain ⟨⟨le', bounded'⟩, before', after'⟩ := list.findFrom_spec t valid
  apply Nat.le_antisymm
  · by_contra later
    have inside : place < list.postings.size := by omega
    exact Int32.not_le.mpr (before' place inside le (by omega)) (after inside)
  · by_contra earlier
    have inside : list.findFrom start t < list.postings.size := by omega
    exact Int32.not_le.mpr (before _ inside le' (by omega)) (after' _ inside (Nat.le_refl _))

/-- A search may as well begin after a posting that lies before the target. -/
theorem findFrom_succ (inside : start < list.postings.size) (lt : list.postings[start].doc < t) :
    list.findFrom (start + 1) t = list.findFrom start t := by
  obtain ⟨⟨le, bounded⟩, before, after⟩ := list.findFrom_spec t (Nat.le_of_lt inside)
  have moved : list.findFrom start t ≠ start := fun same =>
    Int32.not_le.mpr lt (after start inside (Nat.le_of_eq same))
  refine findFrom_eq inside (by omega) bounded (fun i there le' => before i there (by omega)) ?_
  exact fun there => after _ there (Nat.le_refl _)

end PostingList

namespace PostingCursor

variable {c : PostingCursor} {t : DocId}

theorem doc_of_isExhausted (exhausted : c.isExhausted = true) : c.doc = .afterLast := by
  have ⟨started, out⟩ : c.started = true ∧ c.list.size ≤ c.place := by
    simpa [isExhausted] using exhausted
  rw [doc, if_pos started, posting?, Array.getElem?_eq_none out]
  rfl

/-- A started cursor that stands before some target has not run out. -/
theorem place_lt_of_doc_lt (started : c.started = true) (before : c.doc < t) :
    c.place < c.list.size := by
  by_contra out
  have exhausted : c.isExhausted = true := by simp [isExhausted, started, Nat.not_lt.mp out]
  rw [doc_of_isExhausted exhausted] at before
  exact Int32.not_lt.mpr (DocId.le_afterLast t) before

/-- From before a target, every step uses up a move, also one that finds nothing any more. -/
theorem movesLeft_step_lt (before : c.doc < t) : c.step.movesLeft < c.movesLeft := by
  by_cases started : c.started = true
  · have inside := place_lt_of_doc_lt started before
    simp only [step, movesLeft, started, inside, if_true]
    omega
  · simp [step, movesLeft, started]

/-- Go on from a move as long as the last one has found a document before the target. -/
def onward (moved : Outcome PostingCursor Bool) (target : DocId) : Outcome PostingCursor Bool :=
  if moved.answer = .ok true ∧ Cursor.doc moved.state < target then
    onward (Cursor.next moved.state) target
  else
    moved
termination_by Cursor.movesLeft moved.state
decreasing_by
  rename_i going
  exact movesLeft_step_lt going.2

/-- Go to the target by moves to the next document. The first one is made in any case if the cursor
has not started. -/
def walkTo (c : PostingCursor) (target : DocId) : Outcome PostingCursor Bool :=
  onward (if c.started then .done c (!c.isExhausted) else Cursor.next c) target

/-- A step from before the target does not change where halving leads to. -/
theorem jump_step (before : c.doc < t) : c.step.jump t = c.jump t := by
  by_cases started : c.started = true
  · have inside := place_lt_of_doc_lt started before
    rw [doc, if_pos started, posting?, Array.getElem?_eq_getElem inside] at before
    have same := c.list.findFrom_succ inside before
    rw [step, if_pos started, if_pos inside]
    simp only [jump, if_pos inside]
    by_cases further : c.place + 1 < c.list.size
    · rw [if_pos further, same]
    · have out : c.list.postings.size ≤ c.place + 1 := Nat.not_lt.mp further
      have valid : c.place + 1 ≤ c.list.postings.size := inside
      obtain ⟨⟨le, bounded⟩, -⟩ := c.list.findFrom_spec t valid
      rw [same] at le bounded
      rw [if_neg further, show c.list.findFrom c.place t = c.place + 1 by omega]
  · rw [step, if_neg started]
    rfl

/-- A cursor that has run out, or stands at the target or after it, is where halving leads to. -/
theorem jump_of_reached (nonneg : 0 ≤ t) (reached : ¬ (c.isExhausted = false ∧ c.doc < t)) :
    c.jump t = c := by
  refine jump_of_le nonneg ?_
  cases exhausted : c.isExhausted with
  | true => exact doc_of_isExhausted exhausted ▸ DocId.le_afterLast t
  | false => exact Int32.not_lt.mp fun before => reached ⟨exhausted, before⟩

/-- Moves from document to document end where halving leads to. The induction is along the moves. -/
theorem onward_eq (nonneg : 0 ≤ t) (moved : Outcome PostingCursor Bool)
    (found : moved = .done c (!c.isExhausted)) :
    onward moved t = .done (c.jump t) (!(c.jump t).isExhausted) := by
  fun_induction onward moved t generalizing c with
  | case1 moved going ih =>
    subst found
    have before : c.doc < t := going.2
    exact jump_step before ▸ ih rfl
  | case2 moved stopped =>
    subst found
    have reached : ¬ (c.isExhausted = false ∧ c.doc < t) := fun ⟨more, before⟩ =>
      stopped ⟨by simp [Outcome.done, more], before⟩
    rw [jump_of_reached nonneg reached]

/-- Wherever a posting cursor is, sending it to a target that is not negative comes to the same as
moving it to the next document, in any case if it has not started, and then as long as there is one
before the target. A negative target is refused, and the cursor stays as it is. -/
theorem seek_eq_walkTo (c : PostingCursor) (t : DocId) :
    (0 ≤ t → Cursor.seek c t = c.walkTo t) ∧
      (t < 0 → ∃ failure, Cursor.seek c t = .fail c failure ∧ failure.kind = .invalidArgument) := by
  refine ⟨fun nonneg => ?_, fun negative => ⟨.negativeTarget t, if_pos negative, rfl⟩⟩
  rw [c.seek_of_nonneg nonneg, walkTo]
  by_cases started : c.started = true
  · rw [if_pos started, onward_eq nonneg _ rfl]
  · have before : c.doc < t := by
      rw [doc, if_neg started]
      exact DocId.beforeFirst_lt nonneg
    rw [if_neg started, onward_eq nonneg (Cursor.next c) (c := c.step) rfl, jump_step before]

/-- A cursor on the first of three postings. -/
def leading : PostingCursor :=
  .atPlace ⟨#[⟨3, 1⟩, ⟨8, 1⟩, ⟨12, 1⟩], by decide, by decide⟩ 1 0

/-- A target that lies between two postings, and one that lies before all documents. -/
theorem seek_eq_walkTo_leading :
    (0 : DocId) ≤ 10 ∧ Cursor.seek leading 10 = leading.walkTo 10 ∧ (-4 : DocId) < 0 ∧
      ∃ failure, Cursor.seek leading (-4) = .fail leading failure ∧
        failure.kind = .invalidArgument :=
  ⟨by decide, (seek_eq_walkTo leading 10).1 (by decide), by decide,
    (seek_eq_walkTo leading (-4)).2 (by decide)⟩

end PostingCursor

end Retrieval
