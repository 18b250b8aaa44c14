import Mathlib.Data.Multiset.Basic
import Retrieval.Proofs.Exhaustion
import Retrieval.Proofs.Posting
import Retrieval.Proofs.QueueOperations

/-!
# A queue keeps its cursors

What a queue holds does not depend on the order that it is held in. An operation puts one cursor in,
takes one out or moves one, and none is lost or doubled on the way: sifting swaps entries, and the
entry that fills the place of the first one comes from the last. So whoever takes the cursors out
one after the other gets each of them once, the ones furthest behind first.
-/

namespace Retrieval

/-- A place in a posting list is not changed by a seek that fails. -/
theorem PostingCursor.state_of_refused {c : PostingCursor} {t : DocId} {failure : Failure}
    (failed : (Cursor.seek c t).answer = .error failure) : (Cursor.seek c t).state = c := by
  change (PostingCursor.seek c t).answer = _ at failed
  show (PostingCursor.seek c t).state = c
  rw [PostingCursor.seek] at failed ⊢
  split at failed
  · next negative => rw [if_pos negative, Outcome.fail]
  · cases failed

namespace CursorQueue

open Outcome

variable {σ : Type} {q q' : CursorQueue σ} {c : σ} {e : Entry σ} {entries rest : List (Entry σ)}

/-- The cursors in a queue, in no particular order. -/
def held (q : CursorQueue σ) : Multiset σ := ↑(q.heap.toList.map (·.cursor))

theorem card_held (q : CursorQueue σ) : q.held.card = q.size := by
  rw [held, Multiset.coe_card, List.length_map, Array.length_toList, size]

theorem Holds.held_eq (h : Holds q entries) : q.held = ↑(entries.map (·.cursor)) :=
  Multiset.coe_eq_coe.mpr (h.perm.map _)

theorem Fronts.held_eq (h : Fronts q e rest) : q.held = e.cursor ::ₘ ↑(rest.map (·.cursor)) :=
  h.holds.held_eq

theorem held_push (q : CursorQueue σ) (e : Entry σ) : (q.push e).held = e.cursor ::ₘ q.held := by
  have sifted : (q.push e).heap.toList.Perm (q.heap.push e).toList := siftUp_perm _ _ _
  rw [Array.toList_push] at sifted
  have perm := sifted.trans (List.perm_append_singleton e q.heap.toList)
  exact Multiset.coe_eq_coe.mpr (perm.map (·.cursor))

theorem size_dropTop (nonempty : 0 < q.size) : q.dropTop.size + 1 = q.size := by
  rw [size] at nonempty
  have fewer : (q.heap.swap 0 (q.heap.size - 1)).pop.size + 1 = q.heap.size := by
    rw [Array.size_pop, Array.size_swap]
    omega
  rw [dropTop, dif_pos nonempty]
  dsimp only
  split
  · rwa [size, size_siftDown]
  · exact fewer

theorem size_of_pop? (popped : q.pop? = some (c, q')) : q'.size + 1 = q.size := by
  obtain ⟨_, top, eq⟩ := Option.map_eq_some_iff.mp popped
  obtain ⟨-, rfl⟩ := Prod.mk.inj eq
  obtain ⟨e, front, -⟩ := Option.map_eq_some_iff.mp top
  exact size_dropTop (Array.getElem?_eq_some_iff.mp front).1

def popAll (q : CursorQueue σ) : List σ :=
  match _popped : q.pop? with
  | none => []
  | some (c, q') => c :: popAll q'
termination_by q.size
decreasing_by
  have := size_of_pop? _popped
  omega

variable [Cursor σ] {capacity : Nat}

/-- The cursors in a queue are `c` and others, none of which is behind `c`. -/
structure Leading (q : CursorQueue σ) (c : σ) (others : Multiset σ) : Prop where
  held_eq : q.held = c ::ₘ others
  first : ∀ x ∈ others, Cursor.doc c ≤ Cursor.doc x

/-- The first cursor has been moved, which has had the outcome `moved`, and the others have not been
touched. -/
inductive Replaced (q : CursorQueue σ) (others : Multiset σ) (moved : Outcome σ Bool)
    (o : Outcome (CursorQueue σ) Bool) : Prop
  | found (eq : moved.answer = .ok true) (answer : o.answer = .ok true)
      (held : o.state.held = moved.state ::ₘ others)
  | missed (eq : moved.answer = .ok false) (answer : o.answer = .ok false)
      (held : o.state.held = others)
  | failed {failure : Failure} (eq : moved.answer = .error failure)
      (answer : o.answer = .error failure) (held : o.state.held = q.held)

/-- In a sound queue the first cursor leads the others. -/
theorem Sound.leading (h : Sound capacity q) (front : q.heap[0]? = some e) :
    ∃ rest, Fronts q e rest ∧ Leading q e.cursor ↑(rest.map (·.cursor)) := by
  obtain ⟨rest, fronts, noted, -⟩ := h.front front
  refine ⟨rest, fronts, fronts.held_eq, fun x inside => ?_⟩
  obtain ⟨y, there, rfl⟩ := List.mem_map.mp (Multiset.mem_coe.mp inside)
  have present : y ∈ q.heap.toList :=
    fronts.holds.perm.mem_iff.mpr (List.mem_cons_of_mem _ there)
  obtain ⟨i, bound, rfl⟩ := Array.mem_iff_getElem.mp (Array.mem_toList_iff.mp present)
  have some : 0 < q.heap.size := (Array.getElem?_eq_some_iff.mp front).1
  have le := h.ordered.first_le i bound
  rw [docAt_eq some, docAt_eq bound, (Array.getElem?_eq_some_iff.mp front).2] at le
  rwa [← noted _ there, ← h.noted e (Array.mem_of_getElem? front)]

omit [Cursor σ] in
theorem exists_front (nonempty : q.held ≠ 0) : ∃ e, q.heap[0]? = some e := by
  have some : 0 < q.heap.size := by
    rw [← size, ← card_held]
    exact Multiset.card_pos.mpr nonempty
  exact ⟨_, Array.getElem?_eq_getElem some⟩

omit [Cursor σ] in
theorem top?_of_held (empty : q.held = 0) : q.top? = none := by
  have none : q.heap.size = 0 := by
    rw [← size, ← card_held, empty, Multiset.card_zero]
  rw [top?, Array.getElem?_eq_none (Nat.le_of_eq none)]
  rfl

/-- Taking out the first cursor leaves the others. -/
theorem Sound.pop? (h : Sound capacity q) (nonempty : q.held ≠ 0) :
    ∃ c, q.pop? = some (c, q.dropTop) ∧ Leading q c q.dropTop.held := by
  obtain ⟨e, front⟩ := exists_front nonempty
  obtain ⟨rest, fronts, leading⟩ := h.leading front
  refine ⟨e.cursor, ?_, fronts.dropTop.held_eq ▸ leading⟩
  rw [CursorQueue.pop?, fronts.top?_eq]
  rfl

/-- A move of the first cursor, if a failing move leaves cursors as they are. -/
theorem Sound.replaced (h : Sound capacity q) (nonempty : q.held ≠ 0)
    (move : σ → Outcome σ Bool)
    (stays : ∀ {c failure}, (move c).answer = .error failure → (move c).state = c) :
    ∃ c others, Leading q c others ∧ Replaced q others (move c) (q.moveTop move) := by
  obtain ⟨e, front⟩ := exists_front nonempty
  obtain ⟨rest, fronts, leading⟩ := h.leading front
  refine ⟨e.cursor, _, leading, ?_⟩
  rw [CursorQueue.moveTop, fronts.top?_eq]
  dsimp only
  cases answer : (move e.cursor).answer with
  | error failure =>
      rw [bind_of_error answer]
      refine .failed answer rfl ?_
      rw [stays answer]
      exact (fronts.withTop e.cursor).held_eq.trans fronts.held_eq.symm
  | ok found =>
      have front' := fronts.withTop (move e.cursor).state
      rw [bind_of_ok answer]
      cases found with
      | true => exact .found answer rfl front'.settleTop.held_eq
      | false => exact .missed answer rfl front'.dropTop.held_eq

/-- Taking out all cursors yields each of them once, in the order of where they stand. The induction
follows the queue that is left. -/
theorem Sound.popAll_eq (h : Sound capacity q) : (q.popAll : Multiset σ) = q.held ∧
    q.popAll.Pairwise fun c c' => Cursor.doc c ≤ Cursor.doc c' := by
  fun_induction popAll q with
  | case1 q none =>
      have empty : q.held = 0 := by
        by_contra nonempty
        obtain ⟨c, popped, -⟩ := h.pop? nonempty
        rw [none] at popped
        contradiction
      exact ⟨empty.symm, List.Pairwise.nil⟩
  | case2 q c q' popped ih =>
      have nonempty : q.held ≠ 0 := by
        intro empty
        rw [CursorQueue.pop?, top?_of_held empty] at popped
        contradiction
      obtain ⟨c', popped', held, first⟩ := h.pop? nonempty
      obtain ⟨rfl, rfl⟩ := Prod.mk.inj (Option.some.inj (popped.symm.trans popped'))
      obtain ⟨same, sorted⟩ := ih h.dropTop
      refine ⟨?_, List.pairwise_cons.mpr ⟨fun x inside => first x ?_, sorted⟩⟩
      · rw [← Multiset.cons_coe, same, held]
      · rwa [← same, Multiset.mem_coe]

/-- What the operations on a queue of posting cursors do to the cursors in it. -/
structure Conserves (q : CursorQueue PostingCursor) : Prop where
  /-- A full queue refuses a cursor and stays as it is. -/
  insert_full : ∀ c, q.capacity ≤ q.size → q.insert c = .fail q (.queueFull q.capacity)
  /-- A cursor that stands on a document is put in as it is. -/
  insert_started : ∀ c : PostingCursor, q.size < q.capacity → c.started = true →
    Cursor.doc c ≠ .afterLast → ∃ q', q.insert c = .done q' true ∧ q'.held = c ::ₘ q.held
  /-- A cursor that has not started is moved, and put in if that finds a document. -/
  insert_fresh : ∀ c : PostingCursor, q.size < q.capacity → c.started = false →
    ∃ q' c' found, Cursor.next c = .done c' found ∧ q.insert c = .done q' found ∧
      q'.held = if found then c' ::ₘ q.held else q.held
  /-- A cursor that none is behind is taken out as it is. -/
  pop : q.held ≠ 0 → ∃ c q', q.pop? = some (c, q') ∧ Leading q c q'.held
  /-- A cursor that none is behind is moved to its next document. -/
  next : q.held ≠ 0 →
    ∃ c others, Leading q c others ∧ Replaced q others (Cursor.next c) q.nextTop
  /-- A cursor that none is behind is sent to the target. -/
  seek : ∀ t, q.held ≠ 0 →
    ∃ c others, Leading q c others ∧ Replaced q others (Cursor.seek c t) (q.seekTop t)
  /-- An empty queue has nothing to take out or to move. -/
  empty : q.held = 0 → q.pop? = none ∧ q.nextTop = .done q false ∧
    ∀ t, q.seekTop t = .done q false
  score : q.topScore.state.held = q.held
  /-- Each cursor is taken out once, one that is further behind before one that is further on. -/
  popAll : (q.popAll : Multiset PostingCursor) = q.held ∧
    q.popAll.Pairwise fun c c' => Cursor.doc c ≤ Cursor.doc c'

theorem Sound.conserves {q : CursorQueue PostingCursor} (h : Sound capacity q) : Conserves q where
  insert_full := by
    intro c full
    have full : q.capacity ≤ q.heap.size := full
    rw [CursorQueue.insert, if_pos full]
  insert_started := by
    intro c room started going
    have space : ¬ q.capacity ≤ q.heap.size := Nat.not_le.mpr room
    have standing : Cursor.doc c ≠ .beforeFirst :=
      (Int32.ne_of_lt (PostingCursor.beforeFirst_lt_doc started)).symm
    rw [CursorQueue.insert, if_neg space, if_neg standing, if_neg going]
    exact ⟨_, rfl, held_push q _⟩
  insert_fresh := by
    intro c room fresh
    have space : ¬ q.capacity ≤ q.heap.size := Nat.not_le.mpr room
    have unmoved : Cursor.doc c = .beforeFirst := by
      show c.doc = _
      rw [PostingCursor.doc, fresh]
      rfl
    have moved : Cursor.next c = .done c.step (!c.step.isExhausted) := rfl
    rw [CursorQueue.insert, if_neg space, if_pos unmoved, moved, bind_done]
    refine ⟨_, c.step, _, rfl, rfl, ?_⟩
    split
    · exact held_push q _
    · rfl
  pop := by
    intro nonempty
    obtain ⟨c, popped, leading⟩ := h.pop? nonempty
    exact ⟨c, _, popped, leading⟩
  next := fun nonempty => h.replaced nonempty Cursor.next fun failed => nomatch failed
  seek := fun t nonempty => h.replaced nonempty (Cursor.seek · t) PostingCursor.state_of_refused
  empty := by
    intro empty
    have none := top?_of_held empty
    have moves : ∀ move : PostingCursor → Outcome PostingCursor Bool,
        q.moveTop move = .done q false := by
      intro move
      rw [CursorQueue.moveTop, none]
    refine ⟨?_, moves _, fun _ => moves _⟩
    rw [CursorQueue.pop?, none]
    rfl
  score := by
    rw [CursorQueue.topScore]
    cases top : q.heap[0]? with
    | none => rw [top?, top]; rfl
    | some e =>
        obtain ⟨rest, fronts, -⟩ := h.leading top
        rw [fronts.top?_eq, fronts.held_eq]
        have kept : ((Cursor.score e.cursor).within q.withTop).state.held =
            (Cursor.score e.cursor).state ::ₘ ↑(rest.map (·.cursor)) := (fronts.withTop _).held_eq
        rwa [PostingCursor.state_score] at kept
  popAll := h.popAll_eq

/-- Whatever has been done with a queue of posting cursors, and whether or not it failed, every
operation keeps the cursors but the one it is about. -/
theorem conserves_after (capacity : Nat) (operations : List (Operation PostingCursor)) :
    Conserves (after capacity operations) :=
  (sound_after PostingCursor.steady capacity operations).conserves

end CursorQueue

end Retrieval
