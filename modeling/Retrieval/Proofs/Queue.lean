import Retrieval.Cursor.Queue
import Retrieval.Proofs.Contract

/-!
# The queue yields what is furthest behind

Sifting only swaps entries, so the queue holds the same ones in another order; and it leaves the
order of a heap, in which the first entry is the earliest of all. While an entry is sifted, the heap
is in order up to the pairs that the entry belongs to on the side it is moving to, and the entries
on its other side are in order with each other across it.

Callers see a queue as a first entry and the others, in an order that is of no concern.
-/

namespace Retrieval

namespace CursorQueue

variable {σ : Type}

/-- Where the entry at a place is taken to stand; after all documents if there is no such place. -/
def docAt (heap : Array (Entry σ)) (i : Nat) : DocId := (heap[i]?.map (·.doc)).getD .afterLast

theorem docAt_eq {heap : Array (Entry σ)} {i : Nat} (inside : i < heap.size) :
    docAt heap i = heap[i].doc := by
  simp [docAt, inside]

theorem docAt_swap_left {heap : Array (Entry σ)} {i j : Nat} (hi : i < heap.size)
    (hj : j < heap.size) : docAt (heap.swap i j) i = docAt heap j := by
  rw [docAt_eq (by simpa using hi), docAt_eq hj, Array.getElem_swap_left]

theorem docAt_swap_right {heap : Array (Entry σ)} {i j : Nat} (hi : i < heap.size)
    (hj : j < heap.size) : docAt (heap.swap i j) j = docAt heap i := by
  rw [docAt_eq (by simpa using hj), docAt_eq hi, Array.getElem_swap_right]

theorem docAt_swap_of_ne {heap : Array (Entry σ)} {i j k : Nat} (hi : i < heap.size)
    (hj : j < heap.size) (left : k ≠ i) (right : k ≠ j) :
    docAt (heap.swap i j) k = docAt heap k := by
  rw [docAt, Array.getElem?_swap, if_neg (Ne.symm right), if_neg (Ne.symm left), docAt]

/-- Every entry stands at or before those below it. -/
def Ordered (heap : Array (Entry σ)) : Prop :=
  ∀ c, 0 < c → c < heap.size → docAt heap ((c - 1) / 2) ≤ docAt heap c

/-- In order but for the entry at `i`, which may have to rise. -/
structure Rising (heap : Array (Entry σ)) (i : Nat) : Prop where
  except : ∀ c, 0 < c → c < heap.size → c ≠ i → docAt heap ((c - 1) / 2) ≤ docAt heap c
  across : ∀ c, 0 < c → c < heap.size → (c - 1) / 2 = i → 0 < i →
    docAt heap ((i - 1) / 2) ≤ docAt heap c

/-- In order but for the entry at `i`, which may have to sink. -/
structure Sinking (heap : Array (Entry σ)) (i : Nat) : Prop where
  except : ∀ c, 0 < c → c < heap.size → (c - 1) / 2 ≠ i → docAt heap ((c - 1) / 2) ≤ docAt heap c
  across : ∀ c, 0 < c → c < heap.size → (c - 1) / 2 = i → 0 < i →
    docAt heap ((i - 1) / 2) ≤ docAt heap c

/-- The entry at the root is the earliest. The induction follows the way up from a place. -/
theorem Ordered.first_le {heap : Array (Entry σ)} (ordered : Ordered heap) (i : Nat)
    (inside : i < heap.size) : docAt heap 0 ≤ docAt heap i := by
  induction i using Nat.strongRecOn with
  | ind i ih =>
      by_cases root : i = 0
      · rw [root]
        exact Int32.le_refl _
      · have above := ih ((i - 1) / 2) (by omega) (by omega)
        exact Int32.le_trans above (ordered i (by omega) inside)

theorem Rising.swap {heap : Array (Entry σ)} {i : Nat} (rising : Rising heap i)
    (inside : i < heap.size) (parent : (i - 1) / 2 < heap.size) (nonroot : 0 < i)
    (above : ¬ docAt heap ((i - 1) / 2) ≤ docAt heap i) :
    Rising (heap.swap i ((i - 1) / 2) inside parent) ((i - 1) / 2) := by
  have later : docAt heap i ≤ docAt heap ((i - 1) / 2) := (Int32.le_total _ _).resolve_left above
  constructor
  case except =>
    intro c positive bound apart
    rw [Array.size_swap] at bound
    by_cases self : c = i
    · rw [self, docAt_swap_left inside parent, docAt_swap_right inside parent]
      exact later
    rw [docAt_swap_of_ne (k := c) inside parent self apart]
    by_cases child : (c - 1) / 2 = i
    · rw [child, docAt_swap_left inside parent]
      exact rising.across c positive bound child nonroot
    by_cases sibling : (c - 1) / 2 = (i - 1) / 2
    · have below := rising.except c positive bound self
      rw [sibling] at below ⊢
      rw [docAt_swap_right inside parent]
      exact Int32.le_trans later below
    · rw [docAt_swap_of_ne inside parent child sibling]
      exact rising.except c positive bound self
  case across =>
    intro c positive bound child high
    rw [Array.size_swap] at bound
    have grand := rising.except ((i - 1) / 2) high parent (by omega)
    rw [docAt_swap_of_ne inside parent (by omega) (by omega)]
    by_cases self : c = i
    · rw [self, docAt_swap_left inside parent]
      exact grand
    · rw [docAt_swap_of_ne inside parent self (by omega)]
      have below := rising.except c positive bound self
      rw [child] at below
      exact Int32.le_trans grand below

theorem Rising.ordered {heap : Array (Entry σ)} {i : Nat} (rising : Rising heap i)
    (still : 0 < i → docAt heap ((i - 1) / 2) ≤ docAt heap i) : Ordered heap := by
  intro c positive bound
  by_cases self : c = i
  · rw [self] at positive ⊢
    exact still positive
  · exact rising.except c positive bound self

/-- An entry that rises leaves a heap in order. -/
theorem ordered_siftUp {heap : Array (Entry σ)} {i : Nat} (inside : i < heap.size)
    (rising : Rising heap i) : Ordered (siftUp heap i inside) := by
  fun_induction siftUp heap i inside with
  | case1 heap i inside nonroot parent stops =>
      apply rising.ordered
      intro _
      rwa [docAt_eq inside, docAt_eq (by omega)]
  | case2 heap i inside nonroot parent rises ih =>
      refine ih (rising.swap inside (by omega) nonroot ?_)
      rwa [docAt_eq inside, docAt_eq (by omega)]
  | case3 heap i inside root =>
      exact rising.ordered fun nonroot => absurd nonroot root

theorem siftUp_perm (heap : Array (Entry σ)) (i : Nat) (inside : i < heap.size) :
    (siftUp heap i inside).toList.Perm heap.toList := by
  fun_induction siftUp heap i inside with
  | case1 => exact List.Perm.refl _
  | case2 heap i inside nonroot parent rises ih =>
      exact ih.trans (Array.perm_iff_toList_perm.mp (Array.swap_perm _ _))
  | case3 => exact List.Perm.refl _

/-- The earlier of the entries below a place is as early as both. -/
theorem smallerChild?_le {heap : Array (Entry σ)} {i : Nat} {child : Fin heap.size}
    (found : smallerChild? heap i = some child) {c : Nat} (positive : 0 < c) (bound : c < heap.size)
    (below : (c - 1) / 2 = i) : docAt heap child ≤ docAt heap c := by
  have sides : c = 2 * i + 1 ∨ c = 2 * i + 2 := by omega
  unfold smallerChild? at found
  split at found
  · next left =>
    split at found
    · next right =>
      split at found
      · next earlier =>
        obtain rfl := Option.some.inj found
        rw [← docAt_eq right, ← docAt_eq left] at earlier
        obtain rfl | rfl := sides
        · exact Int32.le_of_lt earlier
        · exact Int32.le_refl _
      · next earlier =>
        obtain rfl := Option.some.inj found
        rw [← docAt_eq right, ← docAt_eq left] at earlier
        obtain rfl | rfl := sides
        · exact Int32.le_refl _
        · exact Int32.not_lt.mp earlier
    · obtain rfl := Option.some.inj found
      obtain rfl | rfl := sides
      · exact Int32.le_refl _
      · omega
  · contradiction

theorem smallerChild?_none {heap : Array (Entry σ)} {i : Nat} (none : smallerChild? heap i = none)
    {c : Nat} (positive : 0 < c) (bound : c < heap.size) : (c - 1) / 2 ≠ i := by
  unfold smallerChild? at none
  split at none
  · split at none
    · split at none <;> contradiction
    · contradiction
  · omega

theorem Sinking.swap {heap : Array (Entry σ)} {i : Nat} (sinking : Sinking heap i)
    (inside : i < heap.size) {child : Fin heap.size} (found : smallerChild? heap i = some child)
    (earlier : ¬ docAt heap i ≤ docAt heap child) :
    Sinking (heap.swap i child inside child.isLt) child := by
  have later : docAt heap child ≤ docAt heap i := (Int32.le_total _ _).resolve_left earlier
  have below : child = 2 * i + 1 ∨ child = 2 * i + 2 := smallerChild?_bounds found
  have bound' := child.isLt
  constructor
  case except =>
    intro c positive bound apart
    rw [Array.size_swap] at bound
    by_cases self : c = child
    · rw [self, docAt_swap_right inside bound', show ((child : Nat) - 1) / 2 = i by omega,
        docAt_swap_left inside bound']
      exact later
    by_cases sibling : (c - 1) / 2 = i
    · rw [sibling, docAt_swap_left inside bound', docAt_swap_of_ne inside bound' (by omega) self]
      exact smallerChild?_le found positive bound sibling
    rw [docAt_swap_of_ne inside bound' sibling apart]
    by_cases hole : c = i
    · rw [hole, docAt_swap_left inside bound']
      exact sinking.across child (by omega) bound' (by omega) (by omega)
    · rw [docAt_swap_of_ne inside bound' hole self]
      exact sinking.except c positive bound sibling
  case across =>
    intro c positive bound child' _
    rw [Array.size_swap] at bound
    rw [show ((child : Nat) - 1) / 2 = i by omega, docAt_swap_left inside bound',
      docAt_swap_of_ne inside bound' (by omega) (by omega), ← child']
    exact sinking.except c positive bound (by omega)

/-- An entry that sinks leaves a heap in order. -/
theorem ordered_siftDown {heap : Array (Entry σ)} {i : Nat} (inside : i < heap.size)
    (sinking : Sinking heap i) : Ordered (siftDown heap i inside) := by
  fun_induction siftDown heap i inside with
  | case1 heap i inside none =>
      intro c positive bound
      exact sinking.except c positive bound (smallerChild?_none none positive bound)
  | case2 heap i inside child found stops =>
      rw [← docAt_eq inside, Fin.getElem_fin, ← docAt_eq child.isLt] at stops
      intro c positive bound
      by_cases below : (c - 1) / 2 = i
      · rw [below]
        exact Int32.le_trans stops (smallerChild?_le found positive bound below)
      · exact sinking.except c positive bound below
  | case3 heap i inside child found sinks ih =>
      rw [← docAt_eq inside, Fin.getElem_fin, ← docAt_eq child.isLt] at sinks
      exact ih (sinking.swap inside found sinks)

theorem siftDown_perm (heap : Array (Entry σ)) (i : Nat) (inside : i < heap.size) :
    (siftDown heap i inside).toList.Perm heap.toList := by
  fun_induction siftDown heap i inside with
  | case1 => exact List.Perm.refl _
  | case2 => exact List.Perm.refl _
  | case3 heap i inside child found sinks ih =>
      exact ih.trans (Array.perm_iff_toList_perm.mp (Array.swap_perm _ _))

/-- A queue in order that holds these entries. -/
structure Holds (q : CursorQueue σ) (entries : List (Entry σ)) : Prop where
  ordered : Ordered q.heap
  perm : q.heap.toList.Perm entries

/-- A queue in order whose first entry is `e`, the others being `rest`. -/
structure Fronts (q : CursorQueue σ) (e : Entry σ) (rest : List (Entry σ)) : Prop where
  holds : Holds q (e :: rest)
  front : q.heap[0]? = some e

variable {q : CursorQueue σ} {e : Entry σ} {entries rest : List (Entry σ)}

theorem holds_empty (capacity : Nat) : Holds (empty capacity : CursorQueue σ) [] where
  ordered := fun c _ bound => absurd bound (Nat.not_lt_zero c)
  perm := .nil

/-- In which order the entries are listed does not matter. -/
theorem Holds.of_perm (h : Holds q entries) (perm : entries.Perm rest) : Holds q rest :=
  ⟨h.ordered, h.perm.trans perm⟩

theorem Holds.length_eq (h : Holds q entries) : q.heap.size = entries.length := by
  rw [← h.perm.length_eq, Array.length_toList]

/-- Unless it is empty, the queue has a first entry, and none is earlier. -/
theorem Holds.fronts (h : Holds q entries) (nonempty : entries ≠ []) :
    ∃ e rest, Fronts q e rest ∧ entries.Perm (e :: rest) ∧ ∀ x ∈ entries, e.doc ≤ x.doc := by
  have some : 0 < q.heap.size := by
    rw [h.length_eq]
    exact List.length_pos_iff.mpr nonempty
  obtain ⟨e, rest, split⟩ : ∃ e rest, q.heap.toList = e :: rest :=
    List.exists_cons_of_length_pos some
  have front : q.heap[0]? = .some e := by rw [← Array.getElem?_toList, split]; rfl
  refine ⟨e, rest, ⟨⟨h.ordered, .of_eq split⟩, front⟩, h.perm.symm.trans (.of_eq split), ?_⟩
  intro x inside
  obtain ⟨i, there, rfl⟩ := Array.mem_iff_getElem.mp (Array.mem_def.mpr (h.perm.mem_iff.mpr inside))
  have le := h.ordered.first_le i there
  rwa [docAt_eq there, docAt_eq some, (Array.getElem?_eq_some_iff.mp front).2] at le

theorem Fronts.topDoc_eq (h : Fronts q e rest) : q.topDoc = e.doc := by
  rw [topDoc, h.front]
  rfl

theorem Fronts.top?_eq (h : Fronts q e rest) : q.top? = some e.cursor := by
  rw [top?, h.front]
  rfl

theorem Fronts.toList_eq (h : Fronts q e rest) :
    ∃ others, q.heap.toList = e :: others ∧ others.Perm rest := by
  have front : q.heap.toList[0]? = some e := by rw [Array.getElem?_toList, h.front]
  cases split : q.heap.toList with
  | nil => simp [split] at front
  | cons e' others =>
      obtain rfl : e' = e := by simpa [split] using front
      exact ⟨others, rfl, (List.perm_cons e').mp (split ▸ h.holds.perm)⟩

/-- An entry is pushed into its place. -/
theorem Holds.push (h : Holds q entries) (e : Entry σ) : Holds (q.push e) (e :: entries) where
  ordered := by
    refine ordered_siftUp _ ⟨fun c positive bound apart => ?_, fun c _ bound child => ?_⟩
    · rw [Array.size_push] at bound
      have inside : c < q.heap.size := by omega
      have same : ∀ k, k < q.heap.size → docAt (q.heap.push e) k = docAt q.heap k := by
        intro k there
        rw [docAt, Array.getElem?_push_lt there, docAt, Array.getElem?_eq_getElem there]
      rw [same c inside, same _ (by omega)]
      exact h.ordered c positive inside
    · rw [Array.size_push] at bound
      omega
  perm := by
    apply (siftUp_perm _ _ _).trans
    rw [Array.toList_push]
    exact (List.perm_append_singleton e _).trans (h.perm.cons e)

/-- Replacing the first entry leaves all others in order with each other. -/
theorem Fronts.sinking_modify (h : Fronts q e rest) (f : Entry σ → Entry σ) :
    Sinking (q.heap.modify 0 f) 0 where
  except := by
    intro c positive bound apart
    rw [Array.size_modify] at bound
    have same : ∀ k, k ≠ 0 → docAt (q.heap.modify 0 f) k = docAt q.heap k := by
      intro k other
      rw [docAt, Array.getElem?_modify, if_neg (Ne.symm other), docAt]
    rw [same c (by omega), same _ apart]
    exact h.holds.ordered c positive bound
  across := fun _ _ _ _ impossible => absurd impossible (Nat.lt_irrefl 0)

theorem Fronts.modify_toList (h : Fronts q e rest) (f : Entry σ → Entry σ) :
    (q.heap.modify 0 f).toList.Perm (f e :: rest) := by
  obtain ⟨others, split, perm⟩ := h.toList_eq
  rw [Array.toList_modify, split]
  exact perm.cons (f e)

/-- A call on the first cursor that leaves it where it is. -/
theorem Fronts.withTop (h : Fronts q e rest) (cursor : σ) :
    Fronts (q.withTop cursor) ⟨cursor, e.doc⟩ rest where
  holds := {
    ordered := by
      have same : ∀ k, docAt (q.withTop cursor).heap k = docAt q.heap k := by
        intro k
        rw [docAt, CursorQueue.withTop, Array.getElem?_modify, docAt]
        split
        · cases q.heap[k]? <;> rfl
        · rfl
      intro c positive bound
      rw [same, same]
      exact h.holds.ordered c positive (by simpa [CursorQueue.withTop] using bound)
    perm := h.modify_toList fun entry => { entry with cursor } }
  front := by
    rw [CursorQueue.withTop, Array.getElem?_modify, if_pos rfl, h.front]
    rfl

/-- What is left if the last entry is put in the place of the first. -/
theorem Fronts.pop_swap (h : Fronts q e rest) (nonempty : 0 < q.heap.size) :
    (q.heap.swap 0 (q.heap.size - 1) nonempty (Nat.sub_one_lt_of_lt nonempty)).pop.toList.Perm
      rest := by
  let swapped := q.heap.swap 0 (q.heap.size - 1) nonempty (Nat.sub_one_lt_of_lt nonempty)
  have some : swapped.toList ≠ [] := by
    rw [← List.length_pos_iff, Array.length_toList, Array.size_swap]
    exact nonempty
  have last : swapped.toList.getLast some = e := by
    simp only [List.getLast_eq_getElem, Array.getElem_toList, Array.length_toList, swapped,
      Array.size_swap, Array.getElem_swap_right]
    exact (Array.getElem?_eq_some_iff.mp h.front).2
  have split : swapped.pop.toList ++ [e] = swapped.toList := by
    rw [← last, Array.toList_pop, List.dropLast_concat_getLast]
  have perm : swapped.toList.Perm (e :: rest) :=
    (Array.perm_iff_toList_perm.mp (Array.swap_perm _ _)).trans h.holds.perm
  rw [← split] at perm
  exact (List.perm_cons e).mp ((List.perm_append_singleton e _).symm.trans perm)

theorem Fronts.sinking_pop_swap (h : Fronts q e rest) (nonempty : 0 < q.heap.size) :
    Sinking (q.heap.swap 0 (q.heap.size - 1) nonempty (Nat.sub_one_lt_of_lt nonempty)).pop 0 where
  except := by
    intro c positive bound apart
    rw [Array.size_pop, Array.size_swap] at bound
    have same : ∀ k, k ≠ 0 → k < q.heap.size - 1 →
        docAt (q.heap.swap 0 (q.heap.size - 1)).pop k = docAt q.heap k := by
      intro k other inside
      rw [docAt, Array.getElem?_pop, Array.size_swap, if_pos inside]
      exact docAt_swap_of_ne nonempty (by omega) other (by omega)
    rw [same c (by omega) bound, same _ apart (by omega)]
    exact h.holds.ordered c positive (by omega)
  across := fun _ _ _ _ impossible => absurd impossible (Nat.lt_irrefl 0)

/-- Dropping the first cursor leaves the others. -/
theorem Fronts.dropTop (h : Fronts q e rest) : Holds q.dropTop rest := by
  have nonempty : 0 < q.heap.size := (Array.getElem?_eq_some_iff.mp h.front).1
  rw [CursorQueue.dropTop, dif_pos nonempty]
  dsimp only
  split
  · next some =>
    exact ⟨ordered_siftDown _ (h.sinking_pop_swap nonempty),
      (siftDown_perm _ _ _).trans (h.pop_swap nonempty)⟩
  · next none =>
    exact ⟨fun c _ bound => absurd (Nat.zero_lt_of_lt bound) none, h.pop_swap nonempty⟩

section Calls

variable [Cursor σ]

/-- Looking where the first cursor stands now puts it in its place. -/
theorem Fronts.settleTop (h : Fronts q e rest) :
    Holds q.settleTop (⟨e.cursor, Cursor.doc e.cursor⟩ :: rest) := by
  have nonempty : 0 < q.heap.size := (Array.getElem?_eq_some_iff.mp h.front).1
  rw [CursorQueue.settleTop, dif_pos (by simpa using nonempty)]
  exact ⟨ordered_siftDown _ (h.sinking_modify _), (siftDown_perm _ _ _).trans (h.modify_toList _)⟩

/-- A move of the first cursor, which is dropped if it has run out. -/
theorem Fronts.moveTop (h : Fronts q e rest) (move : σ → Outcome σ Bool) {cursor : σ}
    {found : Bool} (eq : move e.cursor = .done cursor found) :
    ∃ q', q.moveTop move = .done q' found ∧
      Holds q' (if found then ⟨cursor, Cursor.doc cursor⟩ :: rest else rest) := by
  have front := h.withTop cursor
  rw [CursorQueue.moveTop, h.top?_eq]
  simp only [eq, Outcome.bind_done]
  cases found with
  | true => exact ⟨_, rfl, front.settleTop⟩
  | false => exact ⟨_, rfl, front.dropTop⟩

/-- The first cursor is scored where it is. -/
theorem Fronts.topScore (h : Fronts q e rest) {cursor : σ} {v : Score} {marks : Marks}
    (eq : Cursor.score e.cursor = ⟨.ok v, cursor, marks⟩) :
    q.topScore = ⟨.ok v, q.withTop cursor, marks⟩ := by
  rw [CursorQueue.topScore, h.top?_eq]
  simp only [eq, Outcome.within]

/-- A cursor that has not started is moved to its first document and put into the queue. -/
theorem Holds.insert (h : Holds q entries) (room : entries.length < q.capacity) {c cursor : σ}
    {found : Bool}
    (fresh : Cursor.doc c = .beforeFirst) (eq : Cursor.next c = .done cursor found) :
    ∃ q', q.insert c = .done q' found ∧ q'.capacity = q.capacity ∧
      Holds q' (if found then ⟨cursor, Cursor.doc cursor⟩ :: entries else entries) := by
  have space : ¬ q.capacity ≤ q.heap.size := by
    rw [h.length_eq]
    omega
  rw [CursorQueue.insert, if_neg space, if_pos fresh, eq, Outcome.bind_done]
  cases found with
  | true => exact ⟨_, rfl, rfl, h.push _⟩
  | false => exact ⟨_, rfl, rfl, h⟩

theorem Holds.movesLeft_eq (h : Holds q entries) :
    q.movesLeft = Cursor.movesLeftInAll 1 (entries.map (·.cursor)) :=
  Cursor.movesLeftInAll_perm (h.perm.map _)

end Calls

end CursorQueue

end Retrieval
