import Retrieval.Proofs.Progress

/-!
# Loops over several cursors

A conjunction brings its parts together by sending the first one to where the last one stands. Each
such round leads the first part ahead, so it uses up one of its moves, whatever order the parts are
in and even if one of them has been lost.

A threshold takes its alternatives from a queue. Each round moves the one in front or drops it. When
the alternatives are sent to a target, one that has reached it without the queue having noticed may
stay where it is, but then its entry is brought up to date; so the entries that are behind the
target are counted along with the moves left.
-/

namespace Retrieval

open Cursor Outcome

namespace Conjunction

variable {σ : Type} [Cursor σ] {c : Conjunction σ}

/-- All parts get on, and a conjunction that may have further documents has parts. -/
structure Going (c : Conjunction σ) : Prop where
  parts : ∀ p ∈ c.parts, Progresses p
  nonempty : c.fresh = false → c.more = true → c.parts ≠ []

/-- How a move of all parts in turn gets on. -/
structure Moved (move : Move) (parts : List σ) (found : Option Bool) (parts' : List σ) : Prop where
  going : ∀ p ∈ parts', Progresses p
  size : parts'.length = parts.length
  moves : movesLeftInAll 0 parts' ≤ movesLeftInAll 0 parts
  found : found = some true → movesLeftInAll 0 parts' < movesLeftInAll 0 parts ∨
    (∀ p ∈ parts, move.Reached (Cursor.doc p)) ∧ ∀ p ∈ parts', move.Reached (Cursor.doc p)

theorem sweep_ends {parts : List σ} (move : Move) (going : ∀ p ∈ parts, Progresses p) :
    (sweep move.make parts).Ends (Moved move parts) := by
  induction parts with
  | nil => exact .answered ⟨going, rfl, Nat.le_refl _, fun _ => .inr
      ⟨List.forall_mem_nil _, List.forall_mem_nil _⟩⟩
  | cons p rest ih =>
      obtain ⟨head, tail⟩ := List.forall_mem_cons.mp going
      rw [sweep]
      refine (head.move move).bind (fun p' left => ?_) fun found p' left => ?_
      · exact ⟨List.forall_mem_cons.mpr ⟨left.1, tail⟩, rfl,
          Nat.add_le_add_right left.2.moves _, no_answer⟩
      cases found with
      | false =>
          exact .answered ⟨List.forall_mem_cons.mpr ⟨left.1, tail⟩, rfl,
            Nat.add_le_add_right left.2.moves _, not_found⟩
      | true =>
          refine (ih tail).within fun found rest' left' => ?_
          refine ⟨List.forall_mem_cons.mpr ⟨left.1, left'.going⟩, ?_, ?_, fun some => ?_⟩
          · simp only [List.length_cons, left'.size]
          · exact Nat.add_le_add left.2.moves left'.moves
          · obtain less | ⟨reached, reached'⟩ := left.2.found rfl
            · exact .inl (Nat.add_lt_add_of_lt_of_le less left'.moves)
            · refine (left'.found some).imp (Nat.add_lt_add_of_le_of_lt left.2.moves) fun all => ?_
              exact ⟨List.forall_mem_cons.mpr ⟨reached, all.1⟩,
                List.forall_mem_cons.mpr ⟨reached', all.2⟩⟩

/-- What a move of all parts leaves of a conjunction: one that may still have further documents has
either used up a move, or all its parts have been where they were sent to. -/
structure Swung (move : Move) (c : Conjunction σ) (answer : Option Unit) (c' : Conjunction σ) :
    Prop where
  going : c'.Going
  fresh : c'.fresh = c.fresh
  moves : c'.movesLeft ≤ c.movesLeft
  more : answer = some () → c'.more = true → c.more = true ∧ (c'.movesLeft < c.movesLeft ∨
    (∀ p ∈ c.parts, move.Reached (Cursor.doc p)) ∧ ∀ p ∈ c'.parts, move.Reached (Cursor.doc p))

theorem moveAll_ends (h : c.Going) (move : Move) : (c.moveAll move.make).Ends (Swung move c) := by
  rw [moveAll]
  split
  · next more =>
    have size : ∀ {parts : List σ}, parts.length = c.parts.length → c.fresh = false →
        parts ≠ [] := by
      rintro _ same started rfl
      exact h.nonempty started more (List.length_eq_zero_iff.mp same.symm)
    refine (sweep_ends move h.parts).bind (fun parts left => ?_) fun found parts left => ?_
    · exact ⟨⟨left.going, fun started _ => size left.size started⟩, rfl,
        Nat.add_le_add_right left.moves _, no_answer⟩
    cases found with
    | false =>
        exact .answered ⟨⟨left.going, fun _ more' => absurd more' Bool.false_ne_true⟩, rfl,
          Nat.add_le_add_right left.moves _, fun _ more' => absurd more' Bool.false_ne_true⟩
    | true =>
        have perm : (parts.mergeSort fun p q => Cursor.doc p ≤ Cursor.doc q).Perm parts :=
          parts.mergeSort_perm _
        have same : movesLeftInAll 0 _ = movesLeftInAll 0 parts := movesLeftInAll_perm perm
        refine .answered ⟨⟨fun p inside => left.going p (perm.mem_iff.mp inside), ?_⟩, rfl, ?_,
          fun _ _ => ⟨more, (left.found rfl).imp (fun less => ?_) fun all => ⟨all.1, ?_⟩⟩⟩
        · exact fun started _ => size (perm.length_eq.trans left.size) started
        · exact Nat.add_le_add_right (same ▸ left.moves) _
        · exact Nat.add_lt_add_right (same ▸ less) _
        · exact fun p inside => all.2 p (perm.mem_iff.mp inside)
  · next out =>
    exact .answered ⟨h, rfl, Nat.le_refl _, fun _ more => absurd more out⟩

theorem ne_nil_of_doc_lt {first : σ} {rest : List σ} (parts : c.parts = first :: rest)
    (behind : c.doc < c.lastDoc) : rest ≠ [] := by
  rintro rfl
  rw [doc, lastDoc, parts] at behind
  exact Int32.lt_irrefl behind

/-- How a conjunction is left when its parts have been brought together. -/
structure Converged (c : Conjunction σ) (found : Option Bool) (c' : Conjunction σ) : Prop where
  going : c'.Going
  started : c'.fresh = false
  moves : c'.movesLeft ≤ c.movesLeft
  found : found = some true → c.more = true ∧ (c' = c ∨ c'.movesLeft < c.movesLeft)

/-- Each round of bringing the parts together uses up a move. -/
theorem converge_ends (bound : Nat) (h : c.Going) (started : c.fresh = false)
    (enough : c.movesLeft < bound) : (c.converge bound).Ends (Converged c) := by
  induction bound generalizing c with
  | zero => exact absurd enough (Nat.not_lt_zero _)
  | succ bound ih =>
      have stays : Converged c (some c.more) c :=
        ⟨h, started, Nat.le_refl _, fun more => ⟨Option.some.inj more, .inl rfl⟩⟩
      rw [converge]
      split
      · exact .answered stays
      · next first rest parts =>
        split
        · next behind =>
          obtain ⟨more, behind⟩ : c.more = true ∧ c.doc < c.lastDoc := by simpa using behind
          have several := ne_nil_of_doc_lt parts behind
          obtain ⟨head, tail⟩ := List.forall_mem_cons.mp (parts ▸ h.parts)
          have total : c.movesLeft = Cursor.movesLeft first + movesLeftInAll 0 rest := by
            simp [movesLeft, parts, started, movesLeftInAll]
          have left' : ∀ (first' : σ) (more' : Bool),
              movesLeft { c with parts := rest ++ [first'], more := more' } =
                movesLeftInAll 0 rest + Cursor.movesLeft first' := by
            simp [movesLeft, started, movesLeftInAll]
          have without : movesLeft { c with parts := rest } = movesLeftInAll 0 rest := by
            simp [movesLeft, started]
          refine (head.seek c.lastDoc).bind (fun first' _ => ?_) fun found first' left => ?_
          · refine ⟨⟨tail, fun _ _ => several⟩, started, ?_, no_answer⟩
            rw [without, total]
            exact Nat.le_add_left _ _
          have going : ∀ more', Going { c with parts := rest ++ [first'], more := more' } :=
            fun _ => ⟨List.forall_mem_append.mpr ⟨tail, List.forall_mem_singleton.mpr left.1⟩,
              fun _ _ => by simp⟩
          have fewer := left.2.moves
          cases found with
          | false =>
              refine .answered ⟨going false, started, ?_, not_found⟩
              rw [left', total]
              omega
          | true =>
              -- The first part stood before the last one, so finding a document has led it ahead.
              have place : Cursor.doc first = c.doc := by rw [doc, parts]; rfl
              have used := left.2.seek_lt (place ▸ behind)
              refine (ih (going true) started ?_).imp fun found c' ended => ?_
              · rw [left']
                omega
              · have less := ended.moves
                rw [left'] at less
                exact ⟨ended.going, ended.started, by omega, fun _ => ⟨more, .inr (by omega)⟩⟩
        · exact .answered stays

theorem settle_ends (h : c.Going) (started : c.fresh = false) : c.settle.Ends (Converged c) :=
  converge_ends _ h started (Nat.lt_succ_self _)

theorem start_ends (h : c.Going) (fresh : c.fresh = true) :
    c.start.Ends fun _ c' => c'.Going ∧ c'.fresh = false ∧ c'.movesLeft < c.movesLeft := by
  have going : Going { c with fresh := false, more := !c.parts.isEmpty } :=
    ⟨h.parts, fun _ more => by simpa using more⟩
  refine (moveAll_ends going .next).imp fun _ c' left => ⟨left.going, left.fresh, ?_⟩
  refine Nat.lt_of_le_of_lt left.moves ?_
  simp [movesLeft, fresh]

theorem advanceLast_ends (h : c.Going) (started : c.fresh = false) :
    c.advanceLast.Ends fun answer c' => c'.Going ∧ c'.fresh = false ∧ c'.movesLeft ≤ c.movesLeft ∧
      (answer = some () → c'.more = true → c'.movesLeft < c.movesLeft) := by
  rw [advanceLast]
  split
  · next more =>
    obtain ⟨front, last, split⟩ := (List.eq_nil_or_concat' c.parts).resolve_left
      (h.nonempty started more)
    have total : c.movesLeft = movesLeftInAll 0 front + Cursor.movesLeft last := by
      simp [movesLeft, split, started, movesLeftInAll]
    have left' : ∀ (last' : σ) (more' : Bool),
        movesLeft { c with parts := front ++ [last'], more := more' } =
          movesLeftInAll 0 front + Cursor.movesLeft last' := by
      simp [movesLeft, started, movesLeftInAll]
    obtain ⟨front', last'⟩ := List.forall_mem_append.mp (split ▸ h.parts)
    simp only [split, List.getLast?_concat, List.dropLast_concat]
    have goes : ∀ {last' : σ}, Progresses last' → ∀ more' : Bool,
        Going { c with parts := front ++ [last'], more := more' } :=
      fun going _ => ⟨List.forall_mem_append.mpr ⟨front', List.forall_mem_singleton.mpr going⟩,
        fun _ _ => by simp⟩
    refine (List.forall_mem_singleton.mp last').next.bind (fun last' left => ?_)
      fun found last' left => .answered ?_
    · refine ⟨goes left.1 c.more, started, ?_, no_answer⟩
      rw [left', total]
      exact Nat.add_le_add_left left.2.moves _
    · refine ⟨goes left.1 found, started, ?_, fun _ more' => ?_⟩
      · rw [left', total]
        exact Nat.add_le_add_left left.2.moves _
      · obtain rfl : found = true := more'
        rw [left', total]
        exact Nat.add_lt_add_left left.2.next_lt _
  · next out =>
    exact .answered ⟨h, started, Nat.le_refl _, fun _ more => absurd more out⟩

theorem sumScores_ends {parts : List σ} (going : ∀ p ∈ parts, Progresses p) (total : Score) :
    (sumScores total parts).Ends fun _ parts' => (∀ p ∈ parts', Progresses p) ∧
      parts'.length = parts.length ∧ movesLeftInAll 0 parts' ≤ movesLeftInAll 0 parts := by
  induction parts generalizing total with
  | nil => exact .answered ⟨going, rfl, Nat.le_refl _⟩
  | cons p rest ih =>
      obtain ⟨head, tail⟩ := List.forall_mem_cons.mp going
      rw [sumScores]
      refine head.score.bind (fun p' left => ?_) fun score p' left => ?_
      · exact ⟨List.forall_mem_cons.mpr ⟨left.1, tail⟩, rfl, Nat.add_le_add_right left.2 _⟩
      · refine (ih tail _).within fun _ rest' left' => ⟨?_, ?_, Nat.add_le_add left.2 left'.2.2⟩
        · exact List.forall_mem_cons.mpr ⟨left.1, left'.1⟩
        · simp only [List.length_cons, left'.2.1]

theorem Going.next (h : c.Going) :
    c.next.Ends fun found c' => c'.Going ∧ Uses .next c found c' := by
  rw [Conjunction.next]
  split
  · next fresh =>
    refine (start_ends h fresh).bind (fun c' left => ?_) fun _ c' left => ?_
    · exact ⟨left.1, Nat.le_of_lt left.2.2, no_answer⟩
    · refine (settle_ends left.1 left.2.1).imp fun found c'' ended => ?_
      have less : c''.movesLeft < c.movesLeft := Nat.lt_of_le_of_lt ended.moves left.2.2
      exact ⟨ended.going, Nat.le_of_lt less, fun _ => .inl less⟩
  · next started =>
    refine (advanceLast_ends h (by simpa using started)).bind (fun c' left => ?_)
      fun _ c' left => ?_
    · exact ⟨left.1, left.2.2.1, no_answer⟩
    · obtain ⟨going, started', fewer, less⟩ := left
      refine (settle_ends going started').imp fun found c'' ended => ⟨ended.going, ?_, ?_⟩
      · exact Nat.le_trans ended.moves fewer
      · exact fun some => .inl (Nat.lt_of_le_of_lt ended.moves (less rfl (ended.found some).1))

theorem reached_of_forall {move : Move} (nonempty : c.parts ≠ [])
    (reached : ∀ p ∈ c.parts, move.Reached (Cursor.doc p)) : move.Reached c.doc := by
  obtain ⟨p, rest, parts⟩ := List.exists_cons_of_ne_nil nonempty
  rw [c.doc_cons parts]
  exact reached p (parts ▸ List.mem_cons_self)

/-- A seek of a conjunction that has started. -/
theorem Going.seek_started (h : c.Going) (started : c.fresh = false) (t : DocId) :
    ((c.moveAll (Cursor.seek · t)).andThen fun _ c => c.settle).Ends fun found c' =>
      c'.Going ∧ Uses (.seek t) c found c' := by
  refine (moveAll_ends h (.seek t)).bind (fun c' left => ?_) fun _ c' left => ?_
  · exact ⟨left.going, left.moves, no_answer⟩
  refine (settle_ends left.going (left.fresh.trans started)).imp fun found c'' ended =>
    ⟨ended.going, Nat.le_trans ended.moves left.moves, fun some => ?_⟩
  obtain ⟨more', rfl | less⟩ := ended.found some
  · obtain ⟨more, less | ⟨reached, reached'⟩⟩ := left.more rfl more'
    · exact .inl less
    · exact .inr ⟨reached_of_forall (h.nonempty started more) reached,
        reached_of_forall (left.going.nonempty ended.started more') reached'⟩
  · exact .inl (Nat.lt_of_lt_of_le less left.moves)

theorem Going.seek (h : c.Going) (t : DocId) :
    (c.seek t).Ends fun found c' => c'.Going ∧ Uses (.seek t) c found c' := by
  rw [Conjunction.seek]
  split
  · next fresh =>
    refine (start_ends h fresh).bind (fun c' left => ?_) fun _ c' left => ?_
    · exact ⟨left.1, Nat.le_of_lt left.2.2, no_answer⟩
    · refine (left.1.seek_started left.2.1 t).imp fun found c'' ended => ?_
      have less : Cursor.movesLeft c'' < Cursor.movesLeft c :=
        Nat.lt_of_le_of_lt ended.2.moves left.2.2
      exact ⟨ended.1, Nat.le_of_lt less, fun _ => .inl less⟩
  · next started =>
    rw [andThen_done]
    exact h.seek_started (by simpa using started) t

theorem progressing_going : Progressing (Going (σ := σ)) where
  move := fun {_} move h =>
    match move with
    | .next => h.next
    | .seek t => h.seek t
  score := by
    intro c h
    have scores : ((sumScores 0 c.parts).map (· * c.factor)).Ends fun _ parts =>
        (∀ p ∈ parts, Progresses p) ∧ parts.length = c.parts.length ∧
          movesLeftInAll 0 parts ≤ movesLeftInAll 0 c.parts :=
      (sumScores_ends h.parts 0).map fun _ _ left => left
    show (((sumScores 0 c.parts).map (· * c.factor)).within
      fun parts => { c with parts }).Ends _
    refine scores.within fun _ parts left =>
      ⟨⟨left.1, fun started more => ?_⟩, Nat.add_le_add_right left.2.2 _⟩
    rintro rfl
    exact h.nonempty started more (List.length_eq_zero_iff.mp left.2.1.symm)

theorem progresses_ofParts {parts : List σ} (rule : CoordRule)
    (going : ∀ p ∈ parts, Progresses p) : Progresses (ofParts rule parts) :=
  ⟨Going, progressing_going, going, fun started => absurd started.symm Bool.false_ne_true⟩

end Conjunction

namespace CursorQueue

variable {σ : Type} [Cursor σ] {q : CursorQueue σ} {e : Entry σ} {rest : List (Entry σ)}

def Going (q : CursorQueue σ) : Prop :=
  ∃ entries, Holds q entries ∧ ∀ e ∈ entries, Progresses e.cursor

/-- How many cursors the queue takes to be behind a target. -/
def behind (t : DocId) (q : CursorQueue σ) : Nat := q.heap.toList.countP fun e => e.doc < t

omit [Cursor σ] in
theorem behind_le_size (t : DocId) (q : CursorQueue σ) : q.behind t ≤ q.size :=
  List.countP_le_length

omit [Cursor σ] in
theorem Holds.behind_eq {entries : List (Entry σ)} (h : Holds q entries) (t : DocId) :
    q.behind t = entries.countP fun e => e.doc < t :=
  h.perm.countP_eq _

/-- The first cursor of a queue that gets on, and the others. -/
structure Heads (q : CursorQueue σ) (e : Entry σ) (rest : List (Entry σ)) : Prop where
  fronts : Fronts q e rest
  head : Progresses e.cursor
  tail : ∀ x ∈ rest, Progresses x.cursor

theorem going_empty (capacity : Nat) : Going (empty capacity : CursorQueue σ) :=
  ⟨[], holds_empty capacity, List.forall_mem_nil _⟩

/-- A queue is empty, or it has a first cursor. -/
theorem Going.heads (h : q.Going) : q.heap[0]? = none ∨ ∃ e rest, Heads q e rest := by
  obtain ⟨entries, holds, going⟩ := h
  by_cases nonempty : entries = []
  · refine .inl (Array.getElem?_eq_none ?_)
    rw [holds.length_eq, nonempty]
    exact Nat.le_refl 0
  · obtain ⟨e, rest, fronts, perm, -⟩ := holds.fronts nonempty
    obtain ⟨head, tail⟩ := List.forall_mem_cons.mp fun x inside =>
      going x (perm.mem_iff.mpr inside)
    exact .inr ⟨e, rest, fronts, head, tail⟩

theorem Heads.going (h : Heads q e rest) : q.Going :=
  ⟨e :: rest, h.fronts.holds, List.forall_mem_cons.mpr ⟨h.head, h.tail⟩⟩

theorem Heads.movesLeft_eq (h : Heads q e rest) : q.movesLeft =
    Cursor.movesLeft e.cursor + 1 + movesLeftInAll 1 (rest.map (·.cursor)) :=
  h.fronts.holds.movesLeft_eq

theorem Heads.behind_eq (h : Heads q e rest) (t : DocId) : q.behind t =
    (rest.countP fun x => x.doc < t) + if e.doc < t then 1 else 0 := by
  simp [h.fronts.holds.behind_eq, List.countP_cons]

/-- A call on the first cursor that leaves its entry where it is. -/
theorem Heads.withTop (h : Heads q e rest) {cursor : σ} (going : Progresses cursor) :
    Heads (q.withTop cursor) ⟨cursor, e.doc⟩ rest :=
  ⟨h.fronts.withTop cursor, going, h.tail⟩

/-- What a move of the first cursor `e` leaves: it has failed where it stood, or has been put in its
place, or has been dropped. -/
inductive TopMoved (move : Move) (e : Entry σ) (rest : List (Entry σ)) :
    Option Bool → CursorQueue σ → Prop
  | failed {q : CursorQueue σ} {cursor : σ} (heads : Heads q ⟨cursor, e.doc⟩ rest)
      (uses : Uses move e.cursor none cursor) : TopMoved move e rest none q
  | placed {q : CursorQueue σ} {cursor : σ} (holds : Holds q (⟨cursor, Cursor.doc cursor⟩ :: rest))
      (going : Progresses cursor) (uses : Uses move e.cursor (some true) cursor) :
      TopMoved move e rest (some true) q
  | dropped {q : CursorQueue σ} (holds : Holds q rest) : TopMoved move e rest (some false) q

theorem Heads.moveTop (h : Heads q e rest) (move : Move) :
    (q.moveTop move.make).Ends (TopMoved move e rest) := by
  rw [CursorQueue.moveTop, h.fronts.top?_eq]
  refine (h.head.move move).bind (fun cursor left => .failed (h.withTop left.1) left.2)
    fun found cursor left => .answered ?_
  have front := h.fronts.withTop cursor
  cases found with
  | true => exact .placed front.settleTop left.1 left.2
  | false => exact .dropped front.dropTop

theorem TopMoved.going {move : Move} {answer : Option Bool} {q' : CursorQueue σ}
    (h : Heads q e rest) (moved : TopMoved move e rest answer q') : q'.Going := by
  cases moved with
  | failed heads _ => exact heads.going
  | placed holds going _ => exact ⟨_, holds, List.forall_mem_cons.mpr ⟨going, h.tail⟩⟩
  | dropped holds => exact ⟨_, holds, h.tail⟩

theorem TopMoved.movesLeft_le {move : Move} {answer : Option Bool} {q' : CursorQueue σ}
    (h : Heads q e rest) (moved : TopMoved move e rest answer q') : q'.movesLeft ≤ q.movesLeft := by
  rw [h.movesLeft_eq]
  cases moved with
  | failed heads uses =>
      rw [heads.movesLeft_eq]
      exact Nat.add_le_add_right (Nat.succ_le_succ uses.moves) _
  | placed holds _ uses =>
      rw [holds.movesLeft_eq]
      exact Nat.add_le_add_right (Nat.succ_le_succ uses.moves) _
  | dropped holds =>
      rw [holds.movesLeft_eq]
      exact Nat.le_add_left _ _

/-- A move of the first cursor to its next document uses up a move or drops it. -/
theorem TopMoved.next_lt {answer : Option Bool} {q' : CursorQueue σ} (h : Heads q e rest)
    (moved : TopMoved .next e rest answer q') (answered : answer ≠ none) :
    q'.movesLeft < q.movesLeft := by
  rw [h.movesLeft_eq]
  cases moved with
  | failed => exact absurd rfl answered
  | placed holds _ uses =>
      rw [holds.movesLeft_eq]
      exact Nat.add_lt_add_right (Nat.succ_lt_succ uses.next_lt) _
  | dropped holds =>
      rw [holds.movesLeft_eq]
      exact Nat.lt_add_of_pos_left (Nat.succ_pos _)

/-- When the first cursor is sent to a target that it is taken to be behind, it uses up a move, or
is dropped, or turns out to have reached the target. -/
theorem TopMoved.seek_lt {t : DocId} {answer : Option Bool} {q' : CursorQueue σ}
    (h : Heads q e rest) (moved : TopMoved (.seek t) e rest answer q') (answered : answer ≠ none)
    (ahead : e.doc < t) : q'.movesLeft + q'.behind t < q.movesLeft + q.behind t := by
  rw [h.movesLeft_eq, h.behind_eq, if_pos ahead]
  cases moved with
  | failed => exact absurd rfl answered
  | placed holds _ uses =>
      rw [holds.movesLeft_eq, holds.behind_eq, List.map_cons, movesLeftInAll, List.countP_cons]
      have moves := uses.moves
      obtain less | ⟨-, reached⟩ := uses.found rfl
      · dsimp only
        split <;> omega
      · have noted : ¬ Cursor.doc _ < t := Int32.not_lt.mpr reached
        simp only [noted, decide_false, Bool.false_eq_true, if_false]
        omega
  | dropped holds =>
      rw [holds.movesLeft_eq, holds.behind_eq]
      omega

omit [Cursor σ] in
theorem isEmpty_of_front (front : q.heap[0]? = none) : q.isEmpty = true := by
  simpa [isEmpty] using front

theorem Heads.isEmpty_eq (h : Heads q e rest) : q.isEmpty = false := by
  have inside : 0 < q.heap.size := (Array.getElem?_eq_some_iff.mp h.fronts.front).1
  simpa [isEmpty, Array.size_pos_iff] using inside

omit [Cursor σ] in
theorem topDoc_of_isEmpty (empty : q.isEmpty = true) : q.topDoc = .afterLast := by
  have nothing : q.heap = #[] := by simpa [isEmpty] using empty
  simp [topDoc, nothing]

theorem nextTop_ends (h : q.Going) : q.nextTop.Ends fun answer q' =>
    q'.Going ∧ q'.movesLeft ≤ q.movesLeft ∧ (answer ≠ none →
      q'.movesLeft < q.movesLeft ∨ q.isEmpty = true ∧ q'.isEmpty = true) := by
  obtain front | ⟨e, rest, heads⟩ := h.heads
  · have empty := isEmpty_of_front front
    rw [nextTop, moveTop, top?, front]
    exact .answered ⟨h, Nat.le_refl _, fun _ => .inr ⟨empty, empty⟩⟩
  · exact (heads.moveTop .next).imp fun answer q' moved =>
      ⟨moved.going heads, moved.movesLeft_le heads,
        fun answered => .inl (moved.next_lt heads answered)⟩

theorem seekTop_ends (h : q.Going) {t : DocId} (ahead : q.topDoc < t) :
    (q.seekTop t).Ends fun answer q' => q'.Going ∧ q'.movesLeft ≤ q.movesLeft ∧
      (answer ≠ none → q'.movesLeft + q'.behind t < q.movesLeft + q.behind t) := by
  obtain front | ⟨e, rest, heads⟩ := h.heads
  · -- An empty queue is taken to be past every target.
    rw [topDoc_of_isEmpty (isEmpty_of_front front)] at ahead
    exact absurd ahead (Int32.not_lt.mpr (Int32.le_maxValue t))
  · exact (heads.moveTop (.seek t)).imp fun answer q' moved =>
      ⟨moved.going heads, moved.movesLeft_le heads,
        fun answered => moved.seek_lt heads answered (heads.fronts.topDoc_eq ▸ ahead)⟩

theorem topScore_ends (h : q.Going) : q.topScore.Ends fun answer q' =>
    q'.Going ∧ q'.movesLeft ≤ q.movesLeft ∧
      (answer ≠ none → q.isEmpty = false ∧ q'.isEmpty = false) := by
  obtain front | ⟨e, rest, heads⟩ := h.heads
  · rw [topScore, top?, front]
    exact .failed ⟨h, Nat.le_refl _, fun answered => absurd rfl answered⟩ (by simp)
  · rw [topScore, heads.fronts.top?_eq]
    refine heads.head.score.within fun _ cursor left => ?_
    have heads' := heads.withTop left.1
    refine ⟨heads'.going, ?_, fun _ => ⟨heads.isEmpty_eq, heads'.isEmpty_eq⟩⟩
    rw [heads.movesLeft_eq, heads'.movesLeft_eq]
    exact Nat.add_le_add_right (Nat.succ_le_succ left.2) _

theorem Going.push (h : q.Going) {cursor : σ} (going : Progresses cursor) (d : DocId) :
    (q.push ⟨cursor, d⟩).Going ∧
      (q.push ⟨cursor, d⟩).movesLeft = Cursor.movesLeft cursor + 1 + q.movesLeft := by
  obtain ⟨entries, holds, all⟩ := h
  have pushed := holds.push ⟨cursor, d⟩
  refine ⟨⟨_, pushed, List.forall_mem_cons.mpr ⟨going, all⟩⟩, ?_⟩
  rw [pushed.movesLeft_eq, holds.movesLeft_eq]
  rfl

/-- What a cursor brings into the queue. -/
theorem insert_ends (h : q.Going) {cursor : σ} (going : Progresses cursor) :
    (q.insert cursor).Ends fun _ q' => q'.Going ∧
      q'.movesLeft ≤ Cursor.movesLeft cursor + 1 + q.movesLeft := by
  have same : q.Going ∧ q.movesLeft ≤ Cursor.movesLeft cursor + 1 + q.movesLeft :=
    ⟨h, Nat.le_add_left _ _⟩
  rw [insert]
  split
  · exact .failed same (by simp)
  · split
    · refine going.next.bind (fun _ _ => same) fun found cursor' left => .answered ?_
      cases found with
      | false => exact same
      | true =>
          obtain ⟨pushed, moves⟩ := h.push left.1 (Cursor.doc cursor')
          have fewer := left.2.moves
          exact ⟨pushed, by rw [if_pos rfl, moves]; omega⟩
    · split
      · exact .answered same
      · obtain ⟨pushed, moves⟩ := h.push going (Cursor.doc cursor)
        exact .answered ⟨pushed, Nat.le_of_eq moves⟩

end CursorQueue

namespace Threshold

open CursorQueue

variable {σ : Type} [Cursor σ] {f : Front σ} {T : Threshold σ}

namespace Front

/-- How the rounds of a threshold get on. -/
structure Leads (f : Front σ) (f' : Front σ) : Prop where
  going : f'.queue.Going
  moves : f'.movesLeft ≤ f.movesLeft

theorem propose_ends (h : f.queue.Going) : f.propose.Ends fun answer f' =>
    f.Leads f' ∧ (answer ≠ none → f'.queue.isEmpty = false) := by
  rw [propose]
  refine (topScore_ends h).bind (fun queue left => ?_) fun score queue left => .answered ?_
  · exact ⟨⟨left.1, left.2.1⟩, fun answered => absurd rfl answered⟩
  · exact ⟨⟨left.1, left.2.1⟩, fun _ => (left.2.2 (Option.some_ne_none _)).2⟩

/-- Each alternative that is moved past the candidate uses up a move or is dropped. -/
theorem absorb_ends (bound : Nat) (h : f.queue.Going) (enough : f.movesLeft < bound) :
    (f.absorb bound).Ends fun answer f' => f.Leads f' ∧
      (answer ≠ none → f.queue.isEmpty = false → f'.movesLeft < f.movesLeft) := by
  induction bound generalizing f with
  | zero => exact absurd enough (Nat.not_lt_zero _)
  | succ bound ih =>
      rw [absorb]
      refine (nextTop_ends h).bind (fun queue left => ?_) fun found queue left => ?_
      · exact ⟨⟨left.1, left.2.1⟩, fun answered => absurd rfl answered⟩
      obtain ⟨going, fewer, used⟩ := left
      have used := used (Option.some_ne_none _)
      -- Whether an alternative has been lost makes no difference to the queue.
      generalize same : (if found = true then f.withQueue queue else (f.withQueue queue).lose) = g
      have queue_eq : g.queue = queue := by
        rw [← same]
        split <;> rfl
      subst queue_eq
      have moved : f.Leads g := ⟨going, fewer⟩
      have less : f.queue.isEmpty = false → g.movesLeft < f.movesLeft := fun nonempty =>
        used.resolve_right fun empty => Bool.false_ne_true (nonempty.symm.trans empty.1)
      dsimp only
      split
      · exact .answered ⟨moved, fun _ => less⟩
      · split
        · exact .answered ⟨moved, fun _ => less⟩
        · refine (topScore_ends going).bind (fun queue left => ?_) fun score queue left => ?_
          · exact ⟨⟨left.1, Nat.le_trans left.2.1 fewer⟩, fun answered => absurd rfl answered⟩
          · obtain ⟨going', fewer', nonempty⟩ := left
            -- The queue had a score to give, so it was not empty before either.
            have less' : g.queue.movesLeft < f.queue.movesLeft := used.resolve_right fun empty =>
              Bool.false_ne_true ((nonempty (Option.some_ne_none _)).1.symm.trans empty.2)
            have within : queue.movesLeft < bound :=
              Nat.lt_of_lt_of_le (Nat.lt_of_le_of_lt fewer' less') (Nat.le_of_lt_succ enough)
            refine (@ih { g with queue, total := g.total + score, matched := g.matched + 1 }
              going' within).imp fun answer f' ended => ?_
            have total : f'.movesLeft < f.movesLeft :=
              Nat.lt_of_le_of_lt (Nat.le_trans ended.1.moves fewer') less'
            exact ⟨⟨ended.1.going, Nat.le_of_lt total⟩, fun _ _ => total⟩

/-- How the search for a document gets on: one that is found has used up a move. -/
structure Searched (f : Front σ) (found : Option Bool) (f' : Front σ) : Prop
    extends Leads f f' where
  found : found = some true → f'.movesLeft < f.movesLeft

/-- Each candidate uses up a move. -/
theorem search_ends (needed bound : Nat) (h : f.queue.Going) (enough : f.movesLeft < bound) :
    (f.search needed bound).Ends f.Searched := by
  induction bound generalizing f with
  | zero => exact absurd enough (Nat.not_lt_zero _)
  | succ bound ih =>
      rw [search]
      refine (propose_ends h).bind (fun f' left => ⟨left.1, no_answer⟩) fun _ f' left => ?_
      obtain ⟨⟨going, fewer⟩, nonempty⟩ := left
      refine (absorb_ends _ going (Nat.lt_succ_self _)).bind (fun f'' left => ?_)
        fun _ f'' left => ?_
      · exact ⟨⟨left.1.going, Nat.le_trans left.1.moves fewer⟩, no_answer⟩
      · have less : f''.movesLeft < f.movesLeft :=
          Nat.lt_of_lt_of_le
            (left.2 (Option.some_ne_none _) (nonempty (Option.some_ne_none _))) fewer
        have searched : ∀ found, f.Searched found f'' :=
          fun _ => ⟨⟨left.1.going, Nat.le_of_lt less⟩, fun _ => less⟩
        split
        · exact .answered (searched _)
        · split
          · exact .answered (searched _)
          · refine (ih left.1.going ?_).imp fun found g ended => ?_
            · exact Nat.lt_of_lt_of_le less (Nat.le_of_lt_succ enough)
            · have total := Nat.lt_of_le_of_lt ended.moves less
              exact ⟨⟨ended.going, Nat.le_of_lt total⟩, fun _ => total⟩

theorem advance_ends (needed : Nat) (h : f.queue.Going) : (f.advance needed).Ends f.Searched :=
  search_ends needed _ h (Nat.lt_succ_self _)

/-- Each alternative that is sent to the target uses up a move, or is dropped, or is not taken to be
behind the target any more. -/
theorem catchUp_ends (needed : Nat) (t : DocId) (bound : Nat) (h : f.queue.Going)
    (enough : f.movesLeft + f.queue.behind t < bound) :
    (f.catchUp needed t bound).Ends f.Searched := by
  induction bound generalizing f with
  | zero => exact absurd enough (Nat.not_lt_zero _)
  | succ bound ih =>
      rw [catchUp]
      split
      · exact advance_ends needed h
      · next ahead =>
        refine (seekTop_ends h (Int32.not_le.mp ahead)).bind (fun queue left => ?_)
          fun found queue left => ?_
        · exact ⟨⟨left.1, left.2.1⟩, no_answer⟩
        obtain ⟨going, fewer, less⟩ := left
        have within : queue.movesLeft + queue.behind t < bound :=
          Nat.lt_of_lt_of_le (less (Option.some_ne_none _)) (Nat.le_of_lt_succ enough)
        have onward : ∀ {g : Front σ}, g.queue = queue →
            (g.catchUp needed t bound).Ends f.Searched := by
          rintro g rfl
          exact (ih going within).imp fun found g' ended =>
            ⟨⟨ended.going, Nat.le_trans ended.moves fewer⟩,
              fun some => Nat.lt_of_lt_of_le (ended.found some) fewer⟩
        cases found with
        | true => exact onward rfl
        | false =>
            dsimp only
            rw [if_neg Bool.false_ne_true]
            split
            · exact .answered ⟨⟨going, fewer⟩, not_found⟩
            · exact onward rfl

end Front

/-- All alternatives get on, whether they have been gathered or not. -/
inductive Stage.Going : Stage σ → Prop
  | waiting {alternatives : List σ} (going : ∀ a ∈ alternatives, Progresses a) :
      Going (.waiting alternatives)
  | running {f : Front σ} (going : f.queue.Going) : Going (.running f)

def Going (T : Threshold σ) : Prop := T.stage.Going

theorem gather_ends {alternatives : List σ} (going : ∀ a ∈ alternatives, Progresses a)
    {queue : CursorQueue σ} (h : queue.Going) (live : Nat) :
    (gather queue live alternatives).Ends fun _ gathered => gathered.1.Going ∧
      gathered.1.movesLeft ≤ movesLeftInAll 1 alternatives + queue.movesLeft := by
  induction alternatives generalizing queue live with
  | nil => exact .answered ⟨h, Nat.le_add_left _ _⟩
  | cons a rest ih =>
      obtain ⟨head, tail⟩ := List.forall_mem_cons.mp going
      rw [gather]
      refine (insert_ends h head).bind (fun queue' left => ⟨left.1, ?_⟩) fun _ queue' left => ?_
      · have inserted := left.2
        simp only [movesLeftInAll]
        omega
      · refine (ih tail left.1 _).imp fun _ gathered left' => ⟨left'.1, ?_⟩
        have inserted := left.2
        have gathered := left'.2
        simp only [movesLeftInAll]
        omega

/-- How a threshold begins: it has gathered its alternatives before, or uses up a move to do so. -/
structure Begun (T : Threshold σ) (front : Option (Front σ)) (T' : Threshold σ) : Prop where
  going : T'.Going
  moves : Cursor.movesLeft T' ≤ Cursor.movesLeft T
  running : ∀ f, front = some f → T'.stage = .running f ∧
    (T' = T ∨ Cursor.movesLeft T' < Cursor.movesLeft T)

theorem start_ends (h : T.Going) : T.start.Ends T.Begun := by
  obtain ⟨needed, arity, stage⟩ := T
  rw [start]
  cases h with
  | @running f going =>
      refine .answered ⟨.running going, Nat.le_refl _, fun f' same => ?_⟩
      exact ⟨congrArg Stage.running (Option.some.inj same), .inl rfl⟩
  | @waiting alternatives going =>
      refine (gather_ends going (going_empty arity) 0).bind (fun gathered left => ?_)
        fun _ gathered left => .answered ?_
      · exact ⟨.waiting (List.forall_mem_nil _), Nat.le_add_left _ _, fun f => no_answer⟩
      · have less : gathered.1.movesLeft < movesLeftInAll 1 alternatives + 1 :=
          Nat.lt_succ_of_le left.2
        refine ⟨.running left.1, Nat.le_of_lt less, fun f same => ⟨?_, .inr less⟩⟩
        exact congrArg Stage.running (Option.some.inj same)

/-- What follows on the start. -/
theorem Begun.within {T' : Threshold σ} {o : Outcome (Front σ) Bool} {move : Move}
    (begun : T.Begun (some f) T') (ends : o.Ends f.Searched) :
    (o.within T'.withFront).Ends fun found T'' => T''.Going ∧ Uses move T found T'' := by
  have before : f.movesLeft ≤ Cursor.movesLeft T := by
    have moves := begun.moves
    simpa only [Cursor.movesLeft, movesLeft, (begun.running f rfl).1] using moves
  refine ends.within fun found f' ended => ⟨.running ended.going, ?_, fun some => .inl ?_⟩
  · exact Nat.le_trans ended.moves before
  · exact Nat.lt_of_lt_of_le (ended.found some) before

theorem Begun.going_front {T' : Threshold σ} (begun : T.Begun (some f) T') : f.queue.Going := by
  have going : T'.stage.Going := begun.going
  rw [(begun.running f rfl).1] at going
  cases going with
  | running going => exact going

theorem progressing_going : Progressing (Going (σ := σ)) where
  move := by
    intro T move h
    have failed : ∀ T', T.Begun none T' → T'.Going ∧ Uses move T none T' :=
      fun T' begun => ⟨begun.going, begun.moves, no_answer⟩
    have missed : ∀ {f T'}, T.Begun (some f) T' → T'.Going ∧ Uses move T (some false) T' :=
      fun begun => ⟨begun.going, begun.moves, not_found⟩
    cases move with
    | next =>
        show T.next.Ends _
        rw [Threshold.next]
        refine (start_ends h).bind failed fun f T' begun => ?_
        split
        · exact .answered (missed begun)
        · exact begun.within (f.advance_ends _ begun.going_front)
    | seek t =>
        show (T.seek t).Ends _
        rw [Threshold.seek]
        refine (start_ends h).bind failed fun f T' begun => ?_
        split
        · exact .answered (missed begun)
        · split
          · next back =>
            refine .answered ⟨begun.going, begun.moves, fun _ => ?_⟩
            obtain ⟨running, rfl | less⟩ := begun.running f rfl
            · have place : Cursor.doc T' = f.current := by
                simp only [Cursor.doc, doc, running]
              exact .inr ⟨place ▸ back, place ▸ back⟩
            · exact .inl less
          · exact begun.within (f.catchUp_ends _ t _ begun.going_front
              (Nat.lt_succ_of_le (Nat.add_le_add_left (f.queue.behind_le_size t) _)))
  score := fun h => .answered ⟨h, Nat.le_refl _⟩

theorem progresses_ofAlternatives {alternatives : List σ} {needed : Nat}
    (made : ofAlternatives alternatives needed = .ok T)
    (going : ∀ a ∈ alternatives, Progresses a) : Progresses T := by
  refine ⟨Going, progressing_going, ?_⟩
  rw [ofAlternatives] at made
  split at made
  · exact absurd made Outcome.error_ne_ok
  · split at made
    · exact absurd made Outcome.error_ne_ok
    · obtain rfl := Except.ok.inj made
      exact .waiting going

end Threshold

end Retrieval
