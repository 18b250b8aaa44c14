import Retrieval.Proofs.Rounds

/-!
# A threshold counts its alternatives

A threshold keeps a count of the alternatives that still have documents beside the queue that holds
them. The count is set while they are gathered and lowered far from where the queue drops one, so
that the two agree is an invariant of its own: it says when the queue is not empty, and that is what
the calls on the first alternative rely on, and the lowering of the count too.

Cursors that never ask an empty queue for a score are called careful. Whether a count of zero is
ever lowered shows in a twin of the loops that fails in this case: it does what the loops do.
-/

namespace Retrieval

namespace Outcome

variable {σ τ α β : Type} {fails : Failure → Prop} {post : Option α → σ → Prop} {o : Outcome σ α}

/-- The call ends as `post` tells, and no empty queue has been asked for a score. -/
abbrev Heeds (post : Option α → σ → Prop) (o : Outcome σ α) : Prop :=
  Leaves (· ≠ .scoreOfEmptyQueue) post o

/-- What goes on from an answer matters only for the answers that there can be. -/
theorem Leaves.bind_congr {kept : σ → τ} {next next' : α → σ → Outcome τ β}
    (leaves : Leaves fails post o)
    (same : ∀ a state, post (some a) state → next a state = next' a state) :
    o.bind kept next = o.bind kept next' := by
  cases leaves with
  | answered h => exact congrArg (Outcome.marking _) (same _ _ h)
  | failed => rfl

end Outcome

open Outcome

namespace Cursor

variable {σ τ : Type} [Cursor σ] [Cursor τ] {c c' : σ}

/-- Cursors that ask no empty queue for a score, in whatever order they are called. -/
structure Heeding (good : σ → Prop) : Prop where
  move : ∀ {c} (move : Move), good c → (move.make c).Heeds fun _ c' => good c'
  score : ∀ {c}, good c → (Cursor.score c).Heeds fun _ c' => good c'

/-- A cursor that asks no empty queue for a score, now and after any calls. -/
def Careful (c : σ) : Prop := ∃ good : σ → Prop, Heeding good ∧ good c

theorem heeding_careful : Heeding (Careful (σ := σ)) where
  move := fun move ⟨_, kept, h⟩ => (kept.move move h).imp fun _ _ left => ⟨_, kept, left⟩
  score := fun ⟨_, kept, h⟩ => (kept.score h).imp fun _ _ left => ⟨_, kept, left⟩

theorem Careful.move (h : Careful c) (move : Move) : (move.make c).Heeds fun _ c' => Careful c' :=
  heeding_careful.move move h

theorem Careful.next (h : Careful c) : (Cursor.next c).Heeds fun _ c' => Careful c' :=
  h.move .next

theorem Careful.seek (h : Careful c) (t : DocId) :
    (Cursor.seek c t).Heeds fun _ c' => Careful c' :=
  h.move (.seek t)

theorem Careful.score (h : Careful c) : (Cursor.score c).Heeds fun _ c' => Careful c' :=
  heeding_careful.score h

end Cursor

open Cursor

namespace CursorQueue

variable {σ : Type} [Cursor σ] {n : Nat} {q : CursorQueue σ}

/-- A queue in order of so many careful cursors. -/
def Keeps (n : Nat) (q : CursorQueue σ) : Prop :=
  ∃ entries, Holds q entries ∧ entries.length = n ∧ ∀ e ∈ entries, Careful e.cursor

theorem Keeps.size_eq (h : Keeps n q) : q.size = n := by
  obtain ⟨entries, holds, length, -⟩ := h
  rw [size, holds.length_eq, length]

theorem keeps_empty (capacity : Nat) : Keeps 0 (empty capacity : CursorQueue σ) :=
  ⟨[], holds_empty capacity, rfl, List.forall_mem_nil _⟩

theorem Keeps.push (h : Keeps n q) {c : σ} (careful : Careful c) (d : DocId) :
    Keeps (n + 1) (q.push ⟨c, d⟩) := by
  obtain ⟨entries, holds, length, all⟩ := h
  exact ⟨_, holds.push ⟨c, d⟩, congrArg (· + 1) length, List.forall_mem_cons.mpr ⟨careful, all⟩⟩

/-- The first cursor of a queue that is known not to be empty. -/
theorem Keeps.fronts (h : Keeps n q) (pos : 0 < n) : ∃ e rest, Fronts q e rest ∧
    rest.length + 1 = n ∧ Careful e.cursor ∧ ∀ x ∈ rest, Careful x.cursor := by
  obtain ⟨entries, holds, length, all⟩ := h
  have nonempty : entries ≠ [] := by
    rintro rfl
    exact Nat.ne_of_gt pos length.symm
  obtain ⟨e, rest, fronts, perm, -⟩ := holds.fronts nonempty
  obtain ⟨head, tail⟩ := List.forall_mem_cons.mp fun x inside => all x (perm.mem_iff.mpr inside)
  exact ⟨e, rest, fronts, perm.length_eq.symm.trans length, head, tail⟩

/-- A move of the first cursor drops it if it finds no document. -/
theorem Keeps.moveTop (h : Keeps n q) (pos : 0 < n) (move : Move) :
    (q.moveTop move.make).Heeds fun found q' =>
      Keeps (if found = some false then n - 1 else n) q' := by
  obtain ⟨e, rest, fronts, rfl, head, tail⟩ := h.fronts pos
  rw [CursorQueue.moveTop, fronts.top?_eq]
  refine (head.move move).bind (fun c careful => ?_) fun found c careful => .answered ?_
  · exact ⟨_, (fronts.withTop c).holds, rfl, List.forall_mem_cons.mpr ⟨careful, tail⟩⟩
  · have front := fronts.withTop c
    cases found with
    | true => exact ⟨_, front.settleTop, rfl, List.forall_mem_cons.mpr ⟨careful, tail⟩⟩
    | false => exact ⟨_, front.dropTop, rfl, tail⟩

theorem Keeps.topScore (h : Keeps n q) (pos : 0 < n) :
    q.topScore.Heeds fun _ q' => Keeps n q' := by
  obtain ⟨e, rest, fronts, rfl, head, tail⟩ := h.fronts pos
  rw [CursorQueue.topScore, fronts.top?_eq]
  refine head.score.within fun _ c careful => ?_
  exact ⟨_, (fronts.withTop c).holds, rfl, List.forall_mem_cons.mpr ⟨careful, tail⟩⟩

/-- A queue answers whether a cursor has been put in. -/
theorem Keeps.insert (h : Keeps n q) {c : σ} (careful : Careful c) :
    (q.insert c).Heeds fun found q' => Keeps (if found = some true then n + 1 else n) q' := by
  rw [CursorQueue.insert]
  split
  · exact .failed h (by simp)
  · split
    · refine careful.next.bind (fun _ _ => h) fun found c' careful' => .answered ?_
      cases found with
      | true => exact h.push careful' _
      | false => exact h
    · split
      · exact .answered h
      · exact .answered (h.push careful _)

end CursorQueue

namespace Threshold

open CursorQueue

variable {σ : Type} [Cursor σ] {f : Front σ} {T : Threshold σ}

namespace Front

/-- One alternative has run out of documents. If none is left in the count, this fails. -/
def loseChecked (overflow : Failure) (f : Front σ) : Outcome (Front σ) Unit :=
  if f.live = 0 then .fail f overflow else .done f.lose ()

/-- As `absorb`, with the count being checked. The twins of the functions that call it follow, each
named in the same way. -/
def absorbChecked (overflow : Failure) : Nat → Front σ → Outcome (Front σ) Unit
  | 0, f => .fail f .stalled
  | bound + 1, f =>
    f.queue.nextTop.bind f.withQueue fun found queue =>
      let f := f.withQueue queue
      (if found then .done f () else f.loseChecked overflow).andThen fun _ f =>
        if !found && f.live == 0 then
          .done f ()
        else if f.queue.topDoc ≠ f.current then
          .done f ()
        else
          f.queue.topScore.bind f.withQueue fun score queue =>
            absorbChecked overflow bound
              { f with queue, total := f.total + score, matched := f.matched + 1 }

def searchChecked (overflow : Failure) (needed : Nat) : Nat → Front σ → Outcome (Front σ) Bool
  | 0, f => .fail f .stalled
  | bound + 1, f =>
    f.propose.andThen fun _ f =>
      (f.absorbChecked overflow (f.movesLeft + 1)).andThen fun _ f =>
        if needed ≤ f.matched then .done f true
        else if f.live < needed then .done f false
        else searchChecked overflow needed bound f

def advanceChecked (overflow : Failure) (needed : Nat) (f : Front σ) : Outcome (Front σ) Bool :=
  f.searchChecked overflow needed (f.movesLeft + 1)

def catchUpChecked (overflow : Failure) (needed : Nat) (target : DocId) :
    Nat → Front σ → Outcome (Front σ) Bool
  | 0, f => .fail f .stalled
  | bound + 1, f =>
    if target ≤ f.queue.topDoc then
      f.advanceChecked overflow needed
    else
      (f.queue.seekTop target).bind f.withQueue fun found queue =>
        let f := f.withQueue queue
        if found then catchUpChecked overflow needed target bound f
        else
          (f.loseChecked overflow).andThen fun _ f =>
            if f.live < needed then .done f false
            else catchUpChecked overflow needed target bound f

/-- The count is that of the alternatives in the queue. -/
def Counts (f : Front σ) : Prop := Keeps f.live f.queue

/-- What a move of the first alternative leaves of the front, the count being brought up to date. -/
def settled (f : Front σ) (found : Bool) (queue : CursorQueue σ) : Front σ :=
  if found then f.withQueue queue else (f.withQueue queue).lose

theorem counts_settled {found : Bool} {queue : CursorQueue σ}
    (h : Keeps (if some found = some false then f.live - 1 else f.live) queue) :
    (f.settled found queue).Counts := by
  cases found with
  | true => exact h
  | false => exact h

omit [Cursor σ] in
theorem loseChecked_eq (overflow : Failure) (pos : 0 < f.live) :
    f.loseChecked overflow = .done f.lose () :=
  if_neg (Nat.ne_of_gt pos)

omit [Cursor σ] in
theorem settledChecked_eq (overflow : Failure) (found : Bool) (queue : CursorQueue σ)
    (pos : 0 < f.live) :
    (if found then .done (f.withQueue queue) () else (f.withQueue queue).loseChecked overflow) =
      .done (f.settled found queue) () := by
  cases found with
  | true => rfl
  | false => exact loseChecked_eq overflow pos

omit [Cursor σ] in
/-- The alternatives go on from a candidate only if one is left. -/
theorem pos_of_settled {found : Bool} {queue : CursorQueue σ} (pos : 0 < f.live)
    (left : ¬ (!found && (f.settled found queue).live == 0) = true) :
    0 < (f.settled found queue).live := by
  cases found with
  | true => exact pos
  | false => simpa [Nat.pos_iff_ne_zero] using left

theorem propose_heeds (h : f.Counts) (pos : 0 < f.live) :
    f.propose.Heeds fun _ f' => f'.Counts ∧ f'.live = f.live := by
  rw [propose]
  exact (Keeps.topScore h pos).bind (fun _ kept => ⟨kept, rfl⟩) fun _ _ kept =>
    .answered ⟨kept, rfl⟩

/-- As long as an alternative may be on the candidate, one is left in the queue. -/
theorem absorb_heeds (bound : Nat) (h : f.Counts) (pos : 0 < f.live) :
    (f.absorb bound).Heeds fun _ f' => f'.Counts := by
  induction bound generalizing f with
  | zero => exact .failed h (by simp)
  | succ bound ih =>
      rw [absorb]
      refine (Keeps.moveTop h pos .next).bind (fun queue kept => kept) fun found queue kept => ?_
      have counts : (f.settled found queue).Counts := counts_settled kept
      dsimp only
      rw [← settled]
      split
      · exact .answered counts
      · next going =>
        split
        · exact .answered counts
        · have pos' := pos_of_settled pos going
          exact (Keeps.topScore counts pos').bind (fun _ kept' => kept') fun _ _ kept' =>
            ih kept' pos'

theorem absorbChecked_eq (overflow : Failure) (bound : Nat) (h : f.Counts) (pos : 0 < f.live) :
    f.absorbChecked overflow bound = f.absorb bound := by
  induction bound generalizing f with
  | zero => rfl
  | succ bound ih =>
      rw [absorb, absorbChecked]
      refine (Keeps.moveTop h pos .next).bind_congr fun found queue kept => ?_
      have counts : (f.settled found queue).Counts := counts_settled kept
      dsimp only
      rw [settledChecked_eq overflow found queue pos, andThen_done, ← settled]
      split
      · rfl
      · next going =>
        split
        · rfl
        · have pos' := pos_of_settled pos going
          exact (Keeps.topScore counts pos').bind_congr fun _ _ kept' => ih kept' pos'

/-- A candidate is proposed only while enough alternatives are left to make it a match. -/
theorem search_heeds {needed : Nat} (some : 0 < needed) (bound : Nat) (h : f.Counts)
    (enough : needed ≤ f.live) : (f.search needed bound).Heeds fun _ f' => f'.Counts := by
  induction bound generalizing f with
  | zero => exact .failed h (by simp)
  | succ bound ih =>
      have pos : 0 < f.live := Nat.lt_of_lt_of_le some enough
      rw [search]
      refine (propose_heeds h pos).bind (fun _ left => left.1) fun _ f' left => ?_
      obtain ⟨counts, same⟩ := left
      refine (absorb_heeds _ counts (same ▸ pos)).bind (fun _ counts' => counts')
        fun _ f'' counts' => ?_
      split
      · exact .answered counts'
      · split
        · exact .answered counts'
        · next enough' => exact ih counts' (Nat.not_lt.mp enough')

theorem searchChecked_eq (overflow : Failure) {needed : Nat} (some : 0 < needed) (bound : Nat)
    (h : f.Counts) (enough : needed ≤ f.live) :
    f.searchChecked overflow needed bound = f.search needed bound := by
  induction bound generalizing f with
  | zero => rfl
  | succ bound ih =>
      have pos : 0 < f.live := Nat.lt_of_lt_of_le some enough
      rw [search, searchChecked]
      refine (propose_heeds h pos).bind_congr fun _ f' left => ?_
      obtain ⟨counts, same⟩ := left
      rw [absorbChecked_eq overflow _ counts (same ▸ pos)]
      refine (absorb_heeds _ counts (same ▸ pos)).bind_congr fun _ f'' counts' => ?_
      split
      · rfl
      · split
        · rfl
        · next enough' => exact ih counts' (Nat.not_lt.mp enough')

/-- Alternatives are sent to the target only while enough of them are left. -/
theorem catchUp_heeds {needed : Nat} (some : 0 < needed) (t : DocId) (bound : Nat) (h : f.Counts)
    (enough : needed ≤ f.live) : (f.catchUp needed t bound).Heeds fun _ f' => f'.Counts := by
  induction bound generalizing f with
  | zero => exact .failed h (by simp)
  | succ bound ih =>
      have pos : 0 < f.live := Nat.lt_of_lt_of_le some enough
      rw [catchUp]
      split
      · exact search_heeds some _ h enough
      · refine (Keeps.moveTop h pos (.seek t)).bind (fun _ kept => kept) fun found queue kept => ?_
        cases found with
        | true => exact ih kept enough
        | false =>
            dsimp only
            rw [if_neg Bool.false_ne_true]
            split
            · exact .answered kept
            · next enough' => exact ih kept (Nat.not_lt.mp enough')

theorem catchUpChecked_eq (overflow : Failure) {needed : Nat} (some : 0 < needed) (t : DocId)
    (bound : Nat) (h : f.Counts) (enough : needed ≤ f.live) :
    f.catchUpChecked overflow needed t bound = f.catchUp needed t bound := by
  induction bound generalizing f with
  | zero => rfl
  | succ bound ih =>
      have pos : 0 < f.live := Nat.lt_of_lt_of_le some enough
      rw [catchUp, catchUpChecked]
      split
      · exact searchChecked_eq overflow some _ h enough
      · refine (Keeps.moveTop h pos (.seek t)).bind_congr fun found queue kept => ?_
        cases found with
        | true => exact ih kept enough
        | false =>
            dsimp only
            rw [if_neg Bool.false_ne_true, if_neg Bool.false_ne_true,
              loseChecked_eq overflow (f := f.withQueue queue) pos, andThen_done]
            split
            · rfl
            · next enough' => exact ih kept (Nat.not_lt.mp enough')

end Front

def nextChecked (overflow : Failure) (t : Threshold σ) : Outcome (Threshold σ) Bool :=
  t.start.andThen fun front t =>
    if front.live < t.needed then .done t false
    else (front.advanceChecked overflow t.needed).within t.withFront

def seekChecked (overflow : Failure) (t : Threshold σ) (target : DocId) :
    Outcome (Threshold σ) Bool :=
  t.start.andThen fun front t =>
    if front.live < t.needed then .done t false
    else if target ≤ front.current then .done t true
    else
      (front.catchUpChecked overflow t.needed target
        (front.movesLeft + front.queue.size + 1)).within t.withFront

/-- The alternatives are careful, and they are counted once they have been gathered. -/
inductive Stage.Minds : Stage σ → Prop
  | waiting {alternatives : List σ} (careful : ∀ a ∈ alternatives, Careful a) :
      Minds (.waiting alternatives)
  | running {f : Front σ} (counts : f.Counts) : Minds (.running f)

/-- The threshold keeps count of its alternatives, at least one of which has to match. -/
structure Minds (T : Threshold σ) : Prop where
  needed : 0 < T.needed
  stage : T.stage.Minds

theorem gather_heeds {alternatives : List σ} (careful : ∀ a ∈ alternatives, Careful a)
    {queue : CursorQueue σ} {live : Nat} (h : Keeps live queue) :
    (gather queue live alternatives).Heeds fun _ gathered => Keeps gathered.2 gathered.1 := by
  induction alternatives generalizing queue live with
  | nil => exact .answered h
  | cons a rest ih =>
      obtain ⟨head, tail⟩ := List.forall_mem_cons.mp careful
      rw [gather]
      refine (h.insert head).bind (fun queue' kept => kept) fun found queue' kept => ih tail ?_
      cases found with
      | true => exact kept
      | false => exact kept

/-- If the alternatives cannot be gathered, there is no queue, and so there is nothing to count. -/
theorem Minds.start (h : T.Minds) : T.start.Heeds fun front T' =>
    T'.Minds ∧ ∀ f, front = some f → f.Counts := by
  obtain ⟨needed, arity, stage⟩ := T
  obtain ⟨pos, minds⟩ := h
  rw [Threshold.start]
  cases minds with
  | running counts =>
      refine .answered ⟨⟨pos, .running counts⟩, ?_⟩
      rintro _ ⟨rfl⟩
      exact counts
  | waiting careful =>
      refine (gather_heeds careful (keeps_empty arity)).bind (fun gathered _ => ?_)
        fun _ gathered kept => .answered ⟨⟨pos, .running kept⟩, ?_⟩
      · exact ⟨⟨pos, .waiting (List.forall_mem_nil _)⟩, fun f => no_answer⟩
      · rintro _ ⟨rfl⟩
        exact kept

theorem heeding_minds : Heeding (Minds (σ := σ)) where
  move := by
    intro T move h
    have going : ∀ {T' : Threshold σ} {o : Outcome (Front σ) Bool}, T'.Minds →
        o.Heeds (fun _ f' => f'.Counts) → (o.within T'.withFront).Heeds fun _ T'' => T''.Minds :=
      fun minds heeds => heeds.within fun _ f' counts => ⟨minds.needed, .running counts⟩
    cases move with
    | next =>
        show T.next.Heeds _
        rw [Threshold.next]
        refine h.start.bind (fun _ left => left.1) fun f T' left => ?_
        obtain ⟨minds, counts⟩ := left
        split
        · exact .answered minds
        · next enough =>
          exact going minds
            (Front.search_heeds minds.needed _ (counts f rfl) (Nat.not_lt.mp enough))
    | seek t =>
        show (T.seek t).Heeds _
        rw [Threshold.seek]
        refine h.start.bind (fun _ left => left.1) fun f T' left => ?_
        obtain ⟨minds, counts⟩ := left
        split
        · exact .answered minds
        · next enough =>
          split
          · exact .answered minds
          · exact going minds
              (Front.catchUp_heeds minds.needed t _ (counts f rfl) (Nat.not_lt.mp enough))
  score := fun h => .answered h

/-- Checking the count makes no difference. -/
theorem Minds.nextChecked_eq (h : T.Minds) (overflow : Failure) :
    T.nextChecked overflow = T.next := by
  rw [nextChecked, next]
  refine h.start.bind_congr fun f T' left => ?_
  obtain ⟨minds, counts⟩ := left
  split
  · rfl
  · next enough =>
    exact congrArg _
      (Front.searchChecked_eq overflow minds.needed _ (counts f rfl) (Nat.not_lt.mp enough))

theorem Minds.seekChecked_eq (h : T.Minds) (overflow : Failure) (t : DocId) :
    T.seekChecked overflow t = T.seek t := by
  rw [seekChecked, seek]
  refine h.start.bind_congr fun f T' left => ?_
  obtain ⟨minds, counts⟩ := left
  split
  · rfl
  · next enough =>
    split
    · rfl
    · exact congrArg _
        (Front.catchUpChecked_eq overflow minds.needed t _ (counts f rfl) (Nat.not_lt.mp enough))

theorem minds_ofAlternatives {alternatives : List σ} {needed : Nat}
    (made : ofAlternatives alternatives needed = .ok T)
    (careful : ∀ a ∈ alternatives, Careful a) : T.Minds := by
  rw [ofAlternatives] at made
  split at made
  · exact absurd made Outcome.error_ne_ok
  · next some =>
    split at made
    · exact absurd made Outcome.error_ne_ok
    · obtain rfl := Except.ok.inj made
      exact ⟨Nat.pos_of_ne_zero some, .waiting careful⟩

theorem Minds.careful (h : T.Minds) : Careful T := ⟨_, heeding_minds, h⟩

end Threshold

end Retrieval
