import Retrieval.Posting.Cursor
import Retrieval.Proofs.Boolean

/-!
# Exhaustion is final

Once a move has answered that there is no document left, no later move finds one. This is not a part
of the promise of a cursor, which says nothing about such calls, and it does not depend on any
promise: it holds of all cursors in all states, also after failures.

Each kind of cursor notes in its own way that it has run out. A conjunction and a threshold keep the
note themselves; the others rely on the part that answers for them.
-/

namespace Retrieval

namespace Cursor

inductive Move where
  | next
  | seek (target : DocId)

def Move.make {σ : Type} [Cursor σ] : Move → σ → Outcome σ Bool
  | next, c => Cursor.next c
  | seek target, c => Cursor.seek c target

variable {σ τ : Type} [Cursor σ] [Cursor τ]

/-- No call leads out of these cursors, and no move puts one of them on a document. -/
structure Exhausts (spent : σ → Prop) : Prop where
  move : ∀ {c} (move : Move), spent c →
    (move.make c).answer ≠ .ok true ∧ spent (move.make c).state
  score : ∀ {c}, spent c → spent (Cursor.score c).state

/-- A cursor has run out for good. -/
def Spent (c : σ) : Prop := ∃ spent : σ → Prop, Exhausts spent ∧ spent c

theorem exhausts_spent : Exhausts (Spent (σ := σ)) where
  move := fun move ⟨_, kept, h⟩ =>
    ⟨(kept.move move h).1, _, kept, (kept.move move h).2⟩
  score := fun ⟨_, kept, h⟩ => ⟨_, kept, kept.score h⟩

/-- A kind of cursor that has run out for good whenever a move answers so. -/
class Conclusive (σ : Type) [Cursor σ] : Prop where
  next : ∀ c : σ, (Cursor.next c).answer = .ok false → Spent (Cursor.next c).state
  seek : ∀ (c : σ) (t : DocId), (Cursor.seek c t).answer = .ok false → Spent (Cursor.seek c t).state

/-- Cursors that stay as they are and find nothing more have run out for good. -/
theorem exhausts_of_done {spent : σ → Prop}
    (move : ∀ {c} (move : Move), spent c → move.make c = .done c false)
    (score : ∀ {c}, spent c → spent (Cursor.score c).state) : Exhausts spent where
  move := fun {c} m h => by
    rw [move m h]
    exact ⟨Outcome.missed_ne_found, h⟩
  score := score

/-- A move that answers that there is no document left is the last one that could. -/
theorem spent_of_ended [Conclusive σ] (move : Move) {c : σ}
    (ended : (move.make c).answer = .ok false) : Spent (move.make c).state := by
  cases move with
  | next => exact Conclusive.next c ended
  | seek t => exact Conclusive.seek c t ended

theorem Embeds.make {whole : σ → τ} (embeds : Embeds whole) (move : Move) (c : σ) :
    move.make (whole c) = (move.make c).within whole := by
  cases move with
  | next => exact embeds.next c
  | seek t => exact embeds.seek c t

theorem Embeds.spent {whole : σ → τ} (embeds : Embeds whole) {c : σ} (h : Spent c) :
    Spent (whole c) := by
  refine ⟨fun w => ∃ c, w = whole c ∧ Spent c, ⟨?_, ?_⟩, c, rfl, h⟩
  · rintro _ move ⟨c, rfl, h⟩
    rw [embeds.make]
    exact ⟨(exhausts_spent.move move h).1, _, rfl, (exhausts_spent.move move h).2⟩
  · rintro _ ⟨c, rfl, h⟩
    rw [embeds.score]
    exact ⟨_, rfl, exhausts_spent.score h⟩

/-- A whole that answers as its part does has run out when the part has. -/
theorem Embeds.spent_of_ended [Conclusive σ] {whole : σ → τ} (embeds : Embeds whole) (move : Move)
    {c : σ} (ended : (move.make (whole c)).answer = .ok false) :
    Spent (move.make (whole c)).state := by
  rw [embeds.make] at ended ⊢
  exact embeds.spent (Cursor.spent_of_ended move ended)

end Cursor

open Cursor

instance : Conclusive Empty where
  next c := nomatch c
  seek c := nomatch c

instance {σ τ : Type} [Cursor σ] [Cursor τ] [Conclusive σ] [Conclusive τ] :
    Conclusive (σ ⊕ τ) where
  next
    | .inl _, ended => embeds_inl.spent_of_ended .next ended
    | .inr _, ended => embeds_inr.spent_of_ended .next ended
  seek
    | .inl _, t, ended => embeds_inl.spent_of_ended (.seek t) ended
    | .inr _, t, ended => embeds_inr.spent_of_ended (.seek t) ended

theorem Nothing.exhausts : Exhausts fun _ : Nothing => True :=
  exhausts_of_done (fun move _ => by cases move <;> rfl) fun _ => trivial

instance : Conclusive Nothing where
  next _ _ := ⟨_, Nothing.exhausts, trivial⟩
  seek _ _ _ := ⟨_, Nothing.exhausts, trivial⟩

namespace PostingCursor

/-- An exhausted place in a list stays as it is. -/
theorem move_of_isExhausted {c : PostingCursor} (exhausted : c.isExhausted = true) (move : Move) :
    (move.make c).answer ≠ .ok true ∧ (move.make c).state = c := by
  have ⟨started, out⟩ : c.started = true ∧ c.list.size ≤ c.place := by
    simpa [isExhausted] using exhausted
  cases move with
  | next =>
      have stays : c.step = c := by
        rw [step, if_pos started, if_neg (Nat.not_lt.mpr out)]
      show c.next.answer ≠ _ ∧ c.next.state = c
      rw [next, stays, exhausted]
      exact ⟨Outcome.missed_ne_found, rfl⟩
  | seek t =>
      have stays : c.jump t = c := by
        rw [jump, if_neg (Nat.not_lt.mpr out), ← started]
      show (c.seek t).answer ≠ _ ∧ (c.seek t).state = c
      rw [seek, stays, exhausted]
      by_cases negative : t < 0
      · rw [if_pos negative]
        exact ⟨Outcome.error_ne_ok, rfl⟩
      · rw [if_neg negative]
        exact ⟨Outcome.missed_ne_found, rfl⟩

theorem state_score (c : PostingCursor) : (Cursor.score c).state = c := by
  show (PostingCursor.score c).state = c
  rw [PostingCursor.score]
  split
  · split <;> rfl
  · rfl

theorem exhausts_isExhausted : Exhausts fun c : PostingCursor => c.isExhausted = true where
  move := fun move exhausted => by
    rw [(move_of_isExhausted exhausted move).2]
    exact ⟨(move_of_isExhausted exhausted move).1, exhausted⟩
  score := fun exhausted => by rwa [state_score]

instance : Conclusive PostingCursor where
  next c ended := by
    refine ⟨_, exhausts_isExhausted, ?_⟩
    show c.step.isExhausted = true
    simpa using Except.ok.inj ended
  seek c t ended := by
    refine ⟨_, exhausts_isExhausted, ?_⟩
    change (c.seek t).answer = _ at ended
    show (c.seek t).state.isExhausted = true
    rw [seek] at ended ⊢
    by_cases negative : t < 0
    · rw [if_pos negative] at ended
      exact absurd ended Outcome.error_ne_ok
    · rw [if_neg negative] at ended ⊢
      show (c.jump t).isExhausted = true
      simpa using Except.ok.inj ended

end PostingCursor

namespace Conjunction

variable {σ : Type} [Cursor σ] {c : Conjunction σ}

theorem fresh_moveAll (c : Conjunction σ) (move : σ → Outcome σ Bool) :
    (c.moveAll move).state.fresh = c.fresh := by
  rw [moveAll]
  split
  · refine Outcome.state_bind (fresh · = c.fresh) rfl fun found _ => ?_
    cases found <;> rfl
  · rfl

theorem fresh_start (c : Conjunction σ) : c.start.state.fresh = false :=
  fresh_moveAll _ _

theorem fresh_advanceLast (c : Conjunction σ) : c.advanceLast.state.fresh = c.fresh := by
  rw [advanceLast]
  split
  · split
    · rfl
    · exact Outcome.state_bind (fresh · = c.fresh) rfl fun _ _ => rfl
  · rfl

/-- Bringing the parts together ends without a document only when there are no further ones. -/
theorem converge_missed (bound : Nat) (c : Conjunction σ) :
    (c.converge bound).state.fresh = c.fresh ∧
      ((c.converge bound).answer = .ok false → (c.converge bound).state.more = false) := by
  induction bound generalizing c with
  | zero => exact ⟨rfl, fun ended => absurd ended Outcome.error_ne_ok⟩
  | succ bound ih =>
      rw [converge]
      split
      · exact ⟨rfl, Except.ok.inj⟩
      · split
        · rename_i first rest _ _
          obtain ⟨failure | found, state, marks⟩ := Cursor.seek first c.lastDoc
          · exact ⟨rfl, fun ended => absurd ended Outcome.error_ne_ok⟩
          · cases found with
            | true => exact ih _
            | false => exact ⟨rfl, fun _ => rfl⟩
        · exact ⟨rfl, Except.ok.inj⟩

/-- A conjunction without further documents notes this, and no call changes it. -/
def IsOver (c : Conjunction σ) : Prop := c.fresh = false ∧ c.more = false

theorem IsOver.move (h : c.IsOver) (move : Move) : move.make c = .done c false := by
  obtain ⟨started, out⟩ := h
  cases move with
  | next =>
      show c.next = _
      rw [Conjunction.next, if_neg (by simp [started]), advanceLast, if_neg (by simp [out]),
        Outcome.andThen_done, settle_of_not_more out]
  | seek t =>
      show c.seek t = _
      rw [seek, if_neg (by simp [started]), Outcome.andThen_done, moveAll, if_neg (by simp [out]),
        Outcome.andThen_done, settle_of_not_more out]

theorem exhausts_isOver : Exhausts (IsOver (σ := σ)) :=
  exhausts_of_done (fun move h => h.move move) id

theorem spent_settle (started : c.fresh = false) (ended : c.settle.answer = .ok false) :
    Spent c.settle.state :=
  ⟨_, exhausts_isOver, (converge_missed _ c).1.trans started, (converge_missed _ c).2 ended⟩

instance : Conclusive (Conjunction σ) where
  next c ended := by
    obtain ⟨-, -, ended, state⟩ := Outcome.answered_of_bind ended
    rw [show (Cursor.next c).state = _ from state]
    refine spent_settle ?_ ended
    split
    · exact c.fresh_start
    · rename_i started
      rw [fresh_advanceLast]
      simpa using started
  seek c t ended := by
    change (c.seek t).answer = _ at ended
    obtain ⟨-, -, ended, state⟩ := Outcome.answered_of_bind ended
    obtain ⟨-, -, ended, state'⟩ := Outcome.answered_of_bind ended
    rw [show (Cursor.seek c t).state = _ from state.trans state']
    refine spent_settle ?_ ended
    rw [fresh_moveAll]
    split
    · exact c.fresh_start
    · rename_i started
      simpa [Outcome.done] using started

end Conjunction

namespace Threshold

variable {σ : Type} [Cursor σ] {T : Threshold σ}

/-- A search ends without a document only when too few alternatives are left. -/
theorem few_of_search {needed : Nat} (bound : Nat) {f : Front σ}
    (ended : (f.search needed bound).answer = .ok false) :
    (f.search needed bound).state.live < needed := by
  induction bound generalizing f with
  | zero => exact absurd ended Outcome.error_ne_ok
  | succ bound ih =>
      rw [Front.search] at ended ⊢
      obtain ⟨-, -, ended, state⟩ := Outcome.answered_of_bind ended
      rw [Outcome.andThen, state]
      obtain ⟨-, -, ended, state⟩ := Outcome.answered_of_bind ended
      rw [Outcome.andThen, state]
      generalize (Front.absorb (f.propose.state.movesLeft + 1) f.propose.state).state = g
        at ended ⊢
      by_cases enough : needed ≤ g.matched
      · rw [if_pos enough] at ended
        exact absurd ended.symm Outcome.missed_ne_found
      rw [if_neg enough] at ended ⊢
      by_cases few : g.live < needed
      · rw [if_pos few]
        exact few
      · rw [if_neg few] at ended ⊢
        exact ih ended

theorem few_of_catchUp {needed : Nat} {t : DocId} (bound : Nat) {f : Front σ}
    (ended : (f.catchUp needed t bound).answer = .ok false) :
    (f.catchUp needed t bound).state.live < needed := by
  induction bound generalizing f with
  | zero => exact absurd ended Outcome.error_ne_ok
  | succ bound ih =>
      rw [Front.catchUp] at ended ⊢
      by_cases reached : t ≤ f.queue.topDoc
      · rw [if_pos reached] at ended ⊢
        exact few_of_search _ ended
      rw [if_neg reached] at ended ⊢
      obtain ⟨found, -, ended, state⟩ := Outcome.answered_of_bind ended
      rw [state]
      cases found with
      | true => exact ih ended
      | false =>
          rw [if_neg Bool.false_ne_true] at ended ⊢
          by_cases few : (f.withQueue (f.queue.seekTop t).state).lose.live < needed
          · rw [if_pos few]
            exact few
          · rw [if_neg few] at ended ⊢
            exact ih ended

/-- Too few alternatives of a threshold are left, and no call changes it. -/
def IsOver (T : Threshold σ) : Prop := ∃ f, T.stage = .running f ∧ f.live < T.needed

theorem IsOver.move (h : T.IsOver) (move : Move) : move.make T = .done T false := by
  obtain ⟨f, running, few⟩ := h
  cases move with
  | next =>
      show T.next = _
      rw [Threshold.next, start_running running, Outcome.andThen_done, if_pos few]
  | seek t =>
      show T.seek t = _
      rw [seek, start_running running, Outcome.andThen_done, if_pos few]

/-- An answered start leaves the alternatives gathered. -/
theorem running_of_start {f : Front σ} (started : T.start.answer = .ok f) :
    T.start.state.stage = .running f := by
  rw [start] at started ⊢
  split at started
  · rename_i running
    exact running.trans (congrArg Stage.running (Except.ok.inj started))
  · obtain ⟨-, -, started, state⟩ := Outcome.answered_of_bind started
    dsimp only
    rw [state]
    exact congrArg Stage.running (Except.ok.inj started)

theorem exhausts_isOver : Exhausts (IsOver (σ := σ)) :=
  exhausts_of_done (fun move h => h.move move) id

instance : Conclusive (Threshold σ) where
  next T ended := by
    obtain ⟨f, started, ended, state⟩ := Outcome.answered_of_bind ended
    rw [show (Cursor.next T).state = _ from state]
    refine ⟨_, exhausts_isOver, ?_⟩
    by_cases few : f.live < T.start.state.needed
    · rw [if_pos few]
      exact ⟨f, running_of_start started, few⟩
    · rw [if_neg few] at ended ⊢
      exact ⟨_, rfl, few_of_search _ ended⟩
  seek T t ended := by
    obtain ⟨f, started, ended, state⟩ := Outcome.answered_of_bind ended
    rw [show (Cursor.seek T t).state = _ from state]
    refine ⟨_, exhausts_isOver, ?_⟩
    by_cases few : f.live < T.start.state.needed
    · rw [if_pos few]
      exact ⟨f, running_of_start started, few⟩
    rw [if_neg few] at ended ⊢
    by_cases back : t ≤ f.current
    · rw [if_pos back] at ended
      exact absurd ended.symm Outcome.missed_ne_found
    · rw [if_neg back] at ended ⊢
      exact ⟨_, rfl, few_of_catchUp _ ended⟩

end Threshold

namespace Exclusion

variable {ρ ε : Type}

/-- The required side has run out for good, or has been given up. -/
inductive Over [Cursor ρ] : Exclusion ρ ε → Prop
  | without (excluded : Option ε) : Over (begun none excluded)
  | withSpent {required : ρ} (spent : Spent required) (excluded : Option ε) :
      Over (begun (some required) excluded)

variable [Cursor ρ] [Cursor ε]

/-- An exclusion ends without a document only by giving up its required side. -/
theorem over_of_pass (bound : Nat) {required : ρ} {excluded : Option ε}
    (ended : (pass bound required excluded).answer = .ok false) :
    (pass bound required excluded).state.Over := by
  induction bound generalizing required excluded with
  | zero =>
      cases excluded with
      | none => exact absurd ended.symm Outcome.missed_ne_found
      | some _ => exact absurd ended Outcome.error_ne_ok
  | succ bound ih =>
      cases excluded with
      | none => exact absurd ended.symm Outcome.missed_ne_found
      | some excluded =>
          rw [pass] at ended ⊢
          obtain ⟨isExcluded, -, ended, state⟩ := Outcome.answered_of_bind ended
          rw [state]
          cases isExcluded with
          | true =>
              rw [if_pos rfl] at ended ⊢
              obtain ⟨found, -, ended, state⟩ := Outcome.answered_of_bind ended
              rw [state]
              cases found with
              | true => exact ih ended
              | false => exact .without _
          | false => exact absurd ended.symm Outcome.missed_ne_found

theorem over_of_follow {excluded : Option ε} {o : Outcome ρ Bool}
    (ended : (follow excluded o).answer = .ok false) : (follow excluded o).state.Over := by
  obtain ⟨found, -, ended, state⟩ := Outcome.answered_of_bind ended
  rw [show (follow excluded o).state = _ from state]
  cases found with
  | true => exact over_of_pass _ ended
  | false => exact .without excluded

/-- A move of a required side that has run out leads nowhere. -/
theorem over_of_spent {o : Outcome ρ Bool} (missed : o.answer ≠ .ok true ∧ Spent o.state)
    (excluded : Option ε) :
    (follow excluded o).answer ≠ .ok true ∧ (follow excluded o).state.Over := by
  obtain ⟨failure | found, state, marks⟩ := o
  · exact ⟨Outcome.error_ne_ok, .withSpent missed.2 excluded⟩
  · cases found with
    | true => exact absurd rfl missed.1
    | false => exact ⟨Outcome.missed_ne_found, .without excluded⟩

theorem exhausts_over : Exhausts (Over (ρ := ρ) (ε := ε)) where
  move := by
    rintro _ move (excluded | ⟨spent, excluded⟩)
    · have stays : move.make (begun none excluded) =
          .done (begun (none : Option ρ) excluded) false := by
        cases move <;> cases excluded <;> rfl
      rw [stays]
      exact ⟨Outcome.missed_ne_found, .without excluded⟩
    · cases move with
      | next =>
          rw [Move.make, next_begun]
          exact over_of_spent (exhausts_spent.move .next spent) excluded
      | seek t =>
          have missed := exhausts_spent.move (.seek t) spent
          cases excluded with
          -- Nothing is left to be excluded: the answer is passed on, and the side is not given up.
          | none =>
              rw [Move.make, seek_begun_none]
              exact ⟨missed.1, .withSpent missed.2 none⟩
          | some excluded =>
              rw [Move.make, seek_begun_some]
              exact over_of_spent missed (some excluded)
  score := by
    rintro _ (excluded | ⟨spent, excluded⟩)
    · exact .without excluded
    · exact .withSpent (exhausts_spent.score spent) excluded

omit [Cursor ρ] [Cursor ε] in
/-- The start keeps the required side. -/
theorem state_start (c : Exclusion ρ ε) (move : ε → Outcome ε Bool) :
    ∃ excluded, (c.start move).state = begun c.required excluded := by
  rw [start]
  split
  · exact Outcome.state_bind (fun c' => ∃ excluded, c' = begun c.required excluded)
      ⟨_, rfl⟩ fun _ _ => ⟨_, rfl⟩
  · exact ⟨_, rfl⟩

instance [Conclusive ρ] : Conclusive (Exclusion ρ ε) where
  next c ended := by
    obtain ⟨-, -, ended, state⟩ := Outcome.answered_of_bind ended
    rw [show (Cursor.next c).state = _ from state]
    obtain ⟨excluded, begun⟩ := c.state_start _
    rw [begun] at ended ⊢
    refine ⟨_, exhausts_over, ?_⟩
    cases required : c.required with
    | none => exact .without excluded
    | some r =>
        rw [required] at ended
        exact over_of_follow ended
  seek c t ended := by
    obtain ⟨-, -, ended, state⟩ := Outcome.answered_of_bind ended
    rw [show (Cursor.seek c t).state = _ from state]
    obtain ⟨excluded, begun⟩ := c.state_start _
    rw [begun] at ended ⊢
    refine ⟨_, exhausts_over, ?_⟩
    cases required : c.required with
    | none => exact .without excluded
    | some r =>
        rw [required] at ended
        cases excluded with
        | none => exact .withSpent (Conclusive.seek r t ended) none
        | some excluded => exact over_of_follow ended

end Exclusion

namespace Bonus

variable {ρ ο : Type} [Cursor ρ] [Cursor ο]

theorem exhausts_required : Exhausts fun c : Bonus ρ ο => Spent c.required where
  move
    | .next, spent => exhausts_spent.move .next spent
    | .seek t, spent => exhausts_spent.move (.seek t) spent
  score := fun spent => by
    rw [required_score]
    exact exhausts_spent.score spent

instance [Conclusive ρ] : Conclusive (Bonus ρ ο) where
  next c ended := ⟨_, exhausts_required, Conclusive.next c.required ended⟩
  seek c t ended := ⟨_, exhausts_required, Conclusive.seek c.required t ended⟩

end Bonus

namespace Counted

variable {σ : Type} [Cursor σ] [Conclusive σ]

instance : Conclusive (ClauseGroup σ) where
  next
    | .one _, ended => embeds_one.spent_of_ended .next ended
    | .all _ size, ended => (embeds_all size).spent_of_ended .next ended
    | .atLeast _, ended => embeds_atLeast.spent_of_ended .next ended
  seek
    | .one _, t, ended => embeds_one.spent_of_ended (.seek t) ended
    | .all _ size, t, ended => (embeds_all size).spent_of_ended (.seek t) ended
    | .atLeast _, t, ended => embeds_atLeast.spent_of_ended (.seek t) ended

omit [Conclusive σ] in
theorem exhausts_group : Exhausts fun c : Counted σ => Spent c.group where
  move
    | .next, spent => exhausts_spent.move .next spent
    | .seek t, spent => exhausts_spent.move (.seek t) spent
  score := fun spent => exhausts_spent.score spent

instance : Conclusive (Counted σ) where
  next c ended := ⟨_, exhausts_group, Conclusive.next c.group ended⟩
  seek c t ended := ⟨_, exhausts_group, Conclusive.seek c.group t ended⟩

end Counted

namespace BooleanCursor

open Boolean

variable {σ : Type} [Cursor σ] {c : BooleanCursor σ}

/-- A search whose composition has run out for good. -/
def IsOver (c : BooleanCursor σ) : Prop :=
  ∃ composition, c.stage = .composed composition ∧ Spent composition

theorem exhausts_isOver : Exhausts (IsOver (σ := σ)) where
  move := by
    rintro c move ⟨composition, composed, spent⟩
    have missed := exhausts_spent.move move spent
    cases move with
    | next =>
        rw [Move.make, next_composed composed]
        exact ⟨missed.1, _, rfl, missed.2⟩
    | seek t =>
        by_cases nonneg : 0 ≤ t
        · rw [Move.make, seek_composed composed nonneg]
          exact ⟨missed.1, _, rfl, missed.2⟩
        · have refused : Cursor.seek c t = .fail c (.negativeTarget t) :=
            if_pos (Int32.not_le.mp nonneg)
          rw [Move.make, refused]
          exact ⟨Outcome.error_ne_ok, composition, composed, spent⟩
  score := by
    rintro c ⟨composition, composed, spent⟩
    show (c.score).state.IsOver
    rw [score, compose_composed composed, Outcome.andThen_done]
    refine Outcome.state_bind _ ?_ fun _ _ => ?_ <;>
      exact ⟨_, rfl, exhausts_spent.score spent⟩

/-- A search that has answered a move has composed its clauses, and it has run out with them. -/
theorem isOver_of_ended [Conclusive σ] (move : Move) (ended : (move.make c).answer = .ok false) :
    (move.make c).state.IsOver := by
  cases move with
  | next =>
      change (c.next).answer = _ at ended
      obtain ⟨composition, -, ended, state⟩ := Outcome.answered_of_bind ended
      rw [show (Move.next.make c).state = _ from state]
      exact ⟨_, rfl, Conclusive.next composition ended⟩
  | seek t =>
      change (c.seek t).answer = _ at ended
      show (c.seek t).state.IsOver
      rw [seek] at ended ⊢
      by_cases negative : t < 0
      · rw [if_pos negative] at ended
        exact absurd ended Outcome.error_ne_ok
      · rw [if_neg negative] at ended ⊢
        obtain ⟨composition, -, ended, state⟩ := Outcome.answered_of_bind ended
        rw [Outcome.andThen, state]
        exact ⟨_, rfl, Conclusive.seek composition t ended⟩

/-- The clauses of a search that has run out are fixed. -/
theorem IsOver.add_ne_ok (h : c.IsOver) (role : Role) (clause : σ) (c' : BooleanCursor σ) :
    c.add role clause ≠ .ok c' := by
  obtain ⟨composition, composed, -⟩ := h
  rw [add, composed]
  exact Outcome.error_ne_ok

instance [Conclusive σ] : Conclusive (BooleanCursor σ) where
  next _ ended := ⟨_, exhausts_isOver, isOver_of_ended .next ended⟩
  seek _ t ended := ⟨_, exhausts_isOver, isOver_of_ended (.seek t) ended⟩

end BooleanCursor

end Retrieval
