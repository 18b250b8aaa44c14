import Mathlib.Logic.Relation
import Retrieval.Proofs.Exhaustion
import Retrieval.Proofs.Nested

/-!
# No document is found after the last one

Whatever cursors are nested in each other, whatever has been done to them and whichever calls have
failed: once a move of the whole has answered that there is no document left, no later one finds
any, nor does a search take in further clauses. Faults may be planned for any part and any call.
-/

namespace Retrieval

open Cursor Relation

namespace Faulty

variable {σ : Type} [Cursor σ]

omit [Cursor σ] in
/-- A fault keeps the call from the cursor below. -/
theorem attempt_cases {α : Type} (c : Faulty σ) (fault : Option Failure.Report)
    (call : σ → Outcome σ α) :
    (∃ report, c.attempt fault call = .fail c (.reported report)) ∨
      c.attempt fault call = (call c.cursor).within fun cursor => { c with cursor } := by
  cases fault with
  | some report => exact .inl ⟨report, rfl⟩
  | none => exact .inr rfl

/-- A move that may fail leaves a cursor that has run out as one that has. -/
theorem attempt_spent {c : Faulty σ} (fault : Option Failure.Report) (call : σ → Outcome σ Bool)
    (spent : Spent c.cursor)
    (missed : (call c.cursor).answer ≠ .ok true ∧ Spent (call c.cursor).state) :
    (c.attempt fault call).answer ≠ .ok true ∧ Spent (c.attempt fault call).state.cursor := by
  obtain ⟨report, faulted⟩ | passed := c.attempt_cases fault call
  · rw [faulted]
    exact ⟨Outcome.error_ne_ok, spent⟩
  · rw [passed]
    exact missed

theorem exhausts_cursor : Exhausts fun c : Faulty σ => Spent c.cursor where
  move
    | .next, spent => attempt_spent _ Cursor.next spent (exhausts_spent.move .next spent)
    | .seek t, spent =>
        attempt_spent _ (Cursor.seek · t) spent (exhausts_spent.move (.seek t) spent)
  score := fun {c} spent => by
    obtain ⟨report, faulted⟩ | passed :=
      { c with scores := c.scores + 1 }.attempt_cases (c.plan.score (c.scores + 1)) Cursor.score
    · rw [show Cursor.score c = _ from faulted]
      exact spent
    · rw [show Cursor.score c = _ from passed]
      exact exhausts_spent.score spent

/-- A move that answers has reached the cursor below. -/
theorem spent_of_attempt {c : Faulty σ} {call : σ → Outcome σ Bool} {fault : Option Failure.Report}
    (ended : (c.attempt fault call).answer = .ok false)
    (spent : (call c.cursor).answer = .ok false → Spent (call c.cursor).state) :
    Spent (c.attempt fault call).state := by
  refine ⟨_, exhausts_cursor, ?_⟩
  obtain ⟨report, faulted⟩ | passed := c.attempt_cases fault call
  · rw [faulted] at ended
    exact absurd ended Outcome.error_ne_ok
  · rw [passed] at ended ⊢
    exact spent ended

instance [Conclusive σ] : Conclusive (Faulty σ) where
  next c ended := spent_of_attempt ended (Conclusive.next c.cursor)
  seek c t ended := spent_of_attempt ended (Conclusive.seek c.cursor t)

end Faulty

namespace Node

variable {σ : Type} [Cursor σ]

theorem embeds_nothing : Embeds (Node.nothing : Nothing → Node σ) :=
  ⟨fun _ => rfl, fun _ => rfl, fun _ _ => rfl, fun _ => rfl, fun _ => rfl⟩

theorem embeds_conjunction : Embeds (Node.conjunction : Conjunction σ → Node σ) :=
  ⟨fun _ => rfl, fun _ => rfl, fun _ _ => rfl, fun _ => rfl, fun _ => rfl⟩

theorem embeds_threshold : Embeds (Node.threshold : Threshold σ → Node σ) :=
  ⟨fun _ => rfl, fun _ => rfl, fun _ _ => rfl, fun _ => rfl, fun _ => rfl⟩

theorem embeds_exclusion : Embeds (Node.exclusion : Exclusion σ σ → Node σ) :=
  ⟨fun _ => rfl, fun _ => rfl, fun _ _ => rfl, fun _ => rfl, fun _ => rfl⟩

theorem embeds_bonus : Embeds (Node.bonus : Bonus σ σ → Node σ) :=
  ⟨fun _ => rfl, fun _ => rfl, fun _ _ => rfl, fun _ => rfl, fun _ => rfl⟩

theorem embeds_counted : Embeds (Node.counted : Counted σ → Node σ) :=
  ⟨fun _ => rfl, fun _ => rfl, fun _ _ => rfl, fun _ => rfl, fun _ => rfl⟩

theorem embeds_faulty : Embeds (Node.faulty : Faulty σ → Node σ) :=
  ⟨fun _ => rfl, fun _ => rfl, fun _ _ => rfl, fun _ => rfl, fun _ => rfl⟩

theorem spent_of_ended [Conclusive σ] (move : Move) {n : Node σ}
    (ended : (move.make n).answer = .ok false) : Spent (move.make n).state := by
  cases n with
  | posting c => exact embeds_posting.spent_of_ended move ended
  | nothing c => exact embeds_nothing.spent_of_ended move ended
  | conjunction c => exact embeds_conjunction.spent_of_ended move ended
  | threshold c => exact embeds_threshold.spent_of_ended move ended
  | exclusion c => exact embeds_exclusion.spent_of_ended move ended
  | bonus c => exact embeds_bonus.spent_of_ended move ended
  | counted c => exact embeds_counted.spent_of_ended move ended
  | boolean c => exact embeds_boolean.spent_of_ended move ended
  | faulty c => exact embeds_faulty.spent_of_ended move ended

instance [Conclusive σ] : Conclusive (Node σ) where
  next _ ended := spent_of_ended .next ended
  seek _ t ended := spent_of_ended (.seek t) ended

/-- What a call makes of a cursor. A clause can be added to a boolean search only. -/
inductive Call : Node σ → Node σ → Prop
  | move (n : Node σ) (move : Move) : Call n (move.make n).state
  | score (n : Node σ) : Call n (Cursor.score n).state
  | add {c c' : BooleanCursor σ} {role : Role} {clause : σ} (added : c.add role clause = .ok c') :
      Call (.boolean c) (.boolean c')

/-- A cursor that has run out for good, also if it could be given further clauses. -/
structure IsOver (n : Node σ) : Prop where
  spent : Spent n
  fixed : ∀ c, n = .boolean c → c.IsOver

/-- No move turns a cursor of another kind into a boolean search. -/
theorem eq_boolean_of_make {n : Node σ} {move : Move} {c' : BooleanCursor σ}
    (eq : (move.make n).state = .boolean c') :
    ∃ c, n = .boolean c ∧ (move.make c).state = c' := by
  cases n with
  | boolean c =>
      rw [embeds_boolean.make] at eq
      exact ⟨c, rfl, boolean.inj eq⟩
  | _ => cases move <;> nomatch eq

theorem isOver_of_ended [Conclusive σ] (move : Move) {n : Node σ}
    (ended : (move.make n).answer = .ok false) : (move.make n).state.IsOver := by
  refine ⟨spent_of_ended move ended, fun c' eq => ?_⟩
  obtain ⟨c, rfl, rfl⟩ := eq_boolean_of_make eq
  rw [embeds_boolean.make] at ended
  exact BooleanCursor.isOver_of_ended move ended

theorem IsOver.call {n m : Node σ} (h : n.IsOver) (call : Call n m) : m.IsOver := by
  cases call with
  | move _ move =>
      refine ⟨(exhausts_spent.move move h.spent).2, fun c' eq => ?_⟩
      obtain ⟨c, rfl, rfl⟩ := eq_boolean_of_make eq
      exact (BooleanCursor.exhausts_isOver.move move (h.fixed c rfl)).2
  | score =>
      refine ⟨exhausts_spent.score h.spent, fun c' eq => ?_⟩
      cases n with
      | boolean c =>
          obtain rfl : (Cursor.score c).state = c' := boolean.inj eq
          exact BooleanCursor.exhausts_isOver.score (h.fixed c rfl)
      | _ => nomatch eq
  | add added => exact absurd added ((h.fixed _ rfl).add_ne_ok _ _ _)

end Node

namespace Tree

instance instConclusive : (height : Nat) → Conclusive (Tree height)
  | 0 => inferInstanceAs (Conclusive Empty)
  | height + 1 =>
    have := instConclusive height
    inferInstanceAs (Conclusive (Node (Tree height)))

variable {height : Nat} {n m : Node (Tree height)} {move : Move}

/-- Once a move of a tree of cursors, in whatever state it was, has answered that there is no
document left, no later move finds one. -/
theorem no_document_after_end (ended : (move.make n).answer = .ok false)
    (later : ReflTransGen Node.Call (move.make n).state m) (move' : Move) :
    (move'.make m).answer ≠ .ok true := by
  -- Calls may also add clauses, of which `Spent` says nothing; hence the stronger invariant.
  have ended' : m.IsOver := by
    induction later with
    | refl => exact Node.isOver_of_ended move ended
    | tail _ call ih => exact ih.call call
  exact (exhausts_spent.move move' ended'.spent).1

/-- All documents of one list that are not in another, where the first move of the latter fails. -/
def hampered : Node (Tree 2) :=
  .exclusion <| .ofParts (.posting (.ofDocs [1] 1)) <| .faulty
    { cursor := .posting (.ofDocs [1] 1)
      plan :=
        { next := fun k => if k = 1 then some ⟨.other, "unavailable"⟩ else none
          seek := fun _ => none
          score := fun _ => none } }

/-- After the failure the search goes on, and ends for good without a document. -/
theorem no_document_after_end_hampered : ∃ n m : Node (Tree 2),
    (Move.next.make hampered).answer = .error (.reported ⟨.other, "unavailable"⟩) ∧
      (Move.next.make hampered).state = n ∧ (Move.next.make n).answer = .ok false ∧
      ReflTransGen Node.Call (Move.next.make n).state m ∧
      ((Move.seek 1).make m).answer ≠ .ok true := by
  have failed : (Move.next.make hampered).answer = .error (.reported ⟨.other, "unavailable"⟩) := by
    decide +kernel
  have ended : (Move.next.make (Move.next.make hampered).state).answer = .ok false := by
    decide +kernel
  have later := ReflTransGen.single <|
    Node.Call.score (Move.next.make (Move.next.make hampered).state).state
  exact ⟨_, _, failed, rfl, ended, later, no_document_after_end ended later (.seek 1)⟩

end Tree

end Retrieval
