import Retrieval.Proofs.Finality
import Retrieval.Proofs.Nested

/-!
# Calls in any order

Whatever is asked of a query's cursor, it is in one of three phases: it has not been moved; the last
move has found a document, on which it stands as it has promised; or a move has ended without one,
and none will find any more. As long as it has not run out every move is answered, and on a document
so is every request for its score, with the same score each time.
-/

namespace Retrieval

namespace Cursor

/-- A move to the next document, or to a target that is not negative. -/
def Move.Admissible : Move → Prop
  | next => True
  | seek target => 0 ≤ target

variable {σ : Type} [Cursor σ]

/-- The cursors that calls can lead to from a fresh one, each with the answer of the last move.
Scores may be asked for at any time, and calls may go on after the last document and after failures.
-/
inductive Calls (fresh : σ) : Option (Except Failure Bool) → σ → Prop
  | start : Calls fresh none fresh
  | move {last : Option (Except Failure Bool)} {c : σ} (calls : Calls fresh last c) (move : Move)
      (admissible : move.Admissible) : Calls fresh (some (move.make c).answer) (move.make c).state
  | score {last : Option (Except Failure Bool)} {c : σ} (calls : Calls fresh last c) :
      Calls fresh last (afterScore c)

variable {P : Prospect} {stands : Set DocId → DocId → Option Score → σ → Prop}
variable {unmoved : σ → Prop} {last : Option (Except Failure Bool)} {fresh c : σ}

/-- Where an answered move leads: to a document, on which the cursor stands, or to the end. -/
inductive Leads (stands : Set DocId → DocId → Option Score → σ → Prop) (o : Outcome σ Bool) : Prop
  | found {D : Set DocId} {d : DocId} {v : Option Score} {c : σ} (eq : o = .done c true)
      (stood : stands D d v c)
  | missed {c : σ} (eq : o = .done c false)

omit [Cursor σ] in
theorem Leads.answer_eq_ok {o : Outcome σ Bool} (leads : Leads stands o) :
    ∃ found, o.answer = .ok found := by
  cases leads with
  | found eq _ => exact ⟨true, by rw [eq]; rfl⟩
  | missed eq => exact ⟨false, by rw [eq]; rfl⟩

theorem Leads.of_finds {W D : Set DocId} {m : Nat} {o : Outcome σ Bool}
    (finds : o.Finds W fun d c => stands D d none c ∧ movesLeft c < m) : Leads stands o := by
  cases finds with
  | found d c eq _ stood => exact .found eq stood.1
  | missed c eq _ => exact .missed eq

theorem Starts.leads {move : Move} (starts : Starts P stands c) (admissible : move.Admissible) :
    Leads stands (move.make c) := by
  cases move with
  | next => exact .of_finds starts.next
  | seek t => exact .of_finds (starts.seek admissible)

/-- From a document, a target may lie ahead or not. -/
theorem Faithful.leads {D : Set DocId} {d : DocId} {v : Option Score} {move : Move}
    (kept : Faithful P D (stands D)) (stood : stands D d v c) (admissible : move.Admissible) :
    Leads stands (move.make c) := by
  cases move with
  | next => exact .of_finds (kept.next stood)
  | seek t =>
      obtain later | back := Int32.lt_or_le d t
      · exact .of_finds (kept.ahead stood later)
      by_cases holds : d ∈ P.holds
      · obtain ⟨c', eq, stood', -⟩ := kept.held stood admissible back holds
        exact .found eq stood'
      · obtain ⟨c', eq⟩ := kept.lost stood admissible back holds
        exact .missed eq

/-- The phase that a cursor is in, by the answer of the last move. -/
inductive Phase (stands : Set DocId → DocId → Option Score → σ → Prop) (unmoved : σ → Prop) :
    Option (Except Failure Bool) → σ → Prop
  | before {c : σ} (rests : unmoved c) : Phase stands unmoved none c
  | on {D : Set DocId} {d : DocId} {v : Option Score} {c : σ} (stood : stands D d v c) :
      Phase stands unmoved (some (.ok true)) c
  | ended {answer : Except Failure Bool} {c : σ} (missed : answer ≠ .ok true) (spent : Spent c) :
      Phase stands unmoved (some answer) c

/-- The last move has found a document. -/
theorem Phase.stood (phase : Phase stands unmoved (some (.ok true)) c) :
    ∃ D d v, stands D d v c := by
  cases phase with
  | on stood => exact ⟨_, _, _, stood⟩
  | ended missed _ => exact absurd rfl missed

theorem Phase.of_leads [Conclusive σ] {move : Move} (leads : Leads stands (move.make c)) :
    Phase stands unmoved (some (move.make c).answer) (move.make c).state := by
  cases leads with
  | found eq stood =>
      rw [eq]
      exact .on stood
  | missed eq =>
      have ended : (move.make c).answer = .ok false := by rw [eq]; rfl
      refine .ended ?_ (spent_of_ended move ended)
      rw [ended]
      exact Outcome.missed_ne_found

/-- A cursor that has not run out answers any move. -/
theorem Phase.leads (resting : Resting P stands unmoved) (kept : ∀ D, Faithful P D (stands D))
    (phase : Phase stands unmoved last c) (going : last = none ∨ last = some (.ok true))
    {move : Move} (admissible : move.Admissible) : Leads stands (move.make c) := by
  cases phase with
  | before rests => exact (resting.starts rests).leads admissible
  | on stood => exact (kept _).leads stood admissible
  | ended missed _ =>
      obtain none | found := going
      · nomatch none
      · exact absurd (Option.some.inj found) missed

theorem Phase.move [Conclusive σ] (resting : Resting P stands unmoved)
    (kept : ∀ D, Faithful P D (stands D)) (phase : Phase stands unmoved last c) {move : Move}
    (admissible : move.Admissible) :
    Phase stands unmoved (some (move.make c).answer) (move.make c).state := by
  cases phase with
  | before rests => exact .of_leads ((resting.starts rests).leads admissible)
  | on stood => exact .of_leads ((kept _).leads stood admissible)
  | ended missed spent =>
      obtain ⟨missed', spent'⟩ := exhausts_spent.move move spent
      exact .ended missed' spent'

theorem Phase.score (resting : Resting P stands unmoved) (kept : ∀ D, Faithful P D (stands D))
    (phase : Phase stands unmoved last c) : Phase stands unmoved last (afterScore c) := by
  cases phase with
  | before rests => exact .before (resting.score rests)
  | on stood =>
      obtain ⟨w, -, stood', -⟩ := (kept _).afterScore stood
      exact .on stood'
  | ended missed spent => exact .ended missed (exhausts_spent.score spent)

/-- Calls in any order lead from phase to phase. -/
theorem Calls.phase [Conclusive σ] (resting : Resting P stands unmoved)
    (kept : ∀ D, Faithful P D (stands D)) (rests : unmoved fresh) (calls : Calls fresh last c) :
    Phase stands unmoved last c := by
  induction calls with
  | start => exact .before rests
  | move _ _ admissible ih => exact ih.move resting kept admissible
  | score _ ih => exact ih.score resting kept

end Cursor

open Cursor

namespace Query

variable {height : Nat}

/-- A query's cursor that has not run out answers any move, and on a document any request for its
score, whatever the calls before were. -/
theorem calls_answer (q : Query height) : ∃ fresh, q.cursor = .ok fresh ∧
    ∀ {last c}, Calls fresh last c → last = none ∨ last = some (.ok true) →
      (∃ found, (Cursor.next c).answer = .ok found) ∧
      (∀ t, 0 ≤ t → ∃ found, (Cursor.seek c t).answer = .ok found) ∧
      (last = some (.ok true) → ∃ v, (Cursor.score c).answer = .ok v) := by
  obtain ⟨fresh, made, idle⟩ := q.exists_cursor
  refine ⟨fresh, made, fun {last c} calls going => ?_⟩
  have phase : Phase (Stands q.prospect) (Rests q.prospect) last c :=
    calls.phase resting_rests (fun _ => faithful_stands) idle.rests
  have answers := fun (move : Move) (admissible : move.Admissible) =>
    (phase.leads resting_rests (fun _ => faithful_stands) going admissible).answer_eq_ok
  refine ⟨answers .next trivial, fun t => answers (.seek t), ?_⟩
  rintro rfl
  obtain ⟨D, d, v, stood⟩ := phase.stood
  obtain ⟨w, given, -⟩ := faithful_stands.afterScore stood
  exact ⟨w, given⟩

/-- A query in which one of two terms is required and one of them adds to the scores. -/
def layers : BooleanQuery (Query 2) where
  rules := {}
  rule := .fraction
  clauses := [
    (.required, .boolean {
      rules := { minOptional := 1 }
      rule := .fraction
      clauses := [
        (.optional, .term ⟨"both", ⟨#[⟨2, 1⟩, ⟨7, 1⟩], by decide, by decide⟩, 1⟩),
        (.optional, .term ⟨"late", ⟨#[⟨7, 1⟩], by decide, by decide⟩, 1⟩)]
      usable := usable_default
      bounded := by decide }),
    (.optional, .term ⟨"late", ⟨#[⟨7, 1⟩], by decide, by decide⟩, 1⟩)]
  usable := usable_default
  bounded := by decide

def layered : Query 3 := .boolean layers

/-- Asked for a score too early, then moved to the first document, and then sent back. -/
theorem calls_answer_layered : ∃ fresh c, layered.cursor = .ok fresh ∧
    Calls fresh (some (.ok true)) c ∧ (∃ found, (Cursor.seek c 0).answer = .ok found) ∧
      ∃ v, (Cursor.score c).answer = .ok v := by
  obtain ⟨fresh, made, answers⟩ := calls_answer layered
  have moved : layered.cursor.map (fun fresh =>
      (Cursor.next (afterScore fresh)).answer) = .ok (.ok true) := by
    decide +kernel
  rw [made] at moved
  have found : (Move.next.make (afterScore fresh)).answer = .ok true := Except.ok.inj moved
  have calls : Calls fresh (some (Move.next.make (afterScore fresh)).answer) _ :=
    Calls.start.score.move .next trivial
  rw [found] at calls
  obtain ⟨-, seeks, scores⟩ := answers calls (.inr rfl)
  exact ⟨fresh, _, made, calls, seeks 0 (by decide), scores rfl⟩

end Query

namespace BooleanCursor

variable {σ : Type} [Cursor σ] {P : Prospect} {D : Set DocId} {rule : CoordRule} {total : Nat}
variable {d : DocId} {v : Score} {c : BooleanCursor σ}

/-- A document that has been scored can be scored again any number of times. -/
theorem Standing.repeats (bounded : ∀ d s n, P.scores d s n → n ≤ total)
    (h : Standing P D rule total d (some v) c) (k : Nat) :
    Standing P D rule total d (some v) (afterScore^[k] c) ∧
      (afterScore^[k] c).matched = c.matched := by
  induction k generalizing c with
  | zero => exact ⟨h, rfl⟩
  | succ k ih =>
      obtain ⟨c', eq, stood, matched, -⟩ := h.again bounded
      have same : afterScore c = c' := congrArg Outcome.state eq
      rw [Function.iterate_succ_apply, same]
      exact ⟨(ih stood).1, (ih stood).2.trans matched⟩

end BooleanCursor

namespace BooleanQuery

variable {height : Nat}

/-- On a document that a search has been moved to, whatever the calls before were, asking for the
score again gives the same score, and the document and the number of clauses counted stay the same.
-/
theorem score_repeats (q : BooleanQuery (Query height)) : ∃ search,
    q.cursor Query.cursor = .ok search ∧ ∀ {c}, Calls search (some (.ok true)) c →
      ∃ v, ∀ k, (Cursor.score (afterScore^[k] c)).answer = .ok v ∧
        (afterScore^[k + 1] c).matched = (afterScore c).matched ∧
        Cursor.doc (afterScore^[k + 1] c) = Cursor.doc c := by
  obtain ⟨added, search, built, made, idle⟩ :=
    BooleanQuery.exists_build (q := q) Query.exists_cursor
  have silent : ∀ x ∈ q.clauses.map fun x => (x.1, x.2.prospect), x.2.Silent :=
    List.forall_mem_map.mpr fun x _ => x.2.silent_prospect
  have bounded := Prospect.scores_ofRoles_le q.rules silent Set.univ
  have kept : ∀ D, Faithful _ D (BooleanCursor.Standing (σ := Tree height) _ D q.rule _) :=
    fun _ => BooleanCursor.faithful_standing bounded
  refine ⟨search, made, fun {c} calls => ?_⟩
  have phase := calls.phase BooleanCursor.resting_atRest kept
    (BooleanCursor.atRest_build silent idle built)
  obtain ⟨D, d, _, stood⟩ := phase.stood
  obtain ⟨v, given, stood', -⟩ := (kept D).afterScore stood
  have place : Cursor.doc c = d := (kept D).doc stood
  refine ⟨v, fun k => ?_⟩
  obtain ⟨again, matched⟩ := stood'.repeats bounded k
  rw [← Function.iterate_succ_apply] at again matched
  refine ⟨?_, matched, ((kept D).doc again).trans place.symm⟩
  cases k with
  | zero => exact given
  | succ k =>
      obtain ⟨before, -⟩ := stood'.repeats bounded k
      obtain ⟨c', eq, -⟩ := before.again bounded
      rw [← Function.iterate_succ_apply] at eq
      rw [eq]
      rfl

/-- After a score asked for too early, and a seek past the first document. -/
theorem score_repeats_layers : ∃ search c, Query.layers.cursor Query.cursor = .ok search ∧
    Calls search (some (.ok true)) c ∧
      ∃ v, ∀ k, (Cursor.score (afterScore^[k] c)).answer = .ok v ∧
        (afterScore^[k + 1] c).matched = (afterScore c).matched ∧
        Cursor.doc (afterScore^[k + 1] c) = Cursor.doc c := by
  obtain ⟨search, made, repeats⟩ := score_repeats Query.layers
  have moved : (Query.layers.cursor Query.cursor).map (fun search =>
      (Cursor.seek (Cursor.next (afterScore search)).state 7).answer) = .ok (.ok true) := by
    decide +kernel
  rw [made] at moved
  have found : ((Move.seek 7).make (Move.next.make (afterScore search)).state).answer = .ok true :=
    Except.ok.inj moved
  have nonneg : (Move.seek 7).Admissible := show (0 : DocId) ≤ 7 by decide
  have calls : Calls search
      (some ((Move.seek 7).make (Move.next.make (afterScore search)).state).answer) _ :=
    (Calls.start.score.move .next trivial).move (.seek 7) nonneg
  rw [found] at calls
  exact ⟨search, _, made, calls, repeats calls⟩

end BooleanQuery

end Retrieval
