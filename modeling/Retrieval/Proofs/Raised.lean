import Retrieval.Proofs.AnyOf
import Retrieval.Proofs.Exhaustion
import Retrieval.Proofs.Soundness

/-!
# Scores raised by other terms

The optional side of a bonus is moved only when a document is scored. So it lags behind the required
side by as much as documents are left unscored; but where the required side is, and what it answers,
does not depend on it, and the score that it adds to a document is the same wherever it comes from.
-/

namespace Retrieval

open Cursor Prospect

namespace Cursor

variable {σ : Type} [Cursor σ]

/-- What some moves answer if the score is asked for so many times after each of them, and where the
cursor stands after each move. -/
def answersScored (c : σ) : List (Move × Nat) → List (Except Failure Bool × DocId)
  | [] => []
  | (move, k) :: moves =>
    ((move.make c).answer, Cursor.doc (move.make c).state) ::
      answersScored (afterScore^[k] (move.make c).state) moves

end Cursor

/-- The score that terms make of `v` on a document: if any of them has the document, the sum of the
scores of all those is added to `v`. -/
def TermQuery.Raises (qs : List TermQuery) (d : DocId) (v w : Score) : Prop :=
  if qs.any (·.isMatch d) then ∃ o, AddsUp (qs.filterMap (·.score? d)) o ∧ w = v + o else w = v

theorem Prospect.Prompt.withBonus {P : Prospect} (prompt : P.Prompt) (O : Prospect)
    (T : Set DocId) : (P.withBonus O T).Prompt :=
  prompt

namespace Bonus

section Alone

variable {ο : Type} [Cursor ο] (c : Bonus PostingCursor ο)

theorem required_make (move : Move) :
    (move.make c).answer = (move.make c.required).answer ∧
      (move.make c).state.required = (move.make c.required).state := by
  cases move with
  | next => exact ⟨rfl, rfl⟩
  | seek t => exact ⟨rfl, rfl⟩

theorem required_afterScore : (afterScore c).required = c.required :=
  (required_score c).trans c.required.state_score

theorem required_afterScores (k : Nat) : (afterScore^[k] c).required = c.required := by
  induction k generalizing c with
  | zero => rfl
  | succ k ih => rw [Function.iterate_succ_apply, ih, required_afterScore]

/-- Whatever is scored, the answers and the places are those of the required side alone. -/
theorem answersScored_eq (moves : List (Move × Nat)) :
    answersScored c moves = answers c.required (moves.map Prod.fst) := by
  induction moves generalizing c with
  | nil => rfl
  | cons step moves ih =>
      obtain ⟨answer, state⟩ := required_make c step.1
      have rest := ih (afterScore^[step.2] (step.1.make c).state)
      rw [required_afterScores, state] at rest
      rw [List.map_cons, answers, answersScored, rest, answer]
      exact congrArg (fun place => (_, place) :: _) (congrArg Cursor.doc state)

end Alone

section Scores

variable {ρ ο : Type} [Cursor ρ] [Cursor ο] {P O : Prospect} {c : Bonus ρ ο}

/-- If the required side leaves out no document when it is started by a seek, a bonus that has not
been scored waits on its first document, however it is started. -/
theorem AtRest.starts_waiting (prompt : P.Prompt) (h : AtRest P O c) :
    Starts (P.withBonus O Set.univ) (fun _ => Standing P O P.docs Set.univ) c := by
  have starts := h.required.begins.prompt prompt
  constructor
  case next =>
    refine starts.next.within fun d _ least stood => ⟨.waiting stood.1 ?_ rfl, ?_⟩
    · exact h.reserve (.inl least.1)
    · exact Nat.add_lt_add_right stood.2 _
  case seek =>
    intro t nonneg
    refine (starts.seek nonneg).within fun d _ least stood => ⟨.waiting stood.1 ?_ rfl, ?_⟩
    · exact h.reserve (.inr ⟨t, least.1⟩)
    · exact Nat.add_lt_add_right stood.2 _

end Scores

variable {required : TermQuery} {optional : List TermQuery}

theorem doc_of_required {ο : Type} [Cursor ο] {c : Bonus PostingCursor ο}
    (same : c.required = required.cursor) : Cursor.doc c = .beforeFirst := by
  show Cursor.doc c.required = _
  rw [same]
  exact required.idle_cursor.doc

/-- A bonus of terms rests with its required side where it started. -/
theorem resting_terms {ο : Type} [Cursor ο] (required : TermQuery) (O : Prospect) :
    Resting (required.prospect.withBonus O Set.univ)
      (OnCourse (required.prospect.withBonus O Set.univ)
        (Standing (ο := ο) required.prospect O required.prospect.docs Set.univ))
      fun c => AtRest required.prospect O c ∧ c.required = required.cursor where
  starts := fun ⟨rest, _⟩ => by
    have prompt := required.steady_prospect.prompt
    exact (rest.starts_waiting prompt).onCourse (prompt.withBonus O Set.univ)
  doc := fun ⟨_, same⟩ _ => doc_of_required same
  score := fun {c} ⟨rest, same⟩ => ⟨rest.score, c.required_afterScore.trans same⟩

/-- Which documents have been scored before does not matter to a score. -/
theorem raises_of_scores {d : DocId} {v : Score} {n : Nat} {T : Set DocId}
    (scored : (required.prospect.withBonus (Prospect.anyOf (optional.map TermQuery.prospect))
      T).scores d v n) :
    ∃ r, required.score? d = some r ∧ TermQuery.Raises optional d r v := by
  obtain ⟨t, -, passed, r, m, given, added⟩ := scored
  obtain rfl := required.silent_prospect d r m given
  refine ⟨r, TermQuery.scores_prospect.mp given, ?_⟩
  rw [TermQuery.prompt_anyOf optional t, Set.mem_inter_iff, TermQuery.mem_docs_anyOf,
    and_iff_left (show d ∈ since t from passed)] at added
  rw [TermQuery.Raises]
  obtain ⟨isMatch, o, k, given', rfl, -⟩ | ⟨noMatch, rfl, -⟩ := added
  · rw [if_pos isMatch]
    exact ⟨o, TermQuery.addsUp_of_anyOf given', rfl⟩
  · rw [if_neg noMatch]

/-- A bonus of terms goes through the documents of the required one, whatever the calls are, with
the answers that the required one gives alone. The score on a document is that of the required term,
raised by the others as far as they have the document. -/
theorem traverses_required (required : TermQuery) {optional : List TermQuery}
    (nonempty : optional ≠ []) :
    ∃ o, TermQuery.anyOf optional = .ok o ∧
      (∀ moves, answersScored (ofParts required.cursor o) moves =
        answers required.cursor (moves.map Prod.fst)) ∧
      ∀ {last c}, Calls (ofParts required.cursor o) last c →
        last = none ∨ last = some (.ok true) →
          Traverses {d | required.isMatch d = true}
            (fun d v => ∃ r, required.score? d = some r ∧ TermQuery.Raises optional d r v)
            last c := by
  obtain ⟨o, made, begins, braced⟩ := TermQuery.exists_anyOf nonempty
  refine ⟨o, made, answersScored_eq _, fun {last c} calls going => ?_⟩
  have prompt := required.steady_prospect.prompt.withBonus
    (Prospect.anyOf (optional.map TermQuery.prospect)) Set.univ
  have rest := atRest_ofParts required.idle_cursor.rests begins braced
  have resting := resting_terms (ο := PostingCursor ⊕ Threshold PostingCursor) required
    (Prospect.anyOf (optional.map TermQuery.prospect))
  have traverses := calls.traverses faithful_standing prompt resting
    (fun unmoved => doc_of_required unmoved.2) ⟨rest, rfl⟩ going
  have docs : {d | required.isMatch d = true} = required.prospect.docs :=
    Set.ext fun d => TermQuery.mem_prospect.symm
  rw [docs]
  exact traverses.imp fun d v ⟨n, scored⟩ => raises_of_scores scored

/-- A term, and two others that add to the scores of its last two documents. -/
def plain : TermQuery :=
  ⟨"plain", ⟨#[⟨1, 1⟩, ⟨3, 1⟩, ⟨6, 1⟩], by decide, by decide⟩, 1⟩

def extras : List TermQuery :=
  [⟨"first", ⟨#[⟨3, 1⟩, ⟨6, 1⟩], by decide, by decide⟩, 1⟩,
    ⟨"second", ⟨#[⟨2, 1⟩, ⟨6, 1⟩], by decide, by decide⟩, 1⟩]

/-- The first document is scored, the second is not, and the third one is. -/
theorem traverses_required_extras : extras ≠ [] ∧ ∃ o c, TermQuery.anyOf extras = .ok o ∧
    Calls (ofParts plain.cursor o) (some (.ok true)) c ∧ ∃ v, (Cursor.score c).answer = .ok v ∧
      ∃ r, plain.score? (Cursor.doc c) = some r ∧ TermQuery.Raises extras (Cursor.doc c) r v := by
  have nonempty : extras ≠ [] := by decide
  obtain ⟨o, made, -, through⟩ := traverses_required plain nonempty
  have moved : (TermQuery.anyOf extras).map (fun o => (Cursor.next (Cursor.next (afterScore
      (Cursor.next (ofParts plain.cursor o)).state)).state).answer) = .ok (.ok true) := by
    decide +kernel
  rw [made] at moved
  have found : (Move.next.make (Move.next.make (afterScore
      (Move.next.make (ofParts plain.cursor o)).state)).state).answer = .ok true :=
    Except.ok.inj moved
  have first : Calls (ofParts plain.cursor o) _ _ := .move .start .next trivial
  have calls := (first.score.move .next trivial).move .next trivial
  rw [found] at calls
  obtain ⟨v, answered, raised, -⟩ := (through calls (.inr rfl)).score rfl
  exact ⟨nonempty, o, _, made, calls, v, answered, raised⟩

end Bonus

end Retrieval
