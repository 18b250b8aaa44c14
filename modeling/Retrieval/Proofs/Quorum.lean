import Retrieval.Proofs.Traversal

/-!
# Documents in enough of several lists

A threshold over terms goes through the documents that enough of the terms have. On each of them it
has counted the terms that have it, and its score is the sum of their scores, each of them added
once. In which order they are added depends on how the terms stood in the queue.
-/

namespace Retrieval

open Cursor Prospect

/-- A score is the sum of some scores, added from left to right in some order. -/
def AddsUp (xs : List Score) (v : Score) : Prop :=
  ∃ x rest, (x :: rest).Perm xs ∧ v = rest.foldl (· + ·) x

namespace TermQuery

variable {qs : List TermQuery} {d : DocId} {v : Score}

theorem steady_prospect (q : TermQuery) : q.prospect.Steady := steady_ofList q.list q.boost

/-- What several terms give to a document is the sum of the scores of those that have it. -/
theorem addsUp_of_sums (sums : Sums d (meeting {d} (qs.map prospect)) v) :
    AddsUp (qs.filterMap (·.score? d)) v := by
  obtain ⟨Qs, x, rest, perm, scores, rfl⟩ := sums
  rw [meeting_map fun q _ => q.isMatch_iff_window] at perm
  obtain ⟨ys, scores', perm'⟩ := List.perm_comp_forall₂ perm.symm scores
  rw [filterMap_score? scores'] at perm'
  exact ⟨x, rest, perm'.symm, rfl⟩

theorem waits_cursors (qs : List TermQuery) :
    List.Forall₂ Waits (qs.map prospect) (qs.map cursor) := by
  rw [List.forall₂_map_left_iff, List.forall₂_map_right_iff, List.forall₂_same]
  exact fun q _ => q.idle_cursor.toWaits

theorem silent_prospects (qs : List TermQuery) : ∀ P ∈ qs.map prospect, P.Silent :=
  List.forall_mem_map.mpr fun q _ => q.silent_prospect

end TermQuery

namespace Threshold

variable {needed : Nat} {terms : List TermQuery} {d : DocId} {v : Option Score}

/-- Asking a threshold for its score leaves it as it is, so it rests until it is moved. -/
theorem resting_ofWaiting {σ : Type} [Cursor σ] {Ps : List Prospect} {ps : List σ}
    (waits : List.Forall₂ Waits Ps ps) (silent : ∀ P ∈ Ps, P.Silent) (positive : 0 < needed) :
    Resting (quorum needed Ps) (OnCourse (quorum needed Ps) (Standing needed Ps))
      (· = ofWaiting needed ps) := by
  have starts := (starts_ofWaiting waits silent positive).imp And.left
  exact (starts.onCourse fun _ => rfl).resting rfl rfl

theorem Standing.matched_terms {T : Threshold PostingCursor}
    (h : Standing needed (terms.map TermQuery.prospect) d v T) :
    T.matched = terms.countP (·.isMatch d) := by
  rw [h.matched_eq, length_meeting_map fun q _ => q.isMatch_iff_window]

/-- A threshold over terms goes through the documents that enough of them have, whatever the calls
are. On a document it tells how many terms have it, and the score is a sum of theirs. -/
theorem traverses_quorum (terms : List TermQuery) (several : 1 < terms.length)
    (positive : 0 < needed) :
    ∃ fresh, ofAlternatives (terms.map TermQuery.cursor) needed = .ok fresh ∧
      ∀ {last c}, Calls fresh last c → last = none ∨ last = some (.ok true) →
        Traverses {d | needed ≤ terms.countP (·.isMatch d)}
          (fun d v => AddsUp (terms.filterMap (·.score? d)) v) last c ∧
        (last = some (.ok true) → c.matched = terms.countP (·.isMatch (Cursor.doc c))) := by
  have silent := TermQuery.silent_prospects terms
  have kept := faithful_standing (σ := PostingCursor) silent positive
  have resting := resting_ofWaiting (TermQuery.waits_cursors terms) silent positive
  have several' : 1 < (terms.map TermQuery.cursor).length := by rwa [List.length_map]
  refine ⟨_, ofAlternatives_eq several' positive, fun {last c} calls going => ⟨?_, ?_⟩⟩
  · rw [← BooleanCursor.quorum_terms]
    have traverses := calls.traverses kept (fun _ => rfl) resting (fun same => same ▸ rfl) rfl going
    refine traverses.imp fun d v scored => ?_
    obtain ⟨n, -, sums⟩ := scored
    exact TermQuery.addsUp_of_sums sums
  · rintro rfl
    obtain ⟨d, v, stood, -⟩ := calls.stood kept resting rfl
    rw [stood.matched_terms, kept.doc stood]

/-- Three terms, the first two with a document in common, and the last two. -/
def chained : List TermQuery :=
  [⟨"first", ⟨#[⟨1, 1⟩, ⟨4, 1⟩], by decide, by decide⟩, 1⟩,
    ⟨"second", ⟨#[⟨4, 1⟩, ⟨6, 1⟩], by decide, by decide⟩, 1⟩,
    ⟨"third", ⟨#[⟨6, 1⟩, ⟨9, 1⟩], by decide, by decide⟩, 1⟩]

/-- After a seek past the first document, a request for the score, and a move. -/
theorem traverses_quorum_chained : ∃ fresh c, 1 < chained.length ∧ 0 < 2 ∧
    ofAlternatives (chained.map TermQuery.cursor) 2 = .ok fresh ∧
    Calls fresh (some (.ok true)) c ∧
    Traverses {d | 2 ≤ chained.countP (·.isMatch d)}
      (fun d v => AddsUp (chained.filterMap (·.score? d)) v) (some (.ok true)) c ∧
    c.matched = chained.countP (·.isMatch (Cursor.doc c)) := by
  have several : 1 < chained.length := by decide
  have positive : 0 < 2 := by decide
  obtain ⟨fresh, made, traverses⟩ := traverses_quorum chained several positive
  have moved : (ofAlternatives (chained.map TermQuery.cursor) 2).map (fun fresh =>
      (Cursor.next (afterScore (Cursor.seek fresh 3).state)).answer) = .ok (.ok true) := by
    decide +kernel
  rw [made] at moved
  have found : (Move.next.make (afterScore ((Move.seek 3).make fresh).state)).answer = .ok true :=
    Except.ok.inj moved
  have nonneg : (Move.seek 3).Admissible := show (0 : DocId) ≤ 3 by decide
  have calls : Calls fresh
      (some (Move.next.make (afterScore ((Move.seek 3).make fresh).state)).answer) _ :=
    (Calls.start.move (.seek 3) nonneg).score.move .next trivial
  rw [found] at calls
  obtain ⟨through, counted⟩ := traverses calls (.inr rfl)
  exact ⟨fresh, _, several, positive, made, calls, through, counted rfl⟩

end Threshold

end Retrieval
