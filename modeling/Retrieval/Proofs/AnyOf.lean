import Retrieval.Proofs.Composition
import Retrieval.Proofs.Quorum

/-!
# Any of several terms

Terms of which any may match are put beside another cursor to exclude documents or to add to scores:
a single term as it is, several of them as a threshold that one has to reach. Either way they go
through the documents that some term has, and give the scores of all terms that have a document.
-/

namespace Retrieval

open Cursor Prospect

namespace Prospect

/-- What to expect of any of several cursors; a single one needs no threshold. -/
noncomputable def anyOf : List Prospect → Prospect
  | [P] => P
  | Ps => quorum 1 Ps

end Prospect

namespace TermQuery

/-- A cursor over the documents of any of some terms. -/
def anyOf : List TermQuery → Except Failure (PostingCursor ⊕ Threshold PostingCursor)
  | [q] => .ok (.inl q.cursor)
  | qs => return .inr (← Threshold.any (qs.map cursor))

variable {qs : List TermQuery} {q : TermQuery} {d : DocId}

theorem prompt_anyOf (qs : List TermQuery) : (Prospect.anyOf (qs.map prospect)).Prompt := by
  match qs with
  | [] => exact fun _ => rfl
  | [q] => exact q.steady_prospect.prompt
  | _ :: _ :: _ => exact fun _ => rfl

theorem mem_docs_anyOf :
    d ∈ (Prospect.anyOf (qs.map prospect)).docs ↔ qs.any (·.isMatch d) = true := by
  have several : d ∈ (quorum 1 (qs.map prospect)).docs ↔ qs.any (·.isMatch d) = true := by
    rw [BooleanCursor.quorum_terms, List.any_eq_true]
    exact List.countP_pos_iff
  match qs with
  | [] => exact several
  | [q] => exact mem_prospect.trans (by rw [List.any_cons, List.any_nil, Bool.or_false])
  | _ :: _ :: _ => exact several

theorem addsUp_of_anyOf {v : Score} {n : Nat}
    (scored : (Prospect.anyOf (qs.map prospect)).scores d v n) :
    AddsUp (qs.filterMap (·.score? d)) v := by
  match qs with
  | [] => exact addsUp_of_sums scored.2
  | [q] =>
      obtain rfl := q.silent_prospect d v n scored
      have given : q.score? d = some v := scores_prospect.mp scored
      rw [List.filterMap_cons_some (f := (TermQuery.score? · d)) given, List.filterMap_nil]
      exact ⟨v, [], .refl _, rfl⟩
  | _ :: _ :: _ => exact addsUp_of_sums scored.2

/-- Sought before all documents, a single term refuses. -/
theorem braced_single (q : TermQuery) :
    Bonus.Braced q.prospect (.inl q.cursor : PostingCursor ⊕ Threshold PostingCursor) := by
  obtain ⟨failure, eq⟩ := q.idle_cursor.refuses (show DocId.beforeFirst < 0 by decide)
  have sought := embeds_inl (τ := Threshold PostingCursor).seek q.cursor .beforeFirst
  rw [eq, Outcome.within_fail] at sought
  exact .refuses sought

/-- Several terms are gathered and stay there, unless none of them has a document. -/
theorem braced_several (qs : List TermQuery) : Bonus.Braced (quorum 1 (qs.map prospect))
    (.inr (.ofWaiting 1 (qs.map cursor)) : PostingCursor ⊕ Threshold PostingCursor) := by
  have silent := silent_prospects qs
  have sought := embeds_inr (σ := PostingCursor).seek (Threshold.ofWaiting 1 (qs.map cursor))
    .beforeFirst
  obtain ⟨T, eq, before, starts⟩ | ⟨T, eq, empty⟩ :=
    Threshold.seek_beforeFirst (waits_cursors qs) silent Nat.one_pos
  · rw [eq, Outcome.within_done] at sought
    have begins := starts.begins (Threshold.faithful_standsIn silent Nat.one_pos)
    exact .accepts sought ⟨embeds_inr.begins begins, before, rfl⟩
  · rw [eq, Outcome.within_done] at sought
    exact .lacks sought fun t => Set.subset_eq_empty Set.inter_subset_left empty

/-- There is a cursor over the documents of any of some terms, and it keeps its promise. -/
theorem exists_anyOf (nonempty : qs ≠ []) : ∃ c, anyOf qs = .ok c ∧
    Begins (Prospect.anyOf (qs.map prospect)) c ∧
    Bonus.Braced (Prospect.anyOf (qs.map prospect)) c := by
  match qs with
  | [] => exact absurd rfl nonempty
  | [q] => exact ⟨_, rfl, embeds_inl.begins q.idle_cursor.toStarts, q.braced_single⟩
  | q :: q' :: rest =>
      have made : Threshold.any ((q :: q' :: rest).map cursor) = _ :=
        Threshold.ofAlternatives_eq (by simp) Nat.one_pos
      have begins := Threshold.begins_ofWaiting (waits_cursors (q :: q' :: rest))
        (silent_prospects _) Nat.one_pos
      refine ⟨_, ?_, embeds_inr.begins begins, braced_several (q :: q' :: rest)⟩
      simp only [anyOf, made]
      rfl

end TermQuery

end Retrieval
