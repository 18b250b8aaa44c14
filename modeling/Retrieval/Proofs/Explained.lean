import Mathlib.Data.List.Induction
import Retrieval.Proofs.Nested
import Retrieval.Query.Explain

/-!
# What explanations say about matching

A query explains a document from the document alone, in one pass over what its clauses find in it.
Each variable of the pass is a matter of the findings of some kind. Whether the explanation stands
for a match is the same as whether the query matches.
-/

namespace Retrieval

open Boolean

namespace ClauseFinding

/-- Whether the clause adds to the score. -/
def contributes (f : ClauseFinding) : Bool := f.explanation.matched && f.role.counts

/-- Whether the clause by itself keeps the document out. -/
def rejects (f : ClauseFinding) : Bool :=
  match f.role with
  | .required => !f.explanation.matched
  | .optional => false
  | .prohibited => f.explanation.matched

/-- What the clause contributes to the explanation of the whole: its own explanation if it adds to
the score, and a note if it keeps the document out. -/
def detail? (f : ClauseFinding) : Option Explanation :=
  if f.contributes then
    some f.explanation
  else if f.rejects then
    let cause :=
      match f.role with
      | .prohibited => "match on prohibited clause"
      | _ => "no match on required clause"
    some ((Explanation.ofValue 0 s!"{cause} ({f.name})").addDetail f.explanation)
  else
    none

end ClauseFinding

namespace Summary

/-- What findings come to, variable by variable. -/
def ofFindings (findings : List ClauseFinding) : Summary where
  details := findings.filterMap ClauseFinding.detail?
  matched := (findings.filter ClauseFinding.contributes).length
  optional := (findings.filter ClauseFinding.contributes).countP (·.role = .optional)
  counting := findings.countP (·.role.counts)
  sum := (findings.filter ClauseFinding.contributes).foldl (fun s f => s + f.explanation.value) 0
  rejected := findings.any ClauseFinding.rejects

theorem ofFindings_concat (findings : List ClauseFinding) (f : ClauseFinding) :
    ofFindings (findings ++ [f]) = (ofFindings findings).add f := by
  obtain ⟨role, name, explanation⟩ := f
  cases role <;> cases found : explanation.matched <;>
    simp [ofFindings, add, accept, reject, ClauseFinding.contributes, ClauseFinding.rejects,
      ClauseFinding.detail?, Role.counts, found, List.filterMap_append, List.countP_append]

/-- The pass takes in one finding after the other. -/
theorem foldl_add (findings : List ClauseFinding) :
    findings.foldl add {} = ofFindings findings := by
  induction findings using List.reverseRecOn with
  | nil => rfl
  | append_singleton findings f ih =>
      rw [List.foldl_append, ih, ofFindings_concat]
      rfl

/-- When the conclusion stands for a match. -/
theorem matched_conclude_iff {s : Summary} {rules : ClauseRules} {rule : CoordRule} :
    (s.conclude rules rule).matched = true ↔
      ¬ s.rejected = true ∧ rules.minOptional ≤ s.optional ∧ 0 < s.matched := by
  rw [conclude]
  by_cases rejected : s.rejected = true
  · simp [rejected]
  rw [if_neg rejected]
  by_cases few : s.optional < rules.minOptional
  · rw [if_pos few]
    exact iff_of_false Bool.false_ne_true fun h => absurd h.2.1 (Nat.not_le_of_lt few)
  rw [if_neg few]
  dsimp only
  split <;> simp [Explanation.addDetail, rejected, Nat.le_of_not_lt few]

end Summary

namespace BooleanQuery

variable {κ : Type}

/-- What the clauses of a list find in a document. -/
def findingsOf (describe : κ → String) (explain : κ → Explanation) (clauses : List (Role × κ)) :
    List ClauseFinding :=
  clauses.map fun (role, clause) => ⟨role, describe clause, explain clause⟩

variable {describe : κ → String} {explain : κ → Explanation} {clauses : List (Role × κ)}
variable {role : Role} {clause : κ}

theorem findingsOf_cons : findingsOf describe explain ((role, clause) :: clauses) =
    ⟨role, describe clause, explain clause⟩ :: findingsOf describe explain clauses := rfl

/-- A document is kept out by a required clause that does not match it or by a prohibited one that
does. -/
theorem any_rejects (clauses : List (Role × κ)) :
    (findingsOf describe explain clauses).any ClauseFinding.rejects = true ↔
      ¬ ((∀ a ∈ byRole .required clauses, (explain a).matched = true) ∧
        ∀ a ∈ byRole .prohibited clauses, ¬ (explain a).matched = true) := by
  induction clauses with
  | nil => simp [findingsOf]
  | cons x clauses ih =>
      obtain ⟨role, clause⟩ := x
      rw [findingsOf_cons, List.any_cons, Bool.or_eq_true, ih]
      cases role with
      | required =>
          simp only [ClauseFinding.rejects, byRole_cons, if_true, reduceCtorEq, if_false,
            List.forall_mem_cons, Bool.not_eq_true']
          rw [← Bool.not_eq_true]
          tauto
      | optional => simp [ClauseFinding.rejects, byRole_cons]
      | prohibited =>
          simp only [ClauseFinding.rejects, byRole_cons, if_true, reduceCtorEq, if_false,
            List.forall_mem_cons]
          tauto

/-- The findings that contribute are those of the matching clauses that count. -/
theorem length_contributions (clauses : List (Role × κ)) :
    ((findingsOf describe explain clauses).filter ClauseFinding.contributes).length =
      matchCount clauses fun a => (explain a).matched := by
  induction clauses with
  | nil => rfl
  | cons x clauses ih =>
      obtain ⟨role, clause⟩ := x
      rw [findingsOf_cons, List.filter_cons]
      simp only [matchCount, counting, List.countP_append] at ih ⊢
      cases role <;> cases found : (explain clause).matched <;>
        simp [ClauseFinding.contributes, Role.counts, byRole_cons, found, ih]
      all_goals omega

theorem countP_optional (clauses : List (Role × κ)) :
    ((findingsOf describe explain clauses).filter ClauseFinding.contributes).countP
        (·.role = .optional) =
      (byRole .optional clauses).countP fun a => (explain a).matched := by
  induction clauses with
  | nil => rfl
  | cons x clauses ih =>
      obtain ⟨role, clause⟩ := x
      rw [findingsOf_cons, List.filter_cons]
      cases role <;> cases found : (explain clause).matched <;>
        simp [ClauseFinding.contributes, Role.counts, byRole_cons, found, ih]

/-- When the findings put together stand for a match. -/
theorem matched_summarize_iff (q : BooleanQuery κ) (findings : List ClauseFinding) :
    (q.summarize findings).matched = true ↔
      ¬ findings.any ClauseFinding.rejects = true ∧
        q.rules.minOptional ≤
          (findings.filter ClauseFinding.contributes).countP (·.role = .optional) ∧
        0 < (findings.filter ClauseFinding.contributes).length := by
  rw [summarize, Summary.foldl_add]
  exact Summary.matched_conclude_iff

/-- The findings stand for a match exactly if the clauses accept the document. At least one clause
has then contributed, for no document is accepted without any. -/
theorem matched_summarize (q : BooleanQuery κ) :
    (q.summarize (findingsOf describe explain q.clauses)).matched =
      accepts q.rules q.clauses fun a => (explain a).matched := by
  rw [Bool.eq_iff_iff, matched_summarize_iff, accepts_iff, any_rejects, countP_optional,
    length_contributions, not_not, and_assoc]
  refine and_congr_right fun all => and_congr_right fun _ => ?_
  rw [matchCount, counting, List.countP_append, Prospect.needed]
  cases none : byRole .required q.clauses with
  | nil =>
      simp only [List.countP_nil, List.isEmpty_nil, if_true]
      omega
  | cons a rest =>
      have first : (explain a).matched = true := all a (none ▸ List.mem_cons_self)
      rw [List.countP_cons_of_pos (p := fun a => (explain a).matched) first]
      simp only [List.isEmpty_cons, Bool.false_eq_true, if_false]
      omega

end BooleanQuery

/-- A term explains a match exactly for its documents, whatever their weights. -/
theorem TermQuery.matched_explain (q : TermQuery) (doc : DocId) :
    (q.explain doc).matched = q.isMatch doc := by
  rw [isMatch, Bool.eq_iff_iff, decide_eq_true_iff, ← PostingList.get?_isSome_iff, explain]
  cases q.list.get? doc with
  | none => simp [Explanation.noMatch]
  | some posting =>
      dsimp only
      by_cases plain : q.boost = 1
      · simp [plain, Explanation.ofMatch]
      · simp [plain, Explanation.ofMatch, Explanation.addDetail]

/-- An explanation stands for a match exactly if the query matches the document. -/
theorem Query.matched_explain {height : Nat} (q : Query height) (doc : DocId) :
    (q.explain doc).matched = q.isMatch doc := by
  induction height with
  | zero => exact nomatch q
  | succ height ih =>
      cases q with
      | term q => exact q.matched_explain doc
      | boolean q =>
          have same : (fun clause : Query height => (clause.explain doc).matched) =
              fun clause => clause.isMatch doc := funext ih
          show (q.summarize (BooleanQuery.findingsOf Query.describe (Query.explain · doc)
            q.clauses)).matched = _
          rw [BooleanQuery.matched_summarize, isMatch, ← same]

end Retrieval
