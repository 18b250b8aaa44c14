import Retrieval.Proofs.Explained

/-!
# Explanations add up

An explanation breaks a score down into the values that it is made of. Wherever it stands for a
match and has details, its value is what the details make: the sum of the scores of the clauses that
match, or the product of two factors. What is put in to tell why a document is kept out never stands
for a match, but the explanations that it refers to may, and they add up as well.
-/

namespace Retrieval

open Boolean

namespace Explanation

/-- What is within an explanation is itself and what is within its details. -/
inductive Within (n : Explanation) : Explanation → Prop
  | root : Within n n
  | detail {e d : Explanation} (inside : d ∈ e.details) (node : Within n d) : Within n e

/-- The value is the sum of those of the details, added from zero in their order. -/
def IsSum (e : Explanation) : Prop := e.value = (e.details.map (·.value)).foldl (· + ·) 0

/-- The value is the product of those of the only two details. -/
def IsProduct (e a b : Explanation) : Prop := e.details = [a, b] ∧ e.value = a.value * b.value

variable {n e : Explanation}

theorem within_iff : Within n e ↔ n = e ∨ ∃ d ∈ e.details, Within n d := by
  constructor
  · rintro (_ | ⟨inside, node⟩)
    · exact .inl rfl
    · exact .inr ⟨_, inside, node⟩
  · rintro (rfl | ⟨d, inside, node⟩)
    · exact .root
    · exact .detail inside node

/-- Of an explanation without details, the only node is itself. -/
theorem Within.eq_of_details_eq_nil (node : Within n e) (leaf : e.details = []) : n = e := by
  obtain rfl | ⟨d, inside, -⟩ := within_iff.mp node
  · rfl
  · rw [leaf] at inside
    nomatch inside

end Explanation

open Explanation

namespace Summary

variable {s : Summary} {rules : ClauseRules} {rule : CoordRule}

/-- Nothing is scored for a document that is kept out. -/
theorem conclude_of_fails (fails : s.rejected = true ∨ s.optional < rules.minOptional) :
    (s.conclude rules rule).matched = false ∧ (s.conclude rules rule).value = 0 ∧
      (s.conclude rules rule).details = s.details := by
  rw [conclude]
  by_cases rejected : s.rejected = true
  · rw [if_pos rejected]
    exact ⟨rfl, rfl, rfl⟩
  · rw [if_neg rejected, if_pos (fails.resolve_left rejected)]
    exact ⟨rfl, rfl, rfl⟩

/-- For any other document, the conclusion is the sum, or its product with a factor other than one.
-/
theorem conclude_of_meets (kept : ¬ s.rejected = true) (enough : ¬ s.optional < rules.minOptional) :
    ∃ sum : Explanation, sum.value = s.sum ∧ sum.details = s.details ∧
      if rule.factor s.matched s.counting = 1 then s.conclude rules rule = sum
      else ∃ coord, (s.conclude rules rule).IsProduct sum coord ∧ coord.details = [] ∧
        coord.value = rule.factor s.matched s.counting := by
  rw [conclude, if_neg kept, if_neg enough]
  dsimp only
  refine ⟨⟨s.sum, "sum of:", decide (0 < s.matched), s.details⟩, rfl, rfl, ?_⟩
  split
  · rfl
  · exact ⟨_, ⟨rfl, rfl⟩, rfl, rfl⟩

end Summary

namespace BooleanQuery

section Findings

variable {κ : Type} {q : BooleanQuery κ} {findings : List ClauseFinding} {d : Explanation}

theorem not_zero_lt_zero : ¬ (0 : Score) < 0 := by decide +kernel

/-- A detail is what a clause explains, or a note that refers to it and is no match. -/
theorem mem_details (inside : d ∈ findings.filterMap ClauseFinding.detail?) :
    ∃ f ∈ findings, d = f.explanation ∨ d.matched = false ∧ d.details = [f.explanation] := by
  obtain ⟨f, there, told⟩ := List.mem_filterMap.mp inside
  refine ⟨f, there, ?_⟩
  rw [ClauseFinding.detail?] at told
  split at told
  · exact .inl (Option.some.inj told).symm
  · split at told
    · rw [← Option.some.inj told]
      exact .inr ⟨decide_eq_false not_zero_lt_zero, rfl⟩
    · exact absurd told.symm (Option.some_ne_none d)

/-- If no clause keeps the document out, the details are what the contributing ones explain. -/
theorem details_of_kept (kept : ¬ findings.any ClauseFinding.rejects = true) :
    findings.filterMap ClauseFinding.detail? =
      (findings.filter ClauseFinding.contributes).map (·.explanation) := by
  induction findings with
  | nil => rfl
  | cons f findings ih =>
      rw [List.any_cons, Bool.or_eq_true, not_or] at kept
      rw [List.filterMap_cons, List.filter_cons, ih kept.2, ClauseFinding.detail?, if_neg kept.1]
      cases f.contributes <;> rfl

/-- Nothing is scored if a clause keeps the document out or too few optional ones match. -/
theorem summarize_of_fails (fails : findings.any ClauseFinding.rejects = true ∨
    (findings.filter ClauseFinding.contributes).countP (·.role = .optional) <
      q.rules.minOptional) :
    (q.summarize findings).matched = false ∧ (q.summarize findings).value = 0 ∧
      (q.summarize findings).details = findings.filterMap ClauseFinding.detail? := by
  rw [summarize, Summary.foldl_add]
  exact Summary.conclude_of_fails fails

/-- Otherwise the contributions are added up, and the sum is multiplied by the coordination factor
unless that is one. -/
theorem summarize_of_meets (kept : ¬ findings.any ClauseFinding.rejects = true)
    (enough : ¬ (findings.filter ClauseFinding.contributes).countP (·.role = .optional) <
      q.rules.minOptional) :
    ∃ sum : Explanation, sum.IsSum ∧
      sum.details = (findings.filter ClauseFinding.contributes).map (·.explanation) ∧
      if q.rule.factor sum.details.length (findings.countP (·.role.counts)) = 1 then
        q.summarize findings = sum
      else ∃ coord, (q.summarize findings).IsProduct sum coord ∧ coord.details = [] ∧
        coord.value = q.rule.factor sum.details.length (findings.countP (·.role.counts)) := by
  have details := details_of_kept kept
  obtain ⟨sum, value, same, conclusion⟩ :=
    @Summary.conclude_of_meets (.ofFindings findings) q.rules q.rule kept enough
  refine ⟨sum, ?_, same.trans details, ?_⟩
  · rw [Explanation.IsSum, value, same]
    dsimp only [Summary.ofFindings]
    rw [details, List.map_map, List.foldl_map]
    rfl
  · rw [same.trans details, List.length_map, summarize, Summary.foldl_add]
    exact conclusion

end Findings

variable {height : Nat}

/-- Some required clause does not match the document, some prohibited one does, or too few optional
ones do. -/
def Fails (q : BooleanQuery (Query height)) (doc : DocId) : Prop :=
  (∃ a ∈ byRole .required q.clauses, a.isMatch doc = false) ∨
    (∃ a ∈ byRole .prohibited q.clauses, a.isMatch doc = true) ∨
    (byRole .optional q.clauses).countP (·.isMatch doc) < q.rules.minOptional

/-- A node for the sum of what the matching clauses that count explain, in the order of the clauses.
-/
structure Sums (q : BooleanQuery (Query height)) (doc : DocId) (e : Explanation) : Prop where
  details : e.details = (q.clauses.filter fun x => x.1.counts && x.2.isMatch doc).map
    fun x => x.2.explain doc
  isSum : e.IsSum

/-- A node for such a sum times the factor for the number of its details out of all clauses that
count. -/
def Scales (q : BooleanQuery (Query height)) (doc : DocId) (e : Explanation) : Prop :=
  ∃ sum coord, e.IsProduct sum coord ∧ q.Sums doc sum ∧ coord.details = [] ∧
    coord.value = q.rule.factor sum.details.length (counting q.clauses).length

variable {q : BooleanQuery (Query height)} {doc : DocId}

/-- What the clauses find in the document. -/
def told (q : BooleanQuery (Query height)) (doc : DocId) : List ClauseFinding :=
  findingsOf Query.describe (Query.explain · doc) q.clauses

theorem matched_explain_eq (doc : DocId) :
    (fun clause : Query height => (clause.explain doc).matched) = (·.isMatch doc) :=
  funext fun clause => clause.matched_explain doc

theorem fails_iff : q.Fails doc ↔ (q.told doc).any ClauseFinding.rejects = true ∨
    ((q.told doc).filter ClauseFinding.contributes).countP (·.role = .optional) <
      q.rules.minOptional := by
  rw [told, any_rejects, countP_optional, matched_explain_eq, Fails, ← or_assoc]
  refine or_congr_left ?_
  simp only [Query.matched_explain, not_and_or, not_forall, Bool.not_eq_true, Bool.not_eq_false,
    exists_prop]

theorem contributions_told : ((q.told doc).filter ClauseFinding.contributes).map (·.explanation) =
    (q.clauses.filter fun x => x.1.counts && x.2.isMatch doc).map fun x => x.2.explain doc := by
  rw [told, findingsOf, List.filter_map, List.map_map]
  refine congrArg₂ List.map rfl (List.filter_congr fun x _ => ?_)
  exact (Bool.and_comm _ _).trans (congrArg (x.1.counts && ·) (x.2.matched_explain doc))

theorem countP_counts_told :
    (q.told doc).countP (·.role.counts) = (counting q.clauses).length := by
  rw [told]
  induction q.clauses with
  | nil => rfl
  | cons x clauses ih =>
      obtain ⟨role, a⟩ := x
      rw [findingsOf_cons, List.countP_cons, ih]
      cases role <;> simp [counting, byRole_cons, Role.counts]
      omega

/-- The explanation of a document that fails a condition says that it has no score. -/
theorem explain_of_fails (fails : q.Fails doc) :
    (@Query.explain (height + 1) (.boolean q) doc).matched = false ∧
      (@Query.explain (height + 1) (.boolean q) doc).value = 0 :=
  have ⟨noMatch, zero, _⟩ := summarize_of_fails (fails_iff.mp fails)
  ⟨noMatch, zero⟩

/-- The factor for the clauses that match the document and count, out of all that count. -/
def coordination (q : BooleanQuery (Query height)) (doc : DocId) : Score :=
  q.rule.factor (q.clauses.filter fun x => x.1.counts && x.2.isMatch doc).length
    (counting q.clauses).length

/-- Otherwise it is the sum, or the product of the sum and the factor if that is not one. -/
theorem explain_of_meets (meets : ¬ q.Fails doc) :
    if q.coordination doc = 1 then q.Sums doc (@Query.explain (height + 1) (.boolean q) doc)
    else q.Scales doc (@Query.explain (height + 1) (.boolean q) doc) := by
  obtain ⟨kept, enough⟩ := not_or.mp fun fails => meets (fails_iff.mpr fails)
  obtain ⟨sum, isSum, details, value⟩ := summarize_of_meets (q := q) kept enough
  rw [contributions_told] at details
  rw [countP_counts_told] at value
  have factor : q.rule.factor sum.details.length (counting q.clauses).length =
      q.coordination doc := by
    rw [details, List.length_map, coordination]
  rw [factor] at value
  change if q.coordination doc = 1 then q.Sums doc (q.summarize (q.told doc))
    else q.Scales doc (q.summarize (q.told doc))
  by_cases plain : q.coordination doc = 1
  · rw [if_pos plain] at value ⊢
    exact value ▸ ⟨details, isSum⟩
  · rw [if_neg plain] at value ⊢
    obtain ⟨coord, product, leaf, value⟩ := value
    exact ⟨sum, coord, product, ⟨details, isSum⟩, leaf, value.trans factor.symm⟩

variable {n e : Explanation}

theorem Sums.node (sums : q.Sums doc e) (node : Within n e) :
    n = e ∨ ∃ x ∈ q.clauses, Within n (x.2.explain doc) := by
  obtain rfl | ⟨d, inside, node⟩ := within_iff.mp node
  · exact .inl rfl
  · rw [sums.details] at inside
    obtain ⟨x, there, rfl⟩ := List.mem_map.mp inside
    exact .inr ⟨x, List.mem_of_mem_filter there, node⟩

theorem Scales.node (scales : q.Scales doc e) (node : Within n e) (inner : n.details ≠ []) :
    n = e ∨ q.Sums doc n ∨ ∃ x ∈ q.clauses, Within n (x.2.explain doc) := by
  obtain ⟨sum, coord, ⟨details, -⟩, sums, leaf, -⟩ := scales
  obtain rfl | ⟨d, inside, node⟩ := within_iff.mp node
  · exact .inl rfl
  rw [details, List.mem_pair] at inside
  obtain rfl | rfl := inside
  · obtain rfl | below := sums.node node
    · exact .inr (.inl sums)
    · exact .inr (.inr below)
  · exact absurd (node.eq_of_details_eq_nil leaf ▸ leaf) inner

/-- If the document fails a condition, all matches are nodes of what the clauses explain. -/
theorem node_of_fails (fails : q.Fails doc)
    (node : Within n (@Query.explain (height + 1) (.boolean q) doc)) (matched : n.matched = true) :
    ∃ x ∈ q.clauses, Within n (x.2.explain doc) := by
  obtain ⟨noMatch, -, details⟩ := summarize_of_fails (fails_iff.mp fails)
  obtain rfl | ⟨d, inside, node⟩ := within_iff.mp node
  · exact absurd (noMatch.symm.trans matched) Bool.false_ne_true
  obtain ⟨f, there, same⟩ := mem_details (details ▸ inside)
  obtain ⟨x, clause, rfl⟩ := List.mem_map.mp there
  refine ⟨x, clause, ?_⟩
  obtain rfl | ⟨note, only⟩ := same
  · exact node
  obtain rfl | ⟨d', inside, node⟩ := within_iff.mp node
  · exact absurd (note.symm.trans matched) Bool.false_ne_true
  · obtain rfl := List.mem_singleton.mp (only ▸ inside)
    exact node

/-- A match with details is the sum or the product of the query itself, or a node of what one of the
clauses explains. -/
theorem node_explain (node : Within n (@Query.explain (height + 1) (.boolean q) doc))
    (matched : n.matched = true) (inner : n.details ≠ []) :
    q.Sums doc n ∨ q.Scales doc n ∨ ∃ x ∈ q.clauses, Within n (x.2.explain doc) := by
  by_cases fails : q.Fails doc
  · exact .inr (.inr (node_of_fails fails node matched))
  have value := explain_of_meets fails
  split at value
  · obtain rfl | below := value.node node
    · exact .inl value
    · exact .inr (.inr below)
  · obtain rfl | sums | below := value.node node inner
    · exact .inr (.inl value)
    · exact .inl sums
    · exact .inr (.inr below)

end BooleanQuery

namespace TermQuery

/-- A node for the weight of the document times the factor of the term. -/
def Boosts (t : TermQuery) (doc : DocId) (e : Explanation) : Prop :=
  ∃ posting weight boost, t.list.get? doc = some posting ∧ e.IsProduct weight boost ∧
    weight.details = [] ∧ weight.value = posting.weight ∧ boost.details = [] ∧
    boost.value = t.boost

variable {t : TermQuery} {doc : DocId} {n : Explanation}

/-- A factor other than one is explained. -/
theorem boosts_explain (boosted : t.boost ≠ 1) (found : t.isMatch doc = true) :
    t.Boosts doc (t.explain doc) := by
  rw [isMatch, decide_eq_true_iff, ← PostingList.get?_isSome_iff] at found
  obtain ⟨posting, there⟩ := Option.isSome_iff_exists.mp found
  rw [explain, there]
  dsimp only
  rw [if_neg boosted]
  exact ⟨posting, _, _, there, ⟨rfl, rfl⟩, rfl, rfl, rfl, rfl⟩

/-- Without such a factor, or a posting, there are no details. -/
theorem details_explain (plain : ¬ (t.boost ≠ 1 ∧ t.isMatch doc = true)) :
    (t.explain doc).details = [] := by
  rw [isMatch, decide_eq_true_iff, ← PostingList.get?_isSome_iff] at plain
  rw [explain]
  cases there : t.list.get? doc with
  | none => rfl
  | some posting =>
      rw [there] at plain
      dsimp only
      rw [if_pos (not_not.mp fun boosted => plain ⟨boosted, rfl⟩)]
      rfl

theorem node_explain (node : Within n (t.explain doc)) (inner : n.details ≠ []) :
    t.boost ≠ 1 ∧ t.Boosts doc n := by
  by_cases boosted : t.boost ≠ 1 ∧ t.isMatch doc = true
  · have boosts := boosts_explain boosted.1 boosted.2
    obtain rfl | ⟨d, inside, node⟩ := within_iff.mp node
    · exact ⟨boosted.1, boosts⟩
    obtain ⟨posting, weight, boost, -, ⟨details, -⟩, leaf, -, leaf', -⟩ := boosts
    rw [details, List.mem_pair] at inside
    obtain rfl | rfl := inside
    · exact absurd (node.eq_of_details_eq_nil leaf ▸ leaf) inner
    · exact absurd (node.eq_of_details_eq_nil leaf' ▸ leaf') inner
  · have leaf := details_explain boosted
    exact absurd (node.eq_of_details_eq_nil leaf ▸ leaf) inner

end TermQuery

namespace Query

/-- The parts of a query are itself and the parts of its clauses. -/
inductive Part {height : Nat} (p : Query height) : {height : Nat} → Query height → Prop
  | whole : Part p p
  | clause {height : Nat} {q : BooleanQuery (Query height)} {x : Role × Query height}
      (inside : x ∈ q.clauses) (part : Part p x.2) : @Part _ p (height + 1) (.boolean q)

/-- A node that adds up as the query says: the weight of a term times its factor, the sum of what
clauses explain, or such a sum times its factor. -/
def AddsUp : {height : Nat} → Query height → DocId → Explanation → Prop
  | 0, q, _, _ => nomatch q
  | _ + 1, .term q, doc, e => q.boost ≠ 1 ∧ q.Boosts doc e
  | _ + 1, .boolean q, doc, e => q.Sums doc e ∨ q.Scales doc e

/-- What an explanation of the query in a document is to be. -/
def Demands : {height : Nat} → Query height → DocId → Explanation → Prop
  | 0, q, _, _ => nomatch q
  | _ + 1, .term q, doc, e => q.boost ≠ 1 → q.isMatch doc = true → q.Boosts doc e
  | _ + 1, .boolean q, doc, e => (q.Fails doc → e.matched = false ∧ e.value = 0) ∧
      (¬ q.Fails doc → if q.coordination doc = 1 then q.Sums doc e else q.Scales doc e)

variable {height : Nat} {doc : DocId} {n : Explanation}

theorem demands_explain (q : Query height) (doc : DocId) : q.Demands doc (q.explain doc) := by
  cases height with
  | zero => exact nomatch q
  | succ height =>
      cases q with
      | term q => exact q.boosts_explain
      | boolean q => exact ⟨q.explain_of_fails, q.explain_of_meets⟩

/-- A match with details adds up as a part of the query says, wherever it is. -/
theorem node_explain {q : Query height} (node : Within n (q.explain doc))
    (matched : n.matched = true) (inner : n.details ≠ []) :
    ∃ height, ∃ p : Query height, p.Part q ∧ p.AddsUp doc n := by
  induction height with
  | zero => exact nomatch q
  | succ height ih =>
      cases q with
      | term q => exact ⟨height + 1, QueryNode.term q, .whole, q.node_explain node inner⟩
      | boolean q =>
          obtain sums | scales | ⟨x, inside, node⟩ := q.node_explain node matched inner
          · exact ⟨height + 1, QueryNode.boolean q, .whole, .inl sums⟩
          · exact ⟨height + 1, QueryNode.boolean q, .whole, .inr scales⟩
          · obtain ⟨_, p, part, addsUp⟩ := ih node
            exact ⟨_, p, .clause inside part, addsUp⟩

/-- The explanation of any document is what the query demands, and each match in it that has details
adds up: as the sum of exactly what the matching clauses of a part explain, in their order, or as a
product of two factors. -/
theorem explain_addsUp {height : Nat} (q : Query height) (doc : DocId) :
    q.Demands doc (q.explain doc) ∧
      ∀ n, Within n (q.explain doc) → n.matched = true → n.details ≠ [] →
        ∃ height, ∃ p : Query height, p.Part q ∧ p.AddsUp doc n :=
  ⟨q.demands_explain doc, fun _ node matched inner => node_explain node matched inner⟩

/-- A raised required term, an optional one, and a prohibited one that bars a document. -/
def barred : BooleanQuery (Query 1) where
  rules := {}
  rule := .fraction
  clauses := [(.required, .term ⟨"raised", ⟨#[⟨2, 1⟩, ⟨11, 1⟩], by decide, by decide⟩, .ofNat 3⟩),
    (.optional, .term ⟨"absent", ⟨#[⟨13, 1⟩], by decide, by decide⟩, 1⟩),
    (.prohibited, .term ⟨"bar", ⟨#[⟨11, 1⟩], by decide, by decide⟩, 1⟩)]
  usable := usable_default
  bounded := by decide

/-- One document is barred. The score of the other one is the product of a sum and a factor, and the
explanation as a whole is a match that adds up. -/
theorem explain_addsUp_barred :
    (barred.Fails 11 ∧ (@explain 2 (.boolean barred) 11).matched = false ∧
      (@explain 2 (.boolean barred) 11).value = 0) ∧
    (¬ barred.Fails 2 ∧ barred.coordination 2 ≠ 1 ∧
      barred.Scales 2 (@explain 2 (.boolean barred) 2)) ∧
    (@explain 2 (.boolean barred) 2).matched = true ∧
      (@explain 2 (.boolean barred) 2).details ≠ [] ∧
      ∃ height, ∃ p : Query height, @Part _ p 2 (.boolean barred) ∧
        p.AddsUp 2 (@explain 2 (.boolean barred) 2) := by
  have fails : barred.Fails 11 := .inr (.inl ⟨_, List.mem_cons_self, by decide⟩)
  have meets : ¬ barred.Fails 2 := by
    rintro (⟨a, inside, mismatch⟩ | ⟨a, inside, matched⟩ | few)
    · obtain rfl := List.mem_singleton.mp inside
      exact absurd mismatch (by decide)
    · obtain rfl := List.mem_singleton.mp inside
      exact absurd matched (by decide)
    · exact absurd few (Nat.not_lt_zero _)
  have factor : barred.coordination 2 ≠ 1 := by decide +kernel
  have matched : (@explain 2 (.boolean barred) 2).matched = true := by decide +kernel
  have inner : (@explain 2 (.boolean barred) 2).details ≠ [] :=
    List.ne_nil_of_length_pos (by decide +kernel)
  have scales := (@explain_addsUp 2 (.boolean barred) 2).1.2 meets
  rw [if_neg factor] at scales
  exact ⟨⟨fails, (@explain_addsUp 2 (.boolean barred) 11).1.1 fails⟩, ⟨meets, factor, scales⟩,
    matched, inner, (@explain_addsUp 2 (.boolean barred) 2).2 _ .root matched inner⟩

end Query

end Retrieval
