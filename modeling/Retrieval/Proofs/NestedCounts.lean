import Retrieval.Proofs.Explained
import Retrieval.Proofs.FirstSeek

/-!
# Counts in nested searches

A search whose clauses are nested queries counts, for each document it scores, the clauses whose
explanations stand for a match. The exception is a single optional clause that only adds to the
scores. It is counted for the documents that it goes through after a seek to the first document
scored, and where such a seek does not have the effect expected of it, the count is wrong.
-/

namespace Retrieval

open Boolean Cursor Prospect

namespace BooleanQuery

variable {height : Nat} {q : BooleanQuery (Query height)} {first d : DocId}

/-- Whether a document is misjudged if the first one scored is `first`: the only optional clause
just adds to the scores, and whether its cursor, started by a seek to `first`, goes through the
document is not the same as whether the clause matches it. -/
def Misjudges (q : BooleanQuery (Query height)) (first d : DocId) : Prop :=
  Lone q.rules.minOptional (byRole .required q.clauses) (byRole .optional q.clauses) ∧
    ∃ clause ∈ byRole .optional q.clauses, ∃ c, clause.cursor = .ok c ∧
      ¬ (GoesThrough c first d ↔ clause.isMatch d = true)

/-- The clauses counted, given that the first document scored is `first`. -/
theorem exists_tallied (q : BooleanQuery (Query height)) : ∃ search,
    q.cursor Query.cursor = .ok search ∧ ∀ {visited c first d}, Walk 1 search visited c →
      visited.head? = some first → visited.getLast? = some d →
        0 ≤ first ∧ accepts q.rules q.clauses (·.isMatch d) = true ∧
        ∃ Qs, c.matched = .ofNat Qs.length ∧
          Qs.length ≤ (counting q.clauses).length ∧
          Tallied q.rules.minOptional ((byRole .required q.clauses).map Query.prospect)
            ((byRole .optional q.clauses).map Query.prospect) {first} d Qs := by
  obtain ⟨added, search, built, made, idle⟩ :=
    exists_build (q := q) fun clause => clause.exists_cursor
  have silent : ∀ x ∈ q.clauses.map fun x => (x.1, x.2.prospect), x.2.Silent :=
    List.forall_mem_map.mpr fun x _ => x.2.silent_prospect
  have bounded := scores_ofRoles_le q.rules silent
  have starts := BooleanCursor.starts_build silent idle built
  have setsOut := BooleanCursor.setsOut_each bounded starts.next
  refine ⟨search, made, fun {visited c first d} walk head last => ?_⟩
  obtain ⟨rfl, -⟩ | ⟨first', d', h⟩ :=
    walk.stood setsOut fun first => BooleanCursor.faithful_standing (bounded {first})
  · exact absurd head (by simp)
  obtain rfl : first' = first := Option.some.inj (h.head.symm.trans head)
  obtain rfl : d' = d := Option.some.inj (h.last.symm.trans last)
  have agree : ∀ x ∈ q.clauses, d' ∈ x.2.prospect.docs ↔ x.2.isMatch d' = true :=
    fun x _ => x.2.mem_prospect
  have accepted : accepts q.rules q.clauses (·.isMatch d') = true := by
    have inside := (h.all d').mp (List.mem_of_getLast? last)
    exact (mem_ofRoles agree).mp inside.1
  obtain ⟨v, stood, given⟩ := h.stood
  obtain ⟨w, rfl⟩ := Option.isSome_iff_exists.mp (given Nat.one_pos)
  obtain ⟨s, n, scored, -, matched⟩ := stood.told
  have few := bounded {first'} d' s n scored
  rw [counting_map (fun clause : Query height => clause.prospect), List.length_map] at few
  obtain ⟨Qs, ⟨rfl, -⟩, tallied⟩ := graded_ofRoles (Query.isMatch · d')
    (fun x _ => x.2.silent_prospect) agree accepted scored
  exact ⟨h.nonneg, accepted, Qs, matched, few, tallied⟩

/-- As many clauses are counted as match the document, exactly if it is not misjudged. -/
theorem length_tallied {Qs : List Prospect} (nonneg : 0 ≤ first)
    (accepted : accepts q.rules q.clauses (·.isMatch d) = true)
    (tallied : Tallied q.rules.minOptional ((byRole .required q.clauses).map Query.prospect)
      ((byRole .optional q.clauses).map Query.prospect) {first} d Qs) :
    Qs.length = matchCount q.clauses (·.isMatch d) ↔ ¬ Misjudges q first d := by
  have sameShape : Lone q.rules.minOptional ((byRole .required q.clauses).map Query.prospect)
      ((byRole .optional q.clauses).map Query.prospect) ↔
        Lone q.rules.minOptional (byRole .required q.clauses) (byRole .optional q.clauses) := by
    simp [Lone]
  by_cases lone : Lone q.rules.minOptional (byRole .required q.clauses) (byRole .optional q.clauses)
  · obtain ⟨t, rfl, -, rfl⟩ := tallied.lone (sameShape.mpr lone)
    obtain ⟨clause, only⟩ := List.length_eq_one_iff.mp lone.2.2
    have required : (byRole .required q.clauses).countP (·.isMatch d) =
        (byRole .required q.clauses).length :=
      List.countP_eq_length.mpr (accepts_iff.mp accepted).1
    have misjudged : Misjudges q t d ↔
        ¬ (d ∈ clause.prospect.docsFrom t ↔ clause.isMatch d = true) := by
      obtain ⟨c, made, -⟩ := clause.exists_cursor
      rw [Misjudges, and_iff_right lone, only]
      simp [made, Query.goesThrough_iff made nonneg]
    rw [misjudged, not_not, matchCount, counting, List.countP_append, required, only,
      List.map_singleton, List.length_append, List.length_map, Nat.add_left_cancel_iff,
      List.countP_singleton]
    by_cases reached : d ∈ clause.prospect.docsFrom t
    · simp [reaching_of_mem reached, reached]
    · simp [reaching_of_notMem reached, reached]
  · have agree : ∀ x ∈ q.clauses, d ∈ x.2.prospect.docs ↔ x.2.isMatch d = true :=
      fun x _ => x.2.mem_prospect
    rw [tallied.usual (mt sameShape.mp lone), meeting_counting (Query.isMatch · d) agree,
      List.length_map, ← List.countP_eq_length_filter]
    exact iff_of_true rfl fun misjudged => lone misjudged.1

theorem matchCount_explain (clauses : List (Role × Query height)) (d : DocId) :
    matchCount clauses (fun clause => (clause.explain d).matched) =
      matchCount clauses (·.isMatch d) :=
  congrArg (matchCount clauses) (funext fun clause => clause.matched_explain d)

/-- A search for a query goes from document to document and scores each. On a document it has then
counted as many clauses as have explanations that stand for a match, exactly if the document is not
misjudged. -/
theorem walk_counts_explained (q : BooleanQuery (Query height))
    (word : q.rules.maxClauses < 2 ^ 64) : ∃ search, q.cursor Query.cursor = .ok search ∧
      ∀ {visited c first d}, Walk 1 search visited c → visited.head? = some first →
        visited.getLast? = some d →
          (c.matched.toNat = matchCount q.clauses (fun clause => (clause.explain d).matched) ↔
            ¬ Misjudges q first d) := by
  obtain ⟨search, made, counts⟩ := q.exists_tallied
  refine ⟨search, made, fun {visited c first d} walk head last => ?_⟩
  obtain ⟨nonneg, accepted, Qs, matched, few, tallied⟩ := counts walk head last
  have clauses : Qs.length ≤ q.rules.maxClauses :=
    Nat.le_trans few (Nat.le_trans (length_counting_le q.clauses) q.bounded)
  rw [matched, UInt64.toNat_ofNat', Nat.mod_eq_of_lt (Nat.lt_of_le_of_lt clauses word),
    matchCount_explain]
  exact length_tallied nonneg accepted tallied

/-- A query in which one of two optional terms has to match next to a required one. -/
def inner : Query 2 :=
  .boolean {
    rules := { minOptional := 1 }
    rule := .fraction
    clauses := BooleanCursor.threefold.map fun x => (x.1, .term x.2)
    usable := Query.usable_default
    bounded := by decide }

def outer : BooleanQuery (Query 2) where
  rules := {}
  rule := .fraction
  clauses := [(.required, .term BooleanCursor.five), (.optional, inner)]
  usable := Query.usable_default
  bounded := by decide

/-- The inner query has only one document, and a first seek to it does not find it. -/
theorem notMem_docsFrom_inner : 5 ∉ inner.prospect.docsFrom 5 := by
  intro inside
  have goes : 5 ∈ (ofRoles { minOptional := 1 } (BooleanCursor.prospects
      BooleanCursor.threefold) Set.univ).docsFrom 5 := inside
  exact (BooleanCursor.mem_docsFrom_ofTerms.mp goes).2.2 BooleanCursor.stalls_threefold

/-- A search for the outer query, scored once on its only document. -/
theorem walk_outer {search : BooleanCursor (Tree 2)}
    (made : outer.cursor Query.cursor = .ok search) :
    Walk 1 search [5] (afterScore (Cursor.next search).state) := by
  have moved : (outer.cursor Query.cursor).map (fun search =>
      ((Cursor.next search).answer, Cursor.doc (Cursor.next search).state)) =
        .ok (.ok true, 5) := by
    decide +kernel
  rw [made] at moved
  obtain ⟨found, place⟩ := Prod.mk.inj (Except.ok.inj moved)
  have walk : Walk 1 search [Cursor.doc (Cursor.next search).state]
      (afterScore^[1] (Cursor.next search).state) := .visit .start found (Nat.le_refl 1)
  rwa [place] at walk

/-- The optional clause of the outer query is not counted for a document that it matches. -/
theorem walk_miscounts : ∃ search c, outer.cursor Query.cursor = .ok search ∧ Walk 1 search [5] c ∧
    c.matched.toNat = 1 ∧
    matchCount outer.clauses (fun clause => (clause.explain 5).matched) = 2 := by
  obtain ⟨search, made, counts⟩ := outer.exists_tallied
  have walk := walk_outer made
  have last : [(5 : DocId)].getLast? = some 5 := rfl
  obtain ⟨-, -, Qs, matched, -, tallied⟩ := counts walk rfl last
  have lone : Lone 0 ((byRole .required outer.clauses).map Query.prospect)
      ((byRole .optional outer.clauses).map Query.prospect) := ⟨by simp [outer, byRole], rfl, rfl⟩
  obtain ⟨t, rfl, -, rfl⟩ := tallied.lone lone
  refine ⟨search, _, made, walk, ?_, ?_⟩
  · have optional : (byRole .optional outer.clauses).map Query.prospect = [inner.prospect] := rfl
    rw [matched, optional, reaching_of_notMem notMem_docsFrom_inner]
    rfl
  · rw [matchCount_explain]
    decide

/-- The outer query misjudges its only document. -/
theorem walk_counts_explained_outer : outer.rules.maxClauses < 2 ^ 64 ∧
    ∃ search, outer.cursor Query.cursor = .ok search ∧ ∃ c, Walk 1 search [5] c ∧
      c.matched.toNat ≠ matchCount outer.clauses fun clause => (clause.explain 5).matched := by
  have word : outer.rules.maxClauses < 2 ^ 64 := by decide
  obtain ⟨search, made, counts⟩ := walk_counts_explained outer word
  have misjudged : Misjudges outer 5 5 := by
    obtain ⟨c, made, -⟩ := inner.exists_cursor
    refine ⟨⟨by decide, rfl, rfl⟩, inner, List.mem_singleton_self inner, c, made, ?_⟩
    rw [Query.goesThrough_iff made (by decide)]
    exact fun same => notMem_docsFrom_inner (same.mpr (by decide))
  exact ⟨word, search, made, _, walk_outer made, fun same =>
    (counts (walk_outer made) rfl rfl).mp same misjudged⟩

end BooleanQuery

end Retrieval
