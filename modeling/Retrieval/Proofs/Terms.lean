import Retrieval.Proofs.Posting
import Retrieval.Proofs.Search
import Retrieval.Query.Search

/-!
# Searching for terms

A boolean search over terms visits exactly the documents that its clauses accept, in ascending
order, and scores each by the terms that match it.
-/

namespace Retrieval

namespace TermQuery

def isMatch (q : TermQuery) (doc : DocId) : Bool := decide (doc ∈ q.list.docs)

def score? (q : TermQuery) (doc : DocId) : Option Score :=
  (q.list.get? doc).map fun posting => posting.weight * q.boost

def prospect (q : TermQuery) : Prospect := .ofList q.list q.boost

variable {q : TermQuery} {d : DocId}

theorem mem_prospect : d ∈ q.prospect.docs ↔ q.isMatch d = true :=
  (decide_eq_true_iff (p := d ∈ q.list.docs)).symm

theorem isMatch_iff_window (q : TermQuery) :
    (q.prospect.docs ∩ {d}).Nonempty ↔ q.isMatch d = true :=
  Prospect.mem_singleton_window.trans mem_prospect

theorem idle_cursor (q : TermQuery) : Cursor.Idle q.prospect q.cursor :=
  q.list.idle_cursor q.boost

theorem silent_prospect (q : TermQuery) : q.prospect.Silent := fun _ _ _ scored => scored.1

theorem scores_prospect {v : Score} : q.prospect.scores d v 0 ↔ q.score? d = some v := by
  simp [prospect, Prospect.ofList, score?, eq_comm]

/-- The scores that the matching terms give to a document. -/
theorem filterMap_score? {qs : List TermQuery} {xs : List Score}
    (scores : List.Forall₂ (fun P x => P.scores d x 0)
      ((qs.filter (·.isMatch d)).map prospect) xs) : xs = qs.filterMap (·.score? d) := by
  induction qs generalizing xs with
  | nil =>
      cases scores
      rfl
  | cons q qs ih =>
      by_cases inside : q.isMatch d = true
      · rw [List.filter_cons_of_pos (p := (TermQuery.isMatch · d)) inside, List.map_cons] at scores
        cases scores with
        | cons scored rest =>
            rw [List.filterMap_cons_some (f := (TermQuery.score? · d)) (scores_prospect.mp scored),
              ih rest]
      · rw [List.filter_cons_of_neg (p := (TermQuery.isMatch · d)) inside] at scores
        have none : q.score? d = none := by
          rw [score?, Option.map_eq_none_iff, ← Option.not_isSome_iff_eq_none,
            PostingList.get?_isSome_iff]
          exact fun there => inside (mem_prospect.mp there)
        rw [List.filterMap_cons_none (f := (TermQuery.score? · d)) none, ih scores]

end TermQuery

def BooleanCursor.ofTerms (rule : CoordRule) (rules : ClauseRules)
    (terms : List (Role × TermQuery)) : Except Failure (BooleanCursor PostingCursor) :=
  build rule rules (terms.map fun x => (x.1, x.2.cursor))

namespace BooleanCursor

open Boolean Cursor Prospect

variable {rules : ClauseRules} {rule : CoordRule} {terms : List (Role × TermQuery)}
variable {search : BooleanCursor PostingCursor} {d t : DocId}

def prospects (terms : List (Role × TermQuery)) : List (Role × Prospect) :=
  terms.map fun x => (x.1, x.2.prospect)

theorem silent_prospects (terms : List (Role × TermQuery)) : ∀ x ∈ prospects terms, x.2.Silent :=
  List.forall_mem_map.mpr fun x _ => x.2.silent_prospect

theorem length_counting_prospects (terms : List (Role × TermQuery)) :
    (counting (prospects terms)).length = (counting terms).length := by
  rw [prospects, counting_map, List.length_map]

theorem mem_ofRoles_prospects {T : Set DocId} :
    d ∈ (ofRoles rules (prospects terms) T).docs ↔ accepts rules terms (·.isMatch d) = true :=
  mem_ofRoles fun _ _ => TermQuery.mem_prospect

theorem starts_ofTerms (made : ofTerms rule rules terms = .ok search) :
    Starts ((ofRoles rules (prospects terms) Set.univ).coordinated rule (counting terms).length)
      (fun D d _ => Opening (ofRoles rules (prospects terms)) D rule (counting terms).length d)
      search := by
  have idle : List.Forall₂ (fun x c => x.1 = c.1 ∧ Idle x.2 c.2) (prospects terms)
      (terms.map fun x => (x.1, x.2.cursor)) := by
    rw [prospects, List.forall₂_map_left_iff, List.forall₂_map_right_iff, List.forall₂_same]
    exact fun x _ => ⟨rfl, x.2.idle_cursor⟩
  rw [← length_counting_prospects]
  exact starts_build (silent_prospects terms) idle made

theorem scores_prospects_le (rules : ClauseRules) (terms : List (Role × TermQuery)) :
    ∀ T d s n, (ofRoles rules (prospects terms) T).scores d s n → n ≤ (counting terms).length := by
  rw [← length_counting_prospects]
  exact scores_ofRoles_le rules (silent_prospects terms)

/-- The score of an accepted document, and how many terms are counted for it. -/
theorem scores_ofRoles_prospects {T : Set DocId} {s : Score} {n : Nat}
    (accepted : accepts rules terms (·.isMatch d) = true)
    (scored : (ofRoles rules (prospects terms) T).scores d s n) :
    ScoreSum ((counting terms).filterMap (·.score? d)) s ∧ n = matchCount terms (·.isMatch d) := by
  have agree : ∀ x ∈ terms, d ∈ x.2.prospect.docs ↔ x.2.isMatch d = true :=
    fun _ _ => TermQuery.mem_prospect
  obtain ⟨Qs, graded, tallied⟩ :=
    graded_ofRoles (TermQuery.isMatch · d) (fun x _ => x.2.silent_prospect) agree accepted scored
  have required : ∀ R ∈ (byRole .required terms).map TermQuery.prospect, d ∈ R.docs := by
    refine List.forall_mem_map.mpr fun q inside => ?_
    exact TermQuery.mem_prospect.mpr ((accepts_iff.mp accepted).1 q inside)
  have anywhere : ∀ O ∈ (byRole .optional terms).map TermQuery.prospect, ∀ t ≤ d,
      d ∈ O.docsFrom t ↔ d ∈ O.docs := by
    refine List.forall_mem_map.mpr fun q _ t le => ?_
    exact and_iff_left (mem_since.mpr le)
  obtain rfl := tallied.eq_meeting required anywhere
  rw [meeting_counting (TermQuery.isMatch · d) agree] at graded
  obtain ⟨rfl, xs, scores, sum⟩ := graded
  rw [TermQuery.filterMap_score? scores] at sum
  refine ⟨sum, ?_⟩
  rw [List.length_map, matchCount, List.countP_eq_length_filter]

/-- As long as clauses can be counted in a word, none is lost from the count. -/
theorem matchCount_mod (word : rules.maxClauses < 2 ^ 64)
    (made : ofTerms rule rules terms = .ok search) :
    matchCount terms (·.isMatch d) % 2 ^ 64 = matchCount terms (·.isMatch d) := by
  obtain ⟨-, room, -⟩ := build_eq_ok.mp made
  rw [List.length_map] at room
  have counted := Nat.le_trans (matchCount_le terms (·.isMatch d)) (length_counting_le terms)
  exact Nat.mod_eq_of_lt (Nat.lt_of_le_of_lt (Nat.le_trans counted room) word)

/-- A search for terms, run by moves to the next document with any number of requests for scores in
between. The documents visited ascend and are accepted, there are only so many, and every move
answers; when one finds no more, no accepted document has been left out. Every request on a document
is answered by a sum of the scores of the matching terms times the factor for their number, and
leaves them counted. -/
theorem walk_ofTerms (word : rules.maxClauses < 2 ^ 64)
    (made : ofTerms rule rules terms = .ok search) {visited : List DocId}
    {c : BooleanCursor PostingCursor} (walk : Walk 0 search visited c) :
    visited.Pairwise (· < ·) ∧ (∀ d ∈ visited, accepts rules terms (·.isMatch d) = true) ∧
      visited.length ≤ Cursor.movesLeft search ∧
      ((Cursor.next c).answer = .ok true ∨ (Cursor.next c).answer = .ok false ∧
        ∀ d, accepts rules terms (·.isMatch d) = true → d ∈ visited) ∧
      ∀ d, visited.getLast? = some d → ∃ s, ScoreSum ((counting terms).filterMap (·.score? d)) s ∧
        (Cursor.score c).answer =
          .ok (s * rule.factor (matchCount terms (·.isMatch d)) (counting terms).length) ∧
        (Cursor.score c).state.matched.toNat = matchCount terms (·.isMatch d) := by
  have bounded := scores_prospects_le rules terms
  have setsOut := setsOut_any bounded (starts_ofTerms made).next
  have kept : ∀ _ : DocId, Faithful _ _ (Standing (σ := PostingCursor)
      (ofRoles rules (prospects terms) Set.univ)
      (ofRoles rules (prospects terms) Set.univ).docs rule (counting terms).length) :=
    fun _ => faithful_standing (bounded Set.univ)
  obtain ⟨ascending, inside, few, moves⟩ := walk.visits setsOut kept
  refine ⟨ascending, fun d there => mem_ofRoles_prospects.mp (inside d there), few, ?_, ?_⟩
  · cases moves with
    | inl found => exact .inl found
    | inr ended =>
        refine .inr ⟨ended.1, fun d accepted => ?_⟩
        exact ended.2 d (mem_ofRoles_prospects.mpr accepted)
  · intro d last
    obtain ⟨rfl, -⟩ | ⟨first, e, h⟩ := walk.stood setsOut kept
    · exact absurd last (by simp)
    obtain rfl : e = d := Option.some.inj (h.last.symm.trans last)
    obtain ⟨v, stood, -⟩ := h.stood
    obtain ⟨s, n, scored, answer, matched⟩ := stood.score (bounded Set.univ)
    have accepted := mem_ofRoles_prospects.mp (inside e (List.mem_of_getLast? last))
    obtain ⟨sum, rfl⟩ := scores_ofRoles_prospects accepted scored
    rw [matchCount_mod word made] at answer
    refine ⟨s, sum, answer, ?_⟩
    rw [matched, UInt64.toNat_ofNat', matchCount_mod word made]

def oneOfEach : List (Role × TermQuery) :=
  [(.required, ⟨"both", ⟨#[⟨1, 1⟩, ⟨2, 1⟩], by decide, by decide⟩, 1⟩),
    (.optional, ⟨"second", ⟨#[⟨2, 1⟩], by decide, by decide⟩, 1⟩),
    (.prohibited, ⟨"first", ⟨#[⟨1, 1⟩], by decide, by decide⟩, 1⟩)]

/-- A search that visits the second document only, and scores it again. -/
theorem walk_oneOfEach : ({} : ClauseRules).maxClauses < 2 ^ 64 ∧
    ∃ search, ofTerms .fraction {} oneOfEach = .ok search ∧ ∃ c, Walk 0 search [2] c ∧
      ∃ s, ScoreSum ((counting oneOfEach).filterMap (·.score? 2)) s ∧
        (Cursor.score c).answer = .ok (s * CoordRule.fraction.factor 2 2) ∧
        (Cursor.score c).state.matched.toNat = 2 := by
  let search : BooleanCursor PostingCursor :=
    ofClauses {} .fraction (({} : Clauses _).addAll (oneOfEach.map fun x => (x.1, x.2.cursor)))
  have word : ({} : ClauseRules).maxClauses < 2 ^ 64 := by decide
  have made : ofTerms .fraction {} oneOfEach = .ok search := rfl
  have found : (Cursor.next search).answer = .ok true := by decide +kernel
  have place : Cursor.doc (Cursor.next search).state = 2 := by decide +kernel
  have walk : Walk 0 search [Cursor.doc (Cursor.next search).state]
      (afterScore^[1] (Cursor.next search).state) := .visit .start found (Nat.zero_le 1)
  rw [place] at walk
  exact ⟨word, search, made, _, walk, (walk_ofTerms word made walk).2.2.2.2 2 rfl⟩

end BooleanCursor

end Retrieval
