import Retrieval.Proofs.Quorum

/-!
# Documents common to all of several lists

A conjunction of terms goes through the documents that all of them have. Its parts change places in
their row, but none is lost: only a part that refuses to be sent to where the last one stands could
be, and that is never a negative target if it lies ahead. Sent back, all parts stay as they are, and
so does the conjunction.
-/

namespace Retrieval

open Cursor Prospect

namespace PostingCursor

theorem beforeFirst_le_doc (c : PostingCursor) : DocId.beforeFirst ≤ Cursor.doc c := by
  cases started : c.started with
  | true => exact Int32.le_of_lt (beforeFirst_lt_doc started)
  | false =>
      show _ ≤ c.doc
      rw [doc, started, if_neg Bool.false_ne_true]
      exact Int32.le_refl _

end PostingCursor

namespace Conjunction

section Parts

variable {σ : Type} [Cursor σ]

omit [Cursor σ] in
/-- What keeps the number of parts at each step keeps it altogether. -/
theorem length_bind {τ α β : Type} {o : Outcome τ α} {kept : τ → Conjunction σ}
    {next : α → τ → Outcome (Conjunction σ) β} {n : Nat}
    (failed : (kept o.state).parts.length = n)
    (answered : ∀ a, (next a o.state).state.parts.length = n) :
    (o.bind kept next).state.parts.length = n :=
  Outcome.state_bind (fun c : Conjunction σ => c.parts.length = n) failed fun a _ => answered a

omit [Cursor σ] in
theorem length_sweep (move : σ → Outcome σ Bool) (ps : List σ) :
    (sweep move ps).state.length = ps.length := by
  induction ps with
  | nil => rfl
  | cons p rest ih =>
      refine Outcome.state_bind (fun ps : List σ => ps.length = rest.length + 1) rfl
        fun found _ => ?_
      cases found with
      | true => exact congrArg (· + 1) ih
      | false => rfl

theorem length_moveAll (c : Conjunction σ) (move : σ → Outcome σ Bool) :
    (c.moveAll move).state.parts.length = c.parts.length := by
  rw [moveAll]
  split
  · have swept := length_sweep move c.parts
    refine length_bind swept fun found => ?_
    cases found with
    | true => exact (List.length_mergeSort _).trans swept
    | false => exact swept
  · rfl

theorem length_advanceLast (c : Conjunction σ) :
    c.advanceLast.state.parts.length = c.parts.length := by
  rw [advanceLast]
  split
  · split
    · rfl
    · rename_i last there
      have replaced : ∀ p : σ, (c.parts.dropLast ++ [p]).length = c.parts.length := by
        intro p
        have positive : 0 < c.parts.length := List.length_pos_of_mem (List.mem_of_getLast? there)
        rw [List.length_append, List.length_dropLast, List.length_singleton]
        omega
      exact length_bind (replaced _) fun _ => replaced _
  · rfl

end Parts

variable {c : Conjunction PostingCursor} {last : Option (Except Failure Bool)}

/-- The part furthest behind does not refuse to go where another one stands. -/
theorem length_converge (bound : Nat) (c : Conjunction PostingCursor) :
    (c.converge bound).state.parts.length = c.parts.length := by
  induction bound generalizing c with
  | zero => rfl
  | succ bound ih =>
      rw [converge]
      split
      · rfl
      · rename_i first rest parts
        split
        · rename_i apart
          have behind : Cursor.doc first < c.lastDoc := by
            rw [Bool.and_eq_true, decide_eq_true_eq, c.doc_cons parts] at apart
            exact apart.2
          have nonneg : 0 ≤ c.lastDoc := DocId.nonneg_of_beforeFirst_lt
            (Int32.lt_of_le_of_lt first.beforeFirst_le_doc behind)
          rw [first.seek_of_nonneg nonneg, Outcome.bind_done, parts]
          dsimp only
          split
          · rw [ih]
            simp
          · simp [Outcome.done]
        · rfl

theorem length_next (c : Conjunction PostingCursor) :
    c.next.state.parts.length = c.parts.length := by
  have advanced : (if c.fresh then c.start else c.advanceLast).state.parts.length =
      c.parts.length := by
    split
    · exact length_moveAll _ _
    · exact c.length_advanceLast
  rw [next]
  exact length_bind advanced fun _ => (length_converge _ _).trans advanced

theorem length_seek (c : Conjunction PostingCursor) (t : DocId) :
    (c.seek t).state.parts.length = c.parts.length := by
  have started : (if c.fresh then c.start else .done c ()).state.parts.length =
      c.parts.length := by
    split
    · exact length_moveAll _ _
    · rfl
  rw [seek]
  refine length_bind started fun _ => ?_
  have moved := (length_moveAll _ (Cursor.seek · t)).trans started
  exact length_bind moved fun _ => (length_converge _ _).trans moved

theorem state_sumScores (total : Score) (ps : List PostingCursor) :
    (sumScores total ps).state = ps := by
  induction ps generalizing total with
  | nil => rfl
  | cons p rest ih =>
      have same : (Cursor.score p).state = p := p.state_score
      refine Outcome.state_bind (· = p :: rest) (by rw [same]) fun score _ => ?_
      show _ :: _ = _
      rw [same, ih]

/-- Asking for the score leaves the parts as they are. -/
theorem state_score (c : Conjunction PostingCursor) : (Cursor.score c).state = c := by
  show { c with parts := (sumScores 0 c.parts).state } = c
  rw [state_sumScores]

/-- No call changes the number of parts. -/
theorem length_calls {fresh : Conjunction PostingCursor} (calls : Calls fresh last c) :
    c.parts.length = fresh.parts.length := by
  induction calls with
  | start => rfl
  | move _ move _ ih =>
      cases move with
      | next => exact (length_next _).trans ih
      | seek t => exact (length_seek _ t).trans ih
  | score _ ih => rwa [afterScore, state_score]

/-- If no part changes when it is sent back, the conjunction does not either. -/
theorem Together.stays {σ : Type} [Cursor σ] {Ps : List Prospect} {factor : Score} {d t : DocId}
    {v : Option Score} {c : Conjunction σ} (steadfast : Steadfast σ)
    (h : Together Ps factor d v c) (nonneg : 0 ≤ t) (back : t ≤ d)
    (inside : ∀ P ∈ Ps, d ∈ P.holds) : Cursor.seek c t = .done c true := by
  obtain ⟨started, more, -, row, parts, nonempty, covers, inStep⟩ := h
  have agree : ∀ x ∈ row, Cursor.doc x.2 = d := by
    intro x there
    obtain ⟨w, stands⟩ := inStep.stands x there
    exact faithful_stands.doc stands
  have moves : ∀ x ∈ row,
      Moves (Cursor.seek · t) (fun _ p p' => p' = p) (fun _ => False) x := by
    intro x there
    obtain ⟨w, stands⟩ := inStep.stands x there
    have holds := covers.forall_iff.mp inside x there
    obtain ⟨p, eq, -⟩ := faithful_stands.held stands nonneg back holds
    exact .inl ⟨p, eq, steadfast nonneg (agree x there ▸ back) eq⟩
  show c.seek t = _
  rw [seek, if_neg (by simp [started]), Outcome.andThen_done]
  obtain ⟨row', eq, swept⟩ | ⟨-, -, -, -, impossible⟩ := moveAll_spec more parts moves
  · have same : row = row' := by
      refine List.forall₂_eq_eq_eq ▸ swept.imp fun x y h => ?_
      exact Prod.ext h.1.symm h.2.symm
    subst same
    rw [eq, Outcome.andThen_done, arranged_of_agree agree, ← parts]
    refine settle_of_agree (d := d) more ?_ ?_
    · rw [parts]
      simpa [cursors] using nonempty
    · rw [parts]
      exact List.forall_mem_map.mpr agree
  · exact impossible.elim

variable {rule : CoordRule} {terms : List TermQuery} {d : DocId} {v : Score}

/-- The scores of all terms on a document, added from zero in some order, times the factor. -/
theorem sum_of_scores {factor : Score} {n : Nat}
    (scored : (all factor (terms.map TermQuery.prospect)).scores d v n) :
    ∃ xs : List Score, (xs.map some).Perm (terms.map (·.score? d)) ∧
      v = xs.foldl (· + ·) 0 * factor := by
  obtain ⟨Qs, xs, perm, scores, rfl, -⟩ := scored
  have silent : ∀ Q ∈ Qs, Q.Silent := fun Q inside =>
    TermQuery.silent_prospects terms Q (perm.mem_iff.mp inside)
  obtain ⟨ys, scores', perm'⟩ :=
    List.perm_comp_forall₂ perm.symm (silent_scores silent scores).1
  refine ⟨xs.map Prod.fst, ?_, rfl⟩
  have each : ys.map some = terms.map (·.score? d) := by
    rw [← List.forall₂_eq_eq_eq, List.forall₂_map_left_iff, List.forall₂_map_right_iff]
    rw [List.forall₂_map_left_iff] at scores'
    exact scores'.flip.imp fun y q scored => (TermQuery.scores_prospect.mp scored).symm
  exact each ▸ perm'.symm.map some

theorem docs_terms (factor : Score) (nonempty : terms ≠ []) :
    (all factor (terms.map TermQuery.prospect)).docs =
      {d | terms ≠ [] ∧ ∀ q ∈ terms, q.isMatch d = true} := by
  ext d
  refine List.forall_mem_map.trans ((forall₂_congr fun q _ => TermQuery.mem_prospect).trans ?_)
  exact (and_iff_right nonempty).symm

theorem doc_ofParts_terms (rule : CoordRule) (terms : List TermQuery) :
    Cursor.doc (ofParts rule (terms.map TermQuery.cursor)) = .beforeFirst := by
  cases terms with
  | nil => rfl
  | cons q _ => exact q.idle_cursor.doc

theorem steady_terms (terms : List TermQuery) : ∀ P ∈ terms.map TermQuery.prospect, P.Steady :=
  List.forall_mem_map.mpr fun q _ => q.steady_prospect

/-- A conjunction of some terms rests until it is moved, and then leaves out none of the documents.
-/
theorem resting_terms (rule : CoordRule) (nonempty : terms ≠ []) :
    let factor := rule.factor terms.length terms.length
    let Ps := terms.map TermQuery.prospect
    Resting (all factor Ps) (OnCourse (all factor Ps) (Together Ps factor))
      (· = ofParts rule (terms.map TermQuery.cursor)) := by
  intro factor Ps
  have begins : List.Forall₂ Begins (terms.map TermQuery.prospect) (terms.map TermQuery.cursor) :=
    (TermQuery.waits_cursors terms).imp fun _ _ h => h.toStarts
  have starts := starts_ofParts rule (mt List.map_eq_nil_iff.mp nonempty) begins
  rw [List.length_map] at starts
  have prompt := (steady_all (rule.factor terms.length terms.length) (steady_terms terms)).prompt
  exact (starts.onCourse prompt).resting (doc_ofParts_terms rule terms) (state_score _)

theorem faithful_nowhere {D : Set DocId} :
    Faithful (σ := Conjunction PostingCursor) Prospect.nothing D fun _ _ _ => False := by
  constructor <;> exact fun h => h.elim

theorem starts_nil (rule : CoordRule)
    {stands : Set DocId → DocId → Option Score → Conjunction PostingCursor → Prop} :
    Starts Prospect.nothing stands (ofParts rule []) :=
  ⟨.missed _ rfl rfl, fun _ => .missed _ rfl rfl⟩

/-- Without terms there is nothing to go through. -/
theorem traverses_nil {given : DocId → Score → Prop} (calls : Calls (ofParts rule []) last c)
    (going : last = none ∨ last = some (.ok true)) : last = none ∧ Traverses ∅ given last c := by
  have starts : Starts Prospect.nothing (OnCourse Prospect.nothing fun _ _ _ => False)
      (ofParts rule []) := starts_nil rule
  have resting := starts.resting rfl (state_score _)
  refine ⟨going.resolve_right ?_, ?_⟩
  · rintro rfl
    obtain ⟨d, v, stood, -⟩ := calls.stood faithful_nowhere resting rfl
    exact stood
  · have prompt : Prospect.nothing.Prompt := fun t => (Set.empty_inter (since t)).symm
    refine (calls.traverses faithful_nowhere prompt resting (fun same => same ▸ rfl) rfl
      going).imp ?_
    exact fun d v ⟨_, scored⟩ => scored.elim

/-- A conjunction of terms goes through the documents that all of them have, whatever the calls are,
and keeps all its parts. Sent back from a document, it stays as it is. The score on a document is a
sum of the scores of all terms from zero, times the factor for all of them. -/
theorem traverses_common (rule : CoordRule) (terms : List TermQuery)
    (calls : Calls (ofParts rule (terms.map TermQuery.cursor)) last c) :
    c.parts.length = terms.length ∧ (last = none ∨ last = some (.ok true) →
      Traverses {d | terms ≠ [] ∧ ∀ q ∈ terms, q.isMatch d = true}
        (fun d v => ∃ xs : List Score, (xs.map some).Perm (terms.map (·.score? d)) ∧
          v = xs.foldl (· + ·) 0 * rule.factor terms.length terms.length) last c ∧
      ∀ t, 0 ≤ t → t ≤ Cursor.doc c → Cursor.seek c t = .done c true) := by
  refine ⟨(length_calls calls).trans (List.length_map _), fun going => ?_⟩
  by_cases empty : terms = []
  · subst empty
    obtain ⟨none, traverses⟩ := traverses_nil calls going
    rw [show {d : DocId | ([] : List TermQuery) ≠ [] ∧ _} = ∅ by simp]
    refine ⟨traverses, fun t nonneg back => ?_⟩
    have moved := traverses.moved going nonneg back
    rw [none] at moved
    nomatch moved
  have steady := steady_terms terms
  have prompt := (steady_all (rule.factor terms.length terms.length) steady).prompt
  have resting := resting_terms rule empty
  have traverses := calls.traverses faithful_together prompt resting
    (fun same => same ▸ doc_ofParts_terms rule terms) rfl going
  rw [docs_terms _ empty] at traverses
  refine ⟨traverses.imp fun d v ⟨n, scored⟩ => sum_of_scores scored, fun t nonneg back => ?_⟩
  obtain rfl := traverses.moved going nonneg back
  obtain ⟨d, v, together, -⟩ := calls.stood faithful_together resting rfl
  rw [show Cursor.doc c = d from together.doc_eq] at back
  exact together.stays PostingCursor.steadfast nonneg back fun P inside =>
    (steady P inside).holds ▸ Set.mem_univ d

def overlapping : List TermQuery :=
  [⟨"first", ⟨#[⟨1, 1⟩, ⟨4, 1⟩, ⟨7, 1⟩], by decide, by decide⟩, 1⟩,
    ⟨"second", ⟨#[⟨4, 1⟩, ⟨6, 1⟩, ⟨7, 1⟩], by decide, by decide⟩, 1⟩]

/-- Sent to the first common document, and then sent back. -/
theorem traverses_common_overlapping : ∃ c,
    Calls (ofParts .fraction (overlapping.map TermQuery.cursor)) (some (.ok true)) c ∧
    c.parts.length = overlapping.length ∧ (0 : DocId) ≤ 2 ∧ (2 : DocId) ≤ Cursor.doc c ∧
    Cursor.seek c 2 = .done c true := by
  obtain ⟨-, through⟩ := traverses_common .fraction overlapping .start
  have finds := (through (.inl rfl)).1.ahead 3 (by decide)
  cases finds with
  | missed c eq empty =>
      have common : (4 : DocId) ∈
          {d | overlapping ≠ [] ∧ ∀ q ∈ overlapping, q.isMatch d = true} := by
        exact ⟨by decide, by decide⟩
      have later : (3 : DocId) ≤ 4 := by decide
      exact absurd (⟨common, later⟩ : 4 ∈ _ ∩ since 3)
        (Set.eq_empty_iff_forall_notMem.mp empty 4)
  | found d c eq least place =>
      have moved : (Move.seek 3).make (ofParts .fraction (overlapping.map TermQuery.cursor)) =
        .done c true := eq
      have nonneg : (Move.seek 3).Admissible := show (0 : DocId) ≤ 3 by decide
      have calls : Calls (ofParts .fraction (overlapping.map TermQuery.cursor)) _ _ :=
        .move .start (.seek 3) nonneg
      rw [moved] at calls
      obtain ⟨length, through⟩ := traverses_common .fraction overlapping calls
      have back : (2 : DocId) ≤ Cursor.doc c :=
        place ▸ Int32.le_trans (by decide) (show (3 : DocId) ≤ d from least.1.2)
      exact ⟨c, calls, length, by decide, back, (through (.inr rfl)).2 2 (by decide) back⟩

end Conjunction

end Retrieval
