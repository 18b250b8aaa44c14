import Retrieval.Proofs.Convergence

/-!
# Conjunctions keep their promise

Every call moves or scores all parts of a conjunction. After a move they are brought together again.

Started by a seek, a conjunction first puts every part on its first document and only then sends it
to the target, which may lie behind. A part that does not hold its place then ends the search.
-/

namespace Retrieval

namespace Conjunction

open Cursor

variable {σ : Type} {Ps : List Prospect} [Cursor σ]

variable {factor : Score} {d t : DocId} {v : Option Score} {c : Conjunction σ}

theorem Together.stands (h : Together Ps factor d v c) : ∃ row : List (Prospect × σ),
    c.parts = cursors row ∧ row ≠ [] ∧ Covers Ps row ∧
      ∀ x ∈ row, ∃ v, Stands x.1 x.1.docs d v x.2 := by
  obtain ⟨-, -, -, row, parts, nonempty, covers, inStep⟩ := h
  exact ⟨row, parts, nonempty, covers, inStep.stands⟩

theorem Together.doc_eq (h : Together Ps factor d v c) : c.doc = d := by
  obtain ⟨row, parts, nonempty, -, standing⟩ := h.stands
  obtain ⟨x, rest, rfl⟩ := List.exists_cons_of_ne_nil nonempty
  obtain ⟨v, stands⟩ := standing x List.mem_cons_self
  rw [c.doc_cons parts, faithful_stands.doc stands]

/-- The last part has been moved on from the document that all parts stood on. -/
theorem converging_of_last {front : List (Prospect × σ)} {z : Prospect × σ} {e : DocId} {p : σ}
    (covers : Covers Ps (front ++ [z]))
    (standing : ∀ y ∈ front, ∃ v, Stands y.1 y.1.docs d v y.2)
    (least : IsLeast (z.1.docs ∩ beyond d) e) (stood : Stands z.1 z.1.docs e none p) :
    Converging Ps (beyond d) (front ++ [(z.1, p)]) := by
  have place : Cursor.doc p = e := faithful_stands.doc stood
  have later : d < e := least.1.2
  have atDoc : ∀ y ∈ front, Cursor.doc y.2 = d := by
    intro y inside
    obtain ⟨w, stands⟩ := standing y inside
    exact faithful_stands.doc stands
  constructor
  case nonempty => simp
  case covers => exact (List.Perm.of_eq (by simp)).trans covers
  case ascending =>
    refine List.pairwise_append.mpr ⟨List.pairwise_of_forall_mem_list ?_, by simp, ?_⟩
    · intro x hx y hy
      rw [atDoc x hx, atDoc y hy]
      exact Int32.le_refl d
    · intro x hx y hy
      rw [atDoc x hx, List.mem_singleton.mp hy, place]
      exact Int32.le_of_lt later
  case reached =>
    intro front' last same
    obtain ⟨-, same⟩ := List.append_inj' same rfl
    rw [← (List.cons.inj same).1, place]
    exact later
  case behind =>
    intro m inside common x there
    obtain there | there := List.mem_append.mp there
    · rw [atDoc x there]
      exact Int32.le_of_lt inside
    · rw [List.mem_singleton.mp there, place]
      exact least.2 ⟨common (z.1, p) (by simp), inside⟩
  case unscored =>
    intro x there
    obtain there | there := List.mem_append.mp there
    · obtain ⟨w, stands⟩ := standing x there
      rw [atDoc x there]
      exact ⟨w, stands, fun inside => absurd inside Int32.lt_irrefl⟩
    · rw [List.mem_singleton.mp there, place]
      exact ⟨none, stood, fun _ => rfl⟩

/-- Moving on the last part and bringing all together finds the next common document. -/
theorem Together.next (h : Together Ps factor d v c) :
    c.next.Finds ({d | ∀ P ∈ Ps, d ∈ P.docs} ∩ beyond d) fun e c' =>
      Together Ps factor e none c' ∧ c'.movesLeft < c.movesLeft := by
  obtain ⟨row, parts, nonempty, covers, standing⟩ := h.stands
  obtain ⟨started, more, rfl, -⟩ := h
  obtain ⟨front, z, rfl⟩ := (List.eq_nil_or_concat' row).resolve_left nonempty
  have split : c.parts = cursors front ++ [z.2] := by simp [parts, cursors]
  have unfolded : c.next = (Cursor.next z.2).bind
      (fun last => { c with parts := cursors front ++ [last] })
        fun found last => { c with parts := cursors front ++ [last], more := found }.settle := by
    rw [Conjunction.next, if_neg (by simp [started]), advanceLast, if_pos more, split]
    simp only [List.getLast?_concat, List.dropLast_concat, Outcome.bind_andThen,
      Outcome.andThen_done]
  rw [unfolded]
  obtain ⟨v', stands⟩ := standing z (by simp)
  cases faithful_stands.next stands with
  | missed p eq empty =>
      rw [eq, Outcome.bind_done, settle_of_not_more rfl]
      exact .missed _ rfl (covers.common_eq_empty (by simp) empty)
  | found e p eq least stood =>
      obtain ⟨stood, fewer⟩ := stood
      rw [eq, Outcome.bind_done]
      have converging := converging_of_last covers
        (fun y inside => standing y (List.mem_append_left _ inside)) least stood
      refine (settle_finds (c := { c with parts := cursors front ++ [p], more := true })
        (isUpperSet_beyond d) started rfl (by simp [cursors]) converging).imp ?_
      intro e' c' _ stood'
      refine ⟨stood'.1, ?_⟩
      have used := stood'.2
      simp only [movesLeftInAll_append, movesLeftInAll] at used
      simp only [movesLeft, stood'.1.1, started, split, movesLeftInAll_append, movesLeftInAll]
      simp only [Bool.false_eq_true, if_false]
      omega

/-- Sending every part to a later target and bringing all together finds the first common document
from there. -/
theorem Together.ahead (h : Together Ps factor d v c) (later : d < t) :
    (c.seek t).Finds ({d | ∀ P ∈ Ps, d ∈ P.docs} ∩ since t) fun e c' =>
      Together Ps factor e none c' ∧ c'.movesLeft < c.movesLeft := by
  obtain ⟨row, parts, nonempty, covers, standing⟩ := h.stands
  obtain ⟨started, more, rfl, -⟩ := h
  rw [seek, if_neg (by simp [started]), Outcome.andThen_done]
  have moves : ∀ x ∈ row, Moves (Cursor.seek · t) (Advanced 1 (since t))
      (fun P => P.docs ∩ since t = ∅) x := by
    intro x inside
    obtain ⟨w, stands⟩ := standing x inside
    exact moves_of_finds (faithful_stands.ahead stands later)
  obtain ⟨row', eq, swept⟩ | ⟨parts', eq, x, inside, empty⟩ := moveAll_spec more parts moves
  · rw [eq, Outcome.andThen_done]
    refine (settle_swept (c := { c with parts := cursors (arranged row') }) (isUpperSet_since t)
      started more rfl nonempty covers swept).imp fun e c' _ stood => ⟨stood.1, ?_⟩
    have positive := List.length_pos_iff.mpr nonempty
    have used := stood.2
    simp only [movesLeft, stood.1.1, started, parts, Bool.false_eq_true, if_false]
    omega
  · rw [eq, Outcome.andThen_done, settle_of_not_more rfl]
    exact .missed _ rfl (covers.common_eq_empty inside empty)

/-- A part that is sent back keeps its place. -/
structure Kept (d : DocId) (P : Prospect) (p p' : σ) : Prop where
  stood : ∀ v, Stands P P.docs d v p → Stands P P.docs d v p'
  place : Cursor.doc p' = d
  used : Cursor.movesLeft p' + 0 ≤ Cursor.movesLeft p

theorem moves_of_held {bad : Prospect → Prop} {x : Prospect × σ}
    (stands : Stands x.1 x.1.docs d v x.2) (nonneg : 0 ≤ t) (back : t ≤ d) (holds : d ∈ x.1.holds) :
    Moves (Cursor.seek · t) (Kept d) bad x := by
  obtain ⟨p, eq, fewer, stood⟩ := stands.held nonneg back holds
  exact .inl ⟨p, eq, stood, faithful_stands.doc (stood v stands), fewer⟩

theorem InStep.kept {row row' : List (Prospect × σ)} (swept : Swept (Kept d) row row')
    (h : InStep factor d row v) : InStep factor d row' v := by
  cases v with
  | none =>
      induction swept with
      | nil => exact h
      | cons kept _ ih =>
          intro y inside
          obtain rfl | inside := List.mem_cons.mp inside
          · exact kept.1 ▸ kept.2.stood none (h _ List.mem_cons_self)
          · exact ih (fun x there => h x (List.mem_cons_of_mem _ there)) y inside
  | some s =>
      obtain ⟨xs, standing, sum⟩ := h
      refine ⟨xs, ?_, sum⟩
      clear sum
      induction swept generalizing xs with
      | nil => exact standing
      | cons kept _ ih =>
          cases standing with
          | cons stands standing =>
              exact .cons (kept.1 ▸ kept.2.stood _ stands) (ih _ standing)

/-- If all parts hold their places, so does the conjunction. -/
theorem Together.held (h : Together Ps factor d v c) (nonneg : 0 ≤ t) (back : t ≤ d)
    (inside : ∀ P ∈ Ps, d ∈ P.holds) :
    ∃ c', c.seek t = .done c' true ∧ Together Ps factor d v c' ∧ c'.movesLeft ≤ c.movesLeft := by
  obtain ⟨started, more, factor', row, parts, nonempty, covers, inStep⟩ := h
  have moves : ∀ x ∈ row, Moves (Cursor.seek · t) (Kept d) (fun _ => False) x := by
    intro x there
    obtain ⟨w, stands⟩ := inStep.stands x there
    exact moves_of_held stands nonneg back (covers.forall_iff.mp inside x there)
  rw [seek, if_neg (by simp [started]), Outcome.andThen_done]
  obtain ⟨row', eq, swept⟩ | ⟨-, -, -, -, impossible⟩ := moveAll_spec more parts moves
  · have agree : ∀ y ∈ row', Cursor.doc y.2 = d := by
      intro y there
      obtain ⟨p, kept⟩ := swept.each y there
      exact kept.place
    have nonempty' : row' ≠ [] := by
      rintro rfl
      exact nonempty (List.forall₂_nil_right_iff.mp swept)
    have fewer := swept.moves fun P p p' kept => kept.used
    rw [eq, Outcome.andThen_done, arranged_of_agree agree]
    refine ⟨_, settle_of_agree (d := d) more ?_ ?_, ?_, ?_⟩
    · simpa [cursors] using nonempty'
    · intro p inside
      obtain ⟨y, there, rfl⟩ := List.mem_map.mp inside
      exact agree y there
    · exact ⟨started, more, factor', row', rfl, nonempty',
        covers.swept swept, inStep.kept swept⟩
    · simp only [movesLeft, started, parts]
      omega
  · exact impossible.elim

/-- If some part does not hold its place, the conjunction takes this for its end. -/
theorem Together.lost (h : Together Ps factor d v c) (nonneg : 0 ≤ t) (back : t ≤ d)
    (outside : ¬ ∀ P ∈ Ps, d ∈ P.holds) : ∃ c', c.seek t = .done c' false := by
  obtain ⟨row, parts, nonempty, covers, standing⟩ := h.stands
  obtain ⟨started, more, -, -⟩ := h
  have moves : ∀ x ∈ row,
      Moves (Cursor.seek · t) (fun P _ _ => d ∈ P.holds) (fun _ => True) x := by
    intro x there
    obtain ⟨w, stands⟩ := standing x there
    by_cases holds : d ∈ x.1.holds
    · obtain ⟨p, eq, -⟩ := faithful_stands.held stands nonneg back holds
      exact .inl ⟨p, eq, holds⟩
    · obtain ⟨p, eq⟩ := faithful_stands.lost stands nonneg back holds
      exact .inr ⟨p, eq, trivial⟩
  rw [seek, if_neg (by simp [started]), Outcome.andThen_done]
  obtain ⟨row', eq, swept⟩ | ⟨parts', eq, -⟩ := moveAll_spec more parts moves
  · have covers' := covers.swept swept
    refine absurd (covers'.forall_iff.mpr fun y inside => ?_) outside
    obtain ⟨-, holds⟩ := swept.each y inside
    exact holds
  · exact ⟨_, by rw [eq, Outcome.andThen_done, settle_of_not_more rfl]⟩

section Scores

variable {row : List (Prospect × σ)}

/-- Scoring all parts for the first time. -/
theorem sumScores_first (row : List (Prospect × σ))
    (standing : ∀ x ∈ row, Stands x.1 x.1.docs d none x.2) (total : Score) :
    ∃ (row' : List (Prospect × σ)) (xs : List (Score × Nat)),
      sumScores total (cursors row) = ⟨.ok ((xs.map Prod.fst).foldl (· + ·) total), cursors row',
        .count (xs.map Prod.snd).sum⟩ ∧
      row'.map Prod.fst = row.map Prod.fst ∧
      List.Forall₂ (fun Q x => Q.scores d x.1 x.2) (row.map Prod.fst) xs ∧
      List.Forall₂ (fun x y => Stands x.1 x.1.docs d (some y) x.2) row' (xs.map Prod.fst) ∧
      movesLeftInAll 0 (cursors row') ≤ movesLeftInAll 0 (cursors row) := by
  induction row generalizing total with
  | nil => exact ⟨[], [], rfl, rfl, .nil, .nil, Nat.le_refl _⟩
  | cons x row ih =>
      obtain ⟨v, n, p, eq, scored, stood, fewer⟩ :=
        faithful_stands.score (standing x List.mem_cons_self)
      obtain ⟨row', xs, eq', fst, scores, standing', fewer'⟩ :=
        ih (fun y inside => standing y (List.mem_cons_of_mem x inside)) (total + v)
      refine ⟨(x.1, p) :: row', (v, n) :: xs, ?_, ?_, .cons scored scores,
        .cons stood standing', ?_⟩
      · rw [cursors, List.map_cons, sumScores, eq, Outcome.bind_ok]
        rw [← cursors, eq']
        simp [Outcome.within, Outcome.marking, cursors]
      · simp [fst]
      · simp only [cursors, List.map_cons, movesLeftInAll] at fewer' ⊢
        omega

/-- Scoring all parts again. -/
theorem sumScores_again {xs : List Score}
    (standing : List.Forall₂ (fun x y => Stands x.1 x.1.docs d (some y) x.2) row xs)
    (total : Score) :
    sumScores total (cursors row) = .done (cursors row) (xs.foldl (· + ·) total) := by
  induction standing generalizing total with
  | nil => rfl
  | @cons x y row xs stands _ ih =>
      rw [cursors, List.map_cons, sumScores, faithful_stands.again stands, Outcome.bind_done]
      rw [← cursors, ih (total + y), Outcome.within_done]
      rfl

end Scores

/-- A conjunction whose parts have all been scored. -/
theorem Together.of_scored {row row' : List (Prospect × σ)} {xs : List Score}
    (started : c.fresh = false) (more : c.more = true) (nonempty : row ≠ [])
    (covers : Covers Ps row) (fst : row'.map Prod.fst = row.map Prod.fst)
    (standing : List.Forall₂ (fun x y => Stands x.1 x.1.docs d (some y) x.2) row' xs) :
    Together Ps c.factor d (some (xs.foldl (· + ·) 0 * c.factor))
      { c with parts := cursors row' } := by
  have nonempty' : row' ≠ [] := by
    rintro rfl
    exact nonempty (by simpa using fst.symm)
  exact ⟨started, more, rfl, row', rfl, nonempty', (List.Perm.of_eq fst).trans covers, xs, standing,
    rfl⟩

theorem Together.score (h : Together Ps factor d none c) :
    ∃ v n c', c.score = ⟨.ok v, c', .count n⟩ ∧ (Prospect.all factor Ps).scores d v n ∧
      Together Ps factor d (some v) c' ∧ c'.movesLeft ≤ c.movesLeft := by
  obtain ⟨started, more, rfl, row, parts, nonempty, covers, standing⟩ := h
  obtain ⟨row', xs, eq, fst, scores, standing', fewer⟩ := sumScores_first row standing 0
  refine ⟨_, _, { c with parts := cursors row' }, ?_, ⟨_, xs, covers, scores, rfl, rfl⟩,
    .of_scored started more nonempty covers fst standing', ?_⟩
  · rw [Conjunction.score, parts, eq]
    rfl
  · simp only [movesLeft, started, parts]
    omega

theorem Together.again {s : Score} (h : Together Ps factor d (some s) c) :
    c.score = .done c s := by
  obtain ⟨started, more, rfl, row, parts, nonempty, covers, xs, standing, rfl⟩ := h
  rw [Conjunction.score, parts, sumScores_again standing 0, ← parts]
  rfl

theorem faithful_together :
    Faithful (.all factor Ps) {d | ∀ P ∈ Ps, d ∈ P.docs} (Together (σ := σ) Ps factor) where
  doc := Together.doc_eq
  mem := by
    intro d v c h
    obtain ⟨row, -, -, covers, standing⟩ := h.stands
    refine covers.forall_iff.mpr fun x inside => ?_
    obtain ⟨w, stands⟩ := standing x inside
    exact faithful_stands.mem stands
  nonneg := by
    intro d v c h
    obtain ⟨row, -, nonempty, -, standing⟩ := h.stands
    obtain ⟨x, rest, rfl⟩ := List.exists_cons_of_ne_nil nonempty
    obtain ⟨w, stands⟩ := standing x List.mem_cons_self
    exact faithful_stands.nonneg stands
  next := Together.next
  ahead := Together.ahead
  held := Together.held
  lost := Together.lost
  score := Together.score
  again := Together.again

/-- The row of parts that have not started. -/
theorem exists_row {ps : List σ} (begins : List.Forall₂ Begins Ps ps) :
    ∃ row : List (Prospect × σ), cursors row = ps ∧ row.map Prod.fst = Ps ∧
      ∀ x ∈ row, Begins x.1 x.2 := by
  induction begins with
  | nil => exact ⟨[], rfl, rfl, by simp⟩
  | @cons P p Ps ps h _ ih =>
      obtain ⟨row, rfl, rfl, each⟩ := ih
      exact ⟨(P, p) :: row, rfl, rfl, List.forall_mem_cons.mpr ⟨h, each⟩⟩

variable {rule : CoordRule} {row : List (Prospect × σ)}

/-- The first move of every part, which comes before any other call. -/
theorem start_spec (rule : CoordRule) (nonempty : row ≠ []) (begins : ∀ x ∈ row, Begins x.1 x.2) :
    let c : Conjunction σ := { ofParts rule (cursors row) with fresh := false, more := true }
    (∃ row', (ofParts rule (cursors row)).start =
        .done { c with parts := cursors (arranged row') } () ∧
      Swept (Advanced 1 Set.univ) row row') ∨
    ∃ parts, (ofParts rule (cursors row)).start = .done { c with parts, more := false } () ∧
      ∃ x ∈ row, x.1.docs ∩ Set.univ = ∅ := by
  intro c
  have unfolded : (ofParts rule (cursors row)).start = c.moveAll Cursor.next := by
    have : (!(cursors row).isEmpty) = true := by simpa [cursors] using nonempty
    simp only [start, ofParts, this, c]
  have moves : ∀ x ∈ row, Moves Cursor.next (Advanced 1 Set.univ)
      (fun P => P.docs ∩ Set.univ = ∅) x := by
    intro x inside
    apply moves_of_finds
    rw [Set.inter_univ]
    exact (begins x inside).next
  rw [unfolded]
  exact moveAll_spec (c := c) rfl rfl moves

theorem movesLeft_ofParts :
    Cursor.movesLeft (ofParts rule (cursors row)) = movesLeftInAll 0 (cursors row) + 1 := rfl

/-- Started by a move to the next document, a conjunction goes to the first common one. -/
theorem next_ofParts (rule : CoordRule) (nonempty : row ≠ []) (covers : Covers Ps row)
    (begins : ∀ x ∈ row, Begins x.1 x.2) :
    (ofParts rule (cursors row)).next.Finds {d | ∀ P ∈ Ps, d ∈ P.docs} fun d c =>
      Together Ps (ofParts rule (cursors row)).factor d none c ∧
        Cursor.movesLeft c < Cursor.movesLeft (ofParts rule (cursors row)) := by
  rw [next, if_pos (show (ofParts rule (cursors row)).fresh = true from rfl),
    ← Set.inter_univ {d | ∀ P ∈ Ps, d ∈ P.docs}]
  obtain ⟨row', eq, swept⟩ | ⟨parts, eq, x, inside, empty⟩ := start_spec rule nonempty begins
  · rw [eq, Outcome.andThen_done]
    apply (settle_swept isUpperSet_univ rfl rfl rfl nonempty covers swept).imp
    rintro d c - ⟨together, used⟩
    refine ⟨together, ?_⟩
    rw [movesLeft_ofParts]
    simp only [Cursor.movesLeft, movesLeft, together.1, Bool.false_eq_true, if_false]
    omega
  · rw [eq, Outcome.andThen_done, settle_of_not_more rfl]
    exact .missed _ rfl (covers.common_eq_empty inside empty)

/-- A part that stands on its first document has been sent to a target, which may lie behind, and
has got there. -/
def Landed (t : DocId) (P : Prospect) (p p' : σ) : Prop :=
  Advanced 0 (since t) P p p' ∧ ∀ e, IsLeast P.docs e → t ≤ e → e ∈ P.holds

/-- A part that runs out if it is sent to a target from its first document. -/
def Slips (t : DocId) (P : Prospect) : Prop :=
  P.docs ∩ since t = ∅ ∨ ∃ e, IsLeast P.docs e ∧ t ≤ e ∧ e ∉ P.holds

theorem moves_of_first {x : Prospect × σ} (nonneg : 0 ≤ t)
    (stands : Stands x.1 x.1.docs (Cursor.doc x.2) none x.2)
    (first : IsLeast x.1.docs (Cursor.doc x.2)) :
    Moves (Cursor.seek · t) (Landed t) (Slips t) x := by
  by_cases later : Cursor.doc x.2 < t
  · have moves : Moves (Cursor.seek · t) (Advanced 1 (since t)) (fun P => P.docs ∩ since t = ∅) x :=
      moves_of_finds (faithful_stands.ahead stands later)
    obtain ⟨p, eq, advanced⟩ | ⟨p, eq, empty⟩ := moves
    · refine .inl ⟨p, eq, ⟨advanced.stood, advanced.least, ?_⟩, fun e least le => ?_⟩
      · exact Nat.le_of_succ_le advanced.used
      · rw [least_unique least first] at le
        exact absurd later (Int32.not_lt.mpr le)
    · exact .inr ⟨p, eq, .inl empty⟩
  · have back : t ≤ Cursor.doc x.2 := Int32.not_lt.mp later
    by_cases holds : Cursor.doc x.2 ∈ x.1.holds
    · obtain ⟨p, eq, stood, fewer⟩ := faithful_stands.held stands nonneg back holds
      have place : Cursor.doc p = Cursor.doc x.2 := faithful_stands.doc stood
      refine .inl ⟨p, eq, ⟨place.symm ▸ stood, ?_, fewer⟩, fun e least _ => ?_⟩
      · rw [place]
        exact ⟨⟨first.1, back⟩, fun m inside => first.2 inside.1⟩
      · rwa [least_unique least first]
    · obtain ⟨p, eq⟩ := faithful_stands.lost stands nonneg back holds
      exact .inr ⟨p, eq, .inr ⟨_, first, back, holds⟩⟩

/-- Started by a seek, a conjunction goes to the first common document from the target, unless some
part stands at or after the target with its first document and does not hold its place there. -/
theorem seek_ofParts (rule : CoordRule) (nonneg : 0 ≤ t) (nonempty : row ≠ [])
    (covers : Covers Ps row) (begins : ∀ x ∈ row, Begins x.1 x.2) :
    ((ofParts rule (cursors row)).seek t).Finds ((Prospect.all factor Ps).docsFrom t) fun d c =>
      Together Ps (ofParts rule (cursors row)).factor d none c ∧
        Cursor.movesLeft c < Cursor.movesLeft (ofParts rule (cursors row)) := by
  rw [seek, if_pos (show (ofParts rule (cursors row)).fresh = true from rfl)]
  obtain ⟨row', eq, swept⟩ | ⟨parts, eq, x, inside, empty⟩ := start_spec rule nonempty begins
  · rw [eq, Outcome.andThen_done]
    have covers' := (covers.swept swept).perm (arranged_perm row')
    have nonempty' : arranged row' ≠ [] := (converging_of_swept nonempty covers swept).nonempty
    have used := swept.moves fun P p p' advanced => advanced.used
    have positive := List.length_pos_iff.mpr nonempty
    have moves : ∀ x ∈ arranged row', Moves (Cursor.seek · t) (Landed t) (Slips t) x := by
      intro x inside
      obtain ⟨p, advanced⟩ := swept.each x ((arranged_perm row').mem_iff.mp inside)
      exact moves_of_first nonneg advanced.stood (Set.inter_univ x.1.docs ▸ advanced.least)
    rcases moveAll_spec (c := { ofParts rule (cursors row) with
      parts := cursors (arranged row'), fresh := false, more := true }) rfl rfl moves with
      ⟨row'', eq', swept'⟩ | ⟨parts, eq', x, inside, slips⟩
    · have from' : (Prospect.all factor Ps).docsFrom t =
          {d | ∀ P ∈ Ps, d ∈ P.docs} ∩ since t := by
        have holds : ∀ P ∈ Ps, ∀ e, IsLeast P.docs e → t ≤ e → e ∈ P.holds := by
          refine (covers'.swept swept').forall_iff.mpr fun y inside => ?_
          obtain ⟨p, -, holds⟩ := swept'.each y inside
          exact holds
        ext d
        constructor
        · rintro ⟨common, le, -⟩
          exact ⟨common, le⟩
        · rintro ⟨common, le⟩
          exact ⟨common, le, holds⟩
      rw [eq', Outcome.andThen_done, from']
      refine (settle_swept (isUpperSet_since t) rfl rfl rfl nonempty' covers'
        (swept'.imp fun x y h => ⟨h.1, h.2.1⟩)).imp ?_
      rintro d c - ⟨together, used'⟩
      refine ⟨together, ?_⟩
      rw [moves_arranged] at used'
      rw [movesLeft_ofParts]
      simp only [Cursor.movesLeft, movesLeft, together.1, Bool.false_eq_true, if_false]
      omega
    · rw [eq', Outcome.andThen_done, settle_of_not_more rfl]
      refine .missed _ rfl ?_
      apply Set.eq_empty_of_forall_notMem
      rintro d ⟨common, le, holds⟩
      have common := covers'.forall_iff.mp common x inside
      have holds := covers'.forall_iff.mp holds x inside
      rcases slips with empty | ⟨e, least, le, lost⟩
      · exact Set.eq_empty_iff_forall_notMem.mp empty d ⟨common, le⟩
      · exact lost (holds e least le)
  · rw [eq, Outcome.andThen_done, moveAll, if_neg Bool.false_ne_true, Outcome.andThen_done,
      settle_of_not_more rfl]
    refine .missed _ rfl ?_
    apply Set.eq_empty_of_forall_notMem
    rintro d ⟨common, _⟩
    exact Set.eq_empty_iff_forall_notMem.mp empty d ⟨covers.forall_iff.mp common x inside, trivial⟩

/-- However a conjunction is started, its parts stand together on the first document. -/
theorem starts_ofParts {ps : List σ} (rule : CoordRule) (nonempty : Ps ≠ [])
    (begins : List.Forall₂ Begins Ps ps) :
    Starts (.all (rule.factor Ps.length Ps.length) Ps)
      (fun _ => Together Ps (rule.factor Ps.length Ps.length)) (ofParts rule ps) := by
  obtain ⟨row, rfl, rfl, each⟩ := exists_row begins
  have some : row ≠ [] := by
    rintro rfl
    exact nonempty rfl
  have factor : (ofParts rule (cursors row)).factor =
      rule.factor (row.map Prod.fst).length (row.map Prod.fst).length := by
    simp [ofParts, cursors]
  rw [← factor]
  constructor
  case next => exact next_ofParts rule some (List.Perm.refl _) each
  case seek => exact fun nonneg => seek_ofParts rule nonneg some (List.Perm.refl _) each

/-- A conjunction of cursors that keep their promises keeps its own. -/
theorem begins_ofParts {ps : List σ} (rule : CoordRule) (nonempty : Ps ≠ [])
    (begins : List.Forall₂ Begins Ps ps) :
    Begins (.all (rule.factor Ps.length Ps.length) Ps) (ofParts rule ps) := by
  have starts := starts_ofParts rule nonempty begins
  constructor
  case next =>
    apply starts.next.imp
    rintro d c - ⟨together, fewer⟩
    exact ⟨⟨_, faithful_together, together⟩, fewer⟩
  case seek =>
    intro t nonneg
    apply (starts.seek nonneg).imp
    rintro d c least ⟨together, fewer⟩
    refine ⟨Stands.narrow ⟨_, faithful_together, together⟩ fun x le => ?_, fewer⟩
    obtain ⟨-, from', holds⟩ := least.1
    exact ⟨fun common => ⟨common, Int32.le_trans from' le, holds⟩, fun h => h.1⟩

omit [Cursor σ] in
theorem reaches_part {P : Prospect} {factor : Score} {d : DocId} (inside : P ∈ Ps)
    (reaches : (Prospect.all factor Ps).Reaches d) : P.Reaches d := by
  obtain common | ⟨t, common, -⟩ := reaches <;> exact .inl (common P inside)

/-- Asking for the scores of the parts leaves each of them at rest. -/
theorem rests_sumScores {ps : List σ} (total : Score) (rests : List.Forall₂ Rests Ps ps) :
    List.Forall₂ Rests Ps (sumScores total ps).state := by
  induction rests generalizing total with
  | nil => exact .nil
  | @cons P p Ps ps first rest ih =>
      have asked := resting_rests.score first
      exact Outcome.state_bind (List.Forall₂ Rests (P :: Ps)) (.cons asked rest)
        fun score _ => .cons asked (ih (total + score))

theorem state_score_ofParts {ps : List σ} (rests : List.Forall₂ Rests Ps ps) :
    (Cursor.score (ofParts rule ps)).state = ofParts rule (sumScores 0 ps).state := by
  have same := (rests_sumScores 0 rests).length_eq.symm.trans rests.length_eq
  have empty : (sumScores 0 ps).state.isEmpty = ps.isEmpty := by
    rw [Bool.eq_iff_iff, List.isEmpty_iff_length_eq_zero, List.isEmpty_iff_length_eq_zero, same]
  show { ofParts rule ps with parts := (sumScores 0 ps).state } = _
  simp only [ofParts, same, empty]

/-- A conjunction of cursors at rest is at rest. -/
theorem rests_ofParts {ps : List σ} (rule : CoordRule) (nonempty : Ps ≠ [])
    (rests : List.Forall₂ Rests Ps ps) :
    Rests (.all (rule.factor Ps.length Ps.length) Ps) (ofParts rule ps) := by
  refine ⟨fun c => ∃ ps, c = ofParts rule ps ∧ List.Forall₂ Rests Ps ps, ?_, ps, rfl, rests⟩
  constructor
  case starts =>
    rintro _ ⟨ps, rfl, rests⟩
    exact begins_ofParts rule nonempty (rests.imp fun _ _ => Rests.begins)
  case doc =>
    rintro _ d ⟨ps, rfl, rests⟩ reaches
    cases rests with
    | nil => exact absurd rfl nonempty
    | @cons P p Ps ps first _ =>
        show Cursor.doc p = _
        exact resting_rests.doc first (reaches_part List.mem_cons_self reaches)
  case score =>
    rintro _ ⟨ps, rfl, rests⟩
    exact ⟨_, state_score_ofParts rests, rests_sumScores 0 rests⟩

end Conjunction

end Retrieval
