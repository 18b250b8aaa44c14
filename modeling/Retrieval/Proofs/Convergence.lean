import Retrieval.Cursor.Conjunction
import Retrieval.Proofs.Rest

/-!
# Bringing the parts of a conjunction together

The parts of a conjunction move to and fro in their row, so each is followed together with what is
expected of it. While the parts are brought together, four things are kept: the row is in ascending
order, the last part stands in the window that is searched, no part stands beyond a common document
of the window, and no part that stands in the window has been scored. When the first and the last
part agree, order makes all parts agree, and they stand on the first common document.
-/

namespace Retrieval

/-- What to expect of all of several cursors, the sum of whose scores is multiplied by a factor. -/
def Prospect.all (factor : Score) (Ps : List Prospect) : Prospect where
  docs := {d | ∀ P ∈ Ps, d ∈ P.docs}
  docsFrom t := {d | (∀ P ∈ Ps, d ∈ P.docs) ∧ t ≤ d ∧
    ∀ P ∈ Ps, ∀ e, IsLeast P.docs e → t ≤ e → e ∈ P.holds}
  later _ := fun _ inside => inside.2.1
  holds := {d | ∀ P ∈ Ps, d ∈ P.holds}
  scores d v n := ∃ (Qs : List Prospect) (xs : List (Score × Nat)), Qs.Perm Ps ∧
    List.Forall₂ (fun Q x => Q.scores d x.1 x.2) Qs xs ∧
    v = (xs.map Prod.fst).foldl (· + ·) 0 * factor ∧ n = (xs.map Prod.snd).sum

namespace Conjunction

open Cursor

variable {σ : Type} {Ps : List Prospect}

def cursors (row : List (Prospect × σ)) : List σ := row.map Prod.snd

/-- A row of cursors for the parts of a conjunction, in any order. -/
def Covers (Ps : List Prospect) (row : List (Prospect × σ)) : Prop :=
  (row.map Prod.fst).Perm Ps

theorem Covers.forall_iff {row : List (Prospect × σ)} (covers : Covers Ps row)
    {G : Prospect → Prop} : (∀ P ∈ Ps, G P) ↔ ∀ x ∈ row, G x.1 := by
  constructor
  · exact fun h x inside => h x.1 (covers.mem_iff.mp (List.mem_map_of_mem inside))
  · intro h P inside
    obtain ⟨x, there, rfl⟩ := List.mem_map.mp (covers.mem_iff.mpr inside)
    exact h x there

/-- The first part may be moved and put at the end. -/
theorem Covers.rotate {x : Prospect × σ} {rest : List (Prospect × σ)}
    (covers : Covers Ps (x :: rest)) (p : σ) : Covers Ps (rest ++ [(x.1, p)]) := by
  refine List.Perm.trans ?_ covers
  simp only [List.map_append, List.map_cons, List.map_nil]
  exact List.perm_append_singleton x.1 (rest.map Prod.fst)

theorem Covers.perm {row row' : List (Prospect × σ)} (covers : Covers Ps row)
    (perm : row'.Perm row) : Covers Ps row' :=
  (perm.map Prod.fst).trans covers

variable [Cursor σ] {W : Set DocId}

def Ascending (row : List (Prospect × σ)) : Prop :=
  row.Pairwise fun x y => Cursor.doc x.2 ≤ Cursor.doc y.2

/-- In an ascending row no part stands beyond the last one. -/
theorem Ascending.le_last {front : List (Prospect × σ)} {last : Prospect × σ}
    (ascending : Ascending (front ++ [last])) :
    ∀ y ∈ front ++ [last], Cursor.doc y.2 ≤ Cursor.doc last.2 := by
  intro y inside
  obtain inside | inside := List.mem_append.mp inside
  · exact (List.pairwise_append.mp ascending).2.2 y inside last List.mem_cons_self
  · rw [List.mem_singleton.mp inside]
    exact Int32.le_refl _

theorem Ascending.first_le {rest : List (Prospect × σ)} {x : Prospect × σ}
    (ascending : Ascending (x :: rest)) : ∀ y ∈ x :: rest, Cursor.doc x.2 ≤ Cursor.doc y.2 := by
  intro y inside
  obtain rfl | inside := List.mem_cons.mp inside
  · exact Int32.le_refl _
  · exact (List.pairwise_cons.mp ascending).1 y inside

/-- What is kept while the parts are brought together on the first common document of `W`. -/
structure Converging (Ps : List Prospect) (W : Set DocId) (row : List (Prospect × σ)) : Prop where
  nonempty : row ≠ []
  covers : Covers Ps row
  ascending : Ascending row
  /-- The last part has reached the window. -/
  reached : ∀ front last, row = front ++ [last] → Cursor.doc last.2 ∈ W
  /-- No part stands beyond a document of the window that all parts have. -/
  behind : ∀ m ∈ W, (∀ x ∈ row, m ∈ x.1.docs) → ∀ x ∈ row, Cursor.doc x.2 ≤ m
  /-- No part that has reached the window has been scored there. -/
  unscored : ∀ x ∈ row, ∃ v, Stands x.1 x.1.docs (Cursor.doc x.2) v x.2 ∧
    (Cursor.doc x.2 ∈ W → v = none)

namespace Converging

variable {x last : Prospect × σ} {rest front : List (Prospect × σ)}

/-- Sending the first part to where the last one stands keeps the row in order. -/
theorem rotate (row : Converging Ps W (x :: rest)) (upper : IsUpperSet W)
    (split : x :: rest = front ++ [last]) {e : DocId} {p : σ}
    (least : IsLeast (x.1.docs ∩ since (Cursor.doc last.2)) e)
    (stood : Stands x.1 x.1.docs e none p) : Converging Ps W (rest ++ [(x.1, p)]) := by
  have place : Cursor.doc p = e := faithful_stands.doc stood
  have later : Cursor.doc last.2 ≤ e := least.1.2
  have inFront : last ∈ x :: rest := by rw [split]; simp
  have upTo : ∀ y ∈ x :: rest, Cursor.doc y.2 ≤ Cursor.doc last.2 := by
    have ascending := row.ascending
    rw [split] at ascending ⊢
    exact ascending.le_last
  constructor
  case nonempty => simp
  case covers => exact row.covers.rotate p
  case ascending =>
    refine List.pairwise_append.mpr ⟨(List.pairwise_cons.mp row.ascending).2, by simp, ?_⟩
    intro y inside z same
    rw [List.mem_singleton.mp same, place]
    exact Int32.le_trans (upTo y (List.mem_cons_of_mem x inside)) later
  case reached =>
    intro front' last' same
    obtain ⟨-, same⟩ := List.append_inj' same rfl
    rw [← (List.cons.inj same).1, place]
    exact upper later (row.reached front last split)
  case behind =>
    intro m inside common y there
    have all : ∀ y ∈ x :: rest, m ∈ y.1.docs := by
      rw [← row.covers.forall_iff (G := fun P => m ∈ P.docs),
        (row.covers.rotate p).forall_iff]
      exact common
    obtain there | there := List.mem_append.mp there
    · exact row.behind m inside all y (List.mem_cons_of_mem x there)
    · rw [List.mem_singleton.mp there, place]
      exact least.2 ⟨all x List.mem_cons_self, row.behind m inside all last inFront⟩
  case unscored =>
    intro y there
    obtain there | there := List.mem_append.mp there
    · exact row.unscored y (List.mem_cons_of_mem x there)
    · rw [List.mem_singleton.mp there, place]
      exact ⟨none, stood, fun _ => rfl⟩

/-- If the first part has no document from where the last one stands, there is no common one. -/
theorem none_of_exhausted (row : Converging Ps W (x :: rest)) (split : x :: rest = front ++ [last])
    (empty : x.1.docs ∩ since (Cursor.doc last.2) = ∅) : {d | ∀ P ∈ Ps, d ∈ P.docs} ∩ W = ∅ := by
  apply Set.eq_empty_of_forall_notMem
  rintro m ⟨common, inside⟩
  have all := (row.covers.forall_iff (G := fun P => m ∈ P.docs)).mp common
  have later := row.behind m inside all last (by rw [split]; simp)
  exact Set.eq_empty_iff_forall_notMem.mp empty m ⟨all x List.mem_cons_self, later⟩

/-- If the first part does not stand before the last one, all stand on the first common document.
-/
theorem meet (row : Converging Ps W (x :: rest)) (split : x :: rest = front ++ [last])
    (agree : ¬ Cursor.doc x.2 < Cursor.doc last.2) :
    IsLeast ({d | ∀ P ∈ Ps, d ∈ P.docs} ∩ W) (Cursor.doc x.2) ∧
      ∀ y ∈ x :: rest, Stands y.1 y.1.docs (Cursor.doc x.2) none y.2 := by
  have same : ∀ y ∈ x :: rest, Cursor.doc y.2 = Cursor.doc x.2 := by
    intro y inside
    have ascending := row.ascending
    refine Int32.le_antisymm ?_ (ascending.first_le y inside)
    rw [split] at ascending inside
    exact Int32.le_trans (ascending.le_last y inside) (Int32.not_lt.mp agree)
  have reached : Cursor.doc x.2 ∈ W := by
    rw [← same last (by rw [split]; simp)]
    exact row.reached front last split
  have standing : ∀ y ∈ x :: rest, Stands y.1 y.1.docs (Cursor.doc x.2) none y.2 := by
    intro y inside
    obtain ⟨v, stands, unscored⟩ := row.unscored y inside
    rw [same y inside] at stands unscored
    rwa [unscored reached] at stands
  refine ⟨⟨⟨?_, reached⟩, ?_⟩, standing⟩
  · exact row.covers.forall_iff.mpr fun y inside => faithful_stands.mem (standing y inside)
  · rintro m ⟨common, inside⟩
    exact row.behind m inside (row.covers.forall_iff.mp common) x List.mem_cons_self

end Converging

/-- All cursors of a row stand on the document `d`. The score given there is the sum of theirs times
the factor. -/
def InStep (factor : Score) (d : DocId) (row : List (Prospect × σ)) : Option Score → Prop
  | none => ∀ x ∈ row, Stands x.1 x.1.docs d none x.2
  | some s => ∃ xs : List Score,
    List.Forall₂ (fun x y => Stands x.1 x.1.docs d (some y) x.2) row xs ∧
    s = xs.foldl (· + ·) 0 * factor

/-- A conjunction that stands on the document `d` with all its parts. -/
def Together (Ps : List Prospect) (factor : Score) (d : DocId) (v : Option Score)
    (c : Conjunction σ) : Prop :=
  c.fresh = false ∧ c.more = true ∧ c.factor = factor ∧ ∃ row : List (Prospect × σ),
    c.parts = cursors row ∧ row ≠ [] ∧ Covers Ps row ∧ InStep factor d row v

theorem InStep.stands {factor : Score} {d : DocId} {v : Option Score} {row : List (Prospect × σ)}
    (h : InStep factor d row v) : ∀ x ∈ row, ∃ v, Stands x.1 x.1.docs d v x.2 := by
  intro x inside
  cases v with
  | none => exact ⟨none, h x inside⟩
  | some s =>
      obtain ⟨xs, standing, -⟩ := h
      obtain ⟨i, there, rfl⟩ := List.mem_iff_getElem.mp inside
      have there' : i < xs.length := standing.length_eq ▸ there
      exact ⟨some xs[i], standing.get there there'⟩

theorem doc_cons (c : Conjunction σ) {x : σ} {rest : List σ} (parts : c.parts = x :: rest) :
    c.doc = Cursor.doc x := by
  simp [doc, parts]

theorem lastDoc_append (c : Conjunction σ) {x : σ} {front : List σ}
    (parts : c.parts = front ++ [x]) : c.lastDoc = Cursor.doc x := by
  simp [lastDoc, parts]

/-- One round of bringing the parts together. -/
theorem converge_cons (c : Conjunction σ) {x last : σ} {rest front : List σ} (bound : Nat)
    (more : c.more = true) (parts : c.parts = x :: rest) (split : c.parts = front ++ [last]) :
    c.converge (bound + 1) =
      if Cursor.doc x < Cursor.doc last then
        (Cursor.seek x (Cursor.doc last)).bind (fun _ => { c with parts := rest }) fun found p =>
          if found then { c with parts := rest ++ [p], more := found }.converge bound
          else .done { c with parts := rest ++ [p], more := found } false
      else .done c true := by
  rw [converge, parts]
  simp only [c.doc_cons parts, c.lastDoc_append split, more, Bool.true_and, decide_eq_true_eq]

/-- The parts are brought together on the first common document of the window. The induction is on
the bound, which every round lowers by one and the moves left by one at least. -/
theorem converge_finds (upper : IsUpperSet W) (bound : Nat) (c : Conjunction σ)
    (row : List (Prospect × σ)) (started : c.fresh = false) (more : c.more = true)
    (parts : c.parts = cursors row) (converging : Converging Ps W row)
    (enough : movesLeftInAll 0 c.parts < bound) :
    (c.converge bound).Finds ({d | ∀ P ∈ Ps, d ∈ P.docs} ∩ W) fun d c' =>
      Together Ps c.factor d none c' ∧
        movesLeftInAll 0 c'.parts ≤ movesLeftInAll 0 c.parts := by
  induction bound generalizing c row with
  | zero => omega
  | succ bound ih =>
      obtain ⟨x, rest, rfl⟩ := List.exists_cons_of_ne_nil converging.nonempty
      obtain ⟨front, last, split⟩ := List.eq_nil_or_concat' (x :: rest) |>.resolve_left (by simp)
      have parts' : c.parts = x.2 :: cursors rest := parts
      have splitParts : c.parts = cursors front ++ [last.2] := by simp [parts, split, cursors]
      rw [c.converge_cons bound more parts' splitParts]
      obtain ⟨v, stands, -⟩ := converging.unscored x List.mem_cons_self
      by_cases apart : Cursor.doc x.2 < Cursor.doc last.2
      · rw [if_pos apart]
        cases faithful_stands.ahead stands apart with
        | missed p eq empty =>
            rw [eq, Outcome.bind_done]
            exact .missed _ (if_neg Bool.false_ne_true) (converging.none_of_exhausted split empty)
        | found e p eq least stood =>
            obtain ⟨stood, fewer⟩ := stood
            rw [eq, Outcome.bind_done, if_pos rfl]
            rw [parts'] at enough ⊢
            simp only [movesLeftInAll] at enough ⊢
            refine (ih { c with parts := cursors rest ++ [p], more := true } _ started rfl
              (by simp [cursors]) (converging.rotate upper split least stood) ?_).imp ?_
            · simp only [movesLeftInAll_append, movesLeftInAll]
              omega
            · intro d c' _ stood
              refine ⟨stood.1, Nat.le_trans stood.2 ?_⟩
              simp only [movesLeftInAll_append, movesLeftInAll]
              omega
      · rw [if_neg apart]
        obtain ⟨least, standing⟩ := converging.meet split apart
        exact .found _ c rfl least
          ⟨⟨started, more, rfl, x :: rest, parts, by simp, converging.covers, standing⟩,
            Nat.le_refl _⟩

/-- Once a part has run out there is nothing to bring together. -/
theorem settle_of_not_more {c : Conjunction σ} (out : c.more = false) :
    c.settle = .done c false := by
  rw [settle, converge]
  cases c.parts with
  | nil => rw [out]
  | cons x rest => simp only [out, Bool.false_and, Bool.false_eq_true, if_false]

/-- Settling a row that has reached the window. -/
theorem settle_finds (upper : IsUpperSet W) {c : Conjunction σ} {row : List (Prospect × σ)}
    (started : c.fresh = false) (more : c.more = true) (parts : c.parts = cursors row)
    (converging : Converging Ps W row) :
    c.settle.Finds ({d | ∀ P ∈ Ps, d ∈ P.docs} ∩ W) fun d c' =>
      Together Ps c.factor d none c' ∧
        movesLeftInAll 0 c'.parts ≤ movesLeftInAll 0 c.parts := by
  apply converge_finds upper _ c row started more parts converging
  simp [movesLeft, started]

/-- Settling parts that all stand on one document changes nothing. -/
theorem settle_of_agree {c : Conjunction σ} {d : DocId} (more : c.more = true)
    (nonempty : c.parts ≠ []) (agree : ∀ p ∈ c.parts, Cursor.doc p = d) :
    c.settle = .done c true := by
  obtain ⟨x, rest, parts⟩ := List.exists_cons_of_ne_nil nonempty
  obtain ⟨front, last, split⟩ := (List.eq_nil_or_concat' c.parts).resolve_left nonempty
  rw [settle, c.converge_cons _ more parts split, if_neg]
  rw [agree x (by simp [parts]), agree last (by simp [split])]
  exact Int32.lt_irrefl

/-- The row in the order in which `arrange` puts the parts. -/
def arranged (row : List (Prospect × σ)) : List (Prospect × σ) :=
  row.mergeSort fun x y => Cursor.doc x.2 ≤ Cursor.doc y.2

theorem arrange_eq {c : Conjunction σ} {row : List (Prospect × σ)} (parts : c.parts = cursors row) :
    c.arrange = { c with parts := cursors (arranged row) } := by
  rw [arrange, parts, cursors, cursors, arranged,
    List.map_mergeSort (s := fun p q => decide (Cursor.doc p ≤ Cursor.doc q)) (fun _ _ _ _ => rfl)]

theorem ascending_arranged (row : List (Prospect × σ)) : Ascending (arranged row) := by
  have sorted : (arranged row).Pairwise fun x y =>
      decide (Cursor.doc x.2 ≤ Cursor.doc y.2) = true := by
    refine List.pairwise_mergeSort ?_ ?_ row
    · intro x y z le le'
      exact decide_eq_true (Int32.le_trans (of_decide_eq_true le) (of_decide_eq_true le'))
    · intro x y
      simp only [Bool.or_eq_true, decide_eq_true_eq]
      exact Int32.le_total _ _
  exact sorted.imp of_decide_eq_true

theorem arranged_perm (row : List (Prospect × σ)) : (arranged row).Perm row :=
  List.mergeSort_perm row _

/-- Parts that all stand on one document keep their order. -/
theorem arranged_of_agree {row : List (Prospect × σ)} {d : DocId}
    (agree : ∀ x ∈ row, Cursor.doc x.2 = d) : arranged row = row := by
  refine List.mergeSort_of_pairwise (List.pairwise_of_forall_mem_list ?_)
  intro x hx y hy
  rw [agree x hx, agree y hy]
  exact decide_eq_true (Int32.le_refl d)

/-- A move of one part: either it succeeds and `good` holds before and after it, or the part has run
out and `bad` holds. -/
def Moves (move : σ → Outcome σ Bool) (good : Prospect → σ → σ → Prop) (bad : Prospect → Prop)
    (x : Prospect × σ) : Prop :=
  (∃ p, move x.2 = .done p true ∧ good x.1 x.2 p) ∨ ∃ p, move x.2 = .done p false ∧ bad x.1

/-- The parts before and after each of them was moved. -/
def Swept (good : Prospect → σ → σ → Prop) (row row' : List (Prospect × σ)) : Prop :=
  List.Forall₂ (fun x y => y.1 = x.1 ∧ good x.1 x.2 y.2) row row'

section Sweep

variable {move : σ → Outcome σ Bool} {good : Prospect → σ → σ → Prop} {bad : Prospect → Prop}
variable {row row' : List (Prospect × σ)}

omit [Cursor σ] in
/-- Each part in turn is moved, up to the first one that has run out. -/
theorem sweep_spec (row : List (Prospect × σ)) (moves : ∀ x ∈ row, Moves move good bad x) :
    (∃ row', sweep move (cursors row) = .done (cursors row') true ∧ Swept good row row') ∨
      ∃ parts, sweep move (cursors row) = .done parts false ∧ ∃ x ∈ row, bad x.1 := by
  induction row with
  | nil => exact .inl ⟨[], rfl, .nil⟩
  | cons x row ih =>
      have unfolded : sweep move (cursors (x :: row)) =
          (move x.2).bind (· :: cursors row) fun found p =>
            if found then (sweep move (cursors row)).within (p :: ·)
            else .done (p :: cursors row) false := rfl
      rw [unfolded]
      obtain ⟨p, eq, isGood⟩ | ⟨p, eq, isBad⟩ := moves x List.mem_cons_self
      · rw [eq, Outcome.bind_done, if_pos rfl]
        rcases ih fun y inside => moves y (List.mem_cons_of_mem x inside) with
          ⟨row', eq', areGood⟩ | ⟨parts, eq', y, inside, isBad⟩
        · rw [eq', Outcome.within_done]
          exact .inl ⟨(x.1, p) :: row', rfl, .cons ⟨rfl, isGood⟩ areGood⟩
        · rw [eq', Outcome.within_done]
          exact .inr ⟨_, rfl, y, List.mem_cons_of_mem x inside, isBad⟩
      · rw [eq, Outcome.bind_done, if_neg Bool.false_ne_true]
        exact .inr ⟨_, rfl, x, List.mem_cons_self, isBad⟩

theorem moveAll_spec {c : Conjunction σ} (more : c.more = true) (parts : c.parts = cursors row)
    (moves : ∀ x ∈ row, Moves move good bad x) :
    (∃ row', c.moveAll move = .done { c with parts := cursors (arranged row') } () ∧
      Swept good row row') ∨
    ∃ parts, c.moveAll move = .done { c with parts, more := false } () ∧ ∃ x ∈ row, bad x.1 := by
  have unfolded : c.moveAll move =
      (sweep move (cursors row)).bind (fun parts => { c with parts }) fun found parts =>
        .done (if found then { c with parts, more := found }.arrange
          else { c with parts, more := found }) () := by
    rw [moveAll, if_pos more, parts]
  rw [unfolded]
  obtain ⟨row', eq, swept⟩ | ⟨parts', eq, someBad⟩ := sweep_spec row moves
  · refine .inl ⟨row', ?_, swept⟩
    rw [eq, Outcome.bind_done, if_pos rfl, arrange_eq (show _ = cursors row' from rfl), more]
  · refine .inr ⟨parts', ?_, someBad⟩
    rw [eq, Outcome.bind_done, if_neg Bool.false_ne_true]

omit [Cursor σ] in
theorem Swept.fst (swept : Swept good row row') : row'.map Prod.fst = row.map Prod.fst := by
  induction swept with
  | nil => rfl
  | cons h _ ih => rw [List.map_cons, List.map_cons, h.1, ih]

omit [Cursor σ] in
theorem Swept.each (swept : Swept good row row') : ∀ y ∈ row', ∃ p, good y.1 p y.2 := by
  induction swept with
  | nil => simp
  | cons h _ ih =>
      intro y inside
      obtain rfl | inside := List.mem_cons.mp inside
      · exact ⟨_, h.1 ▸ h.2⟩
      · exact ih y inside

omit [Cursor σ] in
theorem Covers.swept (covers : Covers Ps row) (swept : Swept good row row') : Covers Ps row' :=
  (List.Perm.of_eq swept.fst).trans covers

theorem Swept.moves {k : Nat} (swept : Swept good row row')
    (used : ∀ P p p', good P p p' → Cursor.movesLeft p' + k ≤ Cursor.movesLeft p) :
    movesLeftInAll 0 (cursors row') + k * row.length ≤ movesLeftInAll 0 (cursors row) := by
  have each : List.Forall₂ (fun p p' => Cursor.movesLeft p' + k ≤ Cursor.movesLeft p)
      (cursors row) (cursors row') := by
    rw [cursors, cursors, List.forall₂_map_left_iff, List.forall₂_map_right_iff]
    exact swept.imp fun x y h => used _ _ _ h.2
  simpa only [cursors, List.length_map] using movesLeftInAll_of_forall₂ each

end Sweep

theorem moves_arranged (row : List (Prospect × σ)) :
    movesLeftInAll 0 (cursors (arranged row)) = movesLeftInAll 0 (cursors row) :=
  movesLeftInAll_perm ((arranged_perm row).map Prod.snd)

/-- A part has been moved to its first document in the window, at the cost of `k` moves at least. -/
structure Advanced (k : Nat) (W : Set DocId) (P : Prospect) (p p' : σ) : Prop where
  stood : Stands P P.docs (Cursor.doc p') none p'
  least : IsLeast (P.docs ∩ W) (Cursor.doc p')
  used : Cursor.movesLeft p' + k ≤ Cursor.movesLeft p

/-- Parts that have all been moved into the window are ready to be brought together. -/
theorem converging_of_swept {k : Nat} {row row' : List (Prospect × σ)} (nonempty : row ≠ [])
    (covers : Covers Ps row) (swept : Swept (Advanced k W) row row') :
    Converging Ps W (arranged row') := by
  have mem : ∀ x, x ∈ arranged row' ↔ x ∈ row' := fun x => (arranged_perm row').mem_iff
  have covers' := covers.swept swept
  constructor
  case nonempty =>
    intro empty
    have gone : row' = [] := (empty ▸ arranged_perm row').nil_eq.symm
    subst gone
    exact nonempty (List.forall₂_nil_right_iff.mp swept)
  case covers => exact covers'.perm (arranged_perm row')
  case ascending => exact ascending_arranged row'
  case reached =>
    intro front last split
    obtain ⟨p, advanced⟩ := swept.each last ((mem last).mp (by rw [split]; simp))
    exact advanced.least.1.2
  case behind =>
    intro m inside common x there
    obtain ⟨p, advanced⟩ := swept.each x ((mem x).mp there)
    exact advanced.least.2 ⟨common x there, inside⟩
  case unscored =>
    intro x there
    obtain ⟨p, advanced⟩ := swept.each x ((mem x).mp there)
    exact ⟨none, advanced.stood, fun _ => rfl⟩

theorem settle_swept (upper : IsUpperSet W) {k : Nat} {c : Conjunction σ}
    {row row' : List (Prospect × σ)} (started : c.fresh = false) (more : c.more = true)
    (parts : c.parts = cursors (arranged row')) (nonempty : row ≠ []) (covers : Covers Ps row)
    (swept : Swept (Advanced k W) row row') :
    c.settle.Finds ({d | ∀ P ∈ Ps, d ∈ P.docs} ∩ W) fun d c' => Together Ps c.factor d none c' ∧
      movesLeftInAll 0 c'.parts + k * row.length ≤ movesLeftInAll 0 (cursors row) := by
  refine (settle_finds upper started more parts
    (converging_of_swept nonempty covers swept)).imp fun d c' _ stood => ⟨stood.1, ?_⟩
  have used := swept.moves fun P p p' advanced => advanced.used
  have used' := stood.2
  rw [parts, moves_arranged] at used'
  omega

omit [Cursor σ] in
/-- A part without a document in the window leaves nothing in common there. -/
theorem Covers.common_eq_empty {row : List (Prospect × σ)} (covers : Covers Ps row)
    {x : Prospect × σ} (inside : x ∈ row) (empty : x.1.docs ∩ W = ∅) :
    {d | ∀ P ∈ Ps, d ∈ P.docs} ∩ W = ∅ := by
  apply Set.eq_empty_of_forall_notMem
  rintro m ⟨common, window⟩
  have all := (covers.forall_iff (G := fun P => m ∈ P.docs)).mp common
  exact Set.eq_empty_iff_forall_notMem.mp empty m ⟨all x inside, window⟩

/-- A move that finds documents in the window moves the part there. -/
theorem moves_of_finds {move : σ → Outcome σ Bool} {x : Prospect × σ}
    (finds : (move x.2).Finds (x.1.docs ∩ W) fun e p =>
      Stands x.1 x.1.docs e none p ∧ Cursor.movesLeft p < Cursor.movesLeft x.2) :
    Moves move (Advanced 1 W) (fun P => P.docs ∩ W = ∅) x := by
  cases finds with
  | missed p eq empty => exact .inr ⟨p, eq, empty⟩
  | found e p eq least stood =>
      have place : Cursor.doc p = e := faithful_stands.doc stood.1
      subst place
      exact .inl ⟨p, eq, stood.1, least, stood.2⟩

end Conjunction

end Retrieval
