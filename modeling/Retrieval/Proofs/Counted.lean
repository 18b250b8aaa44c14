import Retrieval.Cursor.Counted
import Retrieval.Proofs.Conjunction
import Retrieval.Proofs.Threshold

/-!
# Counting matches once

A counted group stands where the group stands. The clauses that match are counted together with the
first score of a document, and not again: what is noted as the document counted last is before the
one stood on until that one is scored, and is that one afterwards.
-/

namespace Retrieval

/-- What to expect of a group of clauses of which `k d` match a document `d`. -/
def Prospect.counted (k : DocId → Nat) (P : Prospect) : Prospect where
  docs := P.docs
  docsFrom := P.docsFrom
  later := P.later
  holds := P.holds
  scores d v n := ∃ m, P.scores d v m ∧ n = k d + m

namespace Counted

open Cursor

variable {σ : Type} [Cursor σ] {P : Prospect} {D : Set DocId} {k : DocId → Nat}
variable {stands : DocId → Option Score → ClauseGroup σ → Prop}

/-- A counted group that counts for the enclosing search. -/
structure Standing (stands : DocId → Option Score → ClauseGroup σ → Prop) (d : DocId)
    (v : Option Score) (c : Counted σ) : Prop where
  group : stands d v c.group
  tally : c.tally = .enclosing
  uncounted : v = none → c.counted < d
  counted : ∀ s, v = some s → c.counted = d

omit [Cursor σ] in
theorem Standing.moved {d e : DocId} {v : Option Score} {c : Counted σ} {group : ClauseGroup σ}
    (h : Standing stands d v c) (later : d < e) (group' : stands e none group) :
    Standing stands e none { c with group } where
  group := group'
  tally := h.tally
  uncounted := by
    intro _
    cases v with
    | none => exact Int32.lt_trans (h.uncounted rfl) later
    | some s => exact (h.counted s rfl).symm ▸ later
  counted := by simp

/-- Counting keeps the promise of a group that tells how many of its clauses match. -/
theorem faithful_standing (kept : Faithful P D stands)
    (tells : ∀ {d v g}, stands d v g → g.matched = k d) :
    Faithful (P.counted k) D (Standing stands) where
  doc := fun h => kept.doc h.group
  mem := fun h => kept.mem h.group
  nonneg := fun h => kept.nonneg h.group
  next := fun h => (kept.next h.group).within fun _ _ least stood =>
    ⟨h.moved least.1.2 stood.1, stood.2⟩
  ahead := fun h later => (kept.ahead h.group later).within fun _ _ least stood =>
    ⟨h.moved (Int32.lt_of_lt_of_le later least.1.2) stood.1, stood.2⟩
  held := by
    intro d v c t h nonneg back inside
    obtain ⟨group, eq, stood, fewer⟩ := kept.held h.group nonneg back inside
    refine ⟨{ c with group }, ?_, ⟨stood, h.tally, h.uncounted, h.counted⟩, fewer⟩
    show (Cursor.seek c.group t).within _ = _
    rw [eq, Outcome.within_done]
  lost := by
    intro d v c t h nonneg back outside
    obtain ⟨group, eq⟩ := kept.lost h.group nonneg back outside
    refine ⟨{ c with group }, ?_⟩
    show (Cursor.seek c.group t).within _ = _
    rw [eq, Outcome.within_done]
  score := by
    intro d c h
    obtain ⟨s, m, group, eq, scored, stood, fewer⟩ := kept.score h.group
    refine ⟨s, k d + m, { c with group, counted := d }, ?_, ⟨m, scored, rfl⟩,
      ⟨stood, h.tally, by simp, by simp⟩, fewer⟩
    show score c = _
    have first : c.counted < Cursor.doc c.group := kept.doc h.group ▸ h.uncounted rfl
    have due : c.due = .count (k d) := by
      rw [Counted.due, if_pos first, h.tally, tells h.group]
      rfl
    rw [score, due, eq, if_pos first, kept.doc h.group]
    simp only [Outcome.within, Outcome.marking, Marks.count_append]
  again := by
    intro d v c h
    show score c = _
    have already : ¬ c.counted < Cursor.doc c.group := by
      rw [kept.doc h.group, h.counted v rfl]
      exact Int32.lt_irrefl
    have due : c.due = .zero := by rw [Counted.due, if_neg already]
    rw [score, due, kept.again h.group, if_neg already, Outcome.within_done, Outcome.marking_zero]

/-- A counted group that has not been moved. Nothing has been counted that could be counted later.
-/
structure AtRest (P : Prospect) (unmoved : ClauseGroup σ → Prop) (c : Counted σ) : Prop where
  group : unmoved c.group
  tally : c.tally = .enclosing
  counted : ∀ {d}, P.Reaches d → c.counted = .beforeFirst

section AtRest

variable {stands : Set DocId → DocId → Option Score → ClauseGroup σ → Prop}
variable {unmoved : ClauseGroup σ → Prop}

/-- The first document that the group is moved to has not been counted yet. -/
theorem AtRest.moved {c : Counted σ} {d : DocId} {g : ClauseGroup σ} (h : AtRest P unmoved c)
    (kept : Faithful P D (stands D)) (reaches : P.Reaches d) (stood : stands D d none g) :
    Standing (stands D) d none { c with group := g } where
  group := stood
  tally := h.tally
  uncounted := fun _ => by
    show c.counted < d
    exact h.counted reaches ▸ DocId.beforeFirst_lt (kept.nonneg stood)
  counted := by simp

/-- Counting a group that rests. -/
theorem resting_atRest (resting : Resting P stands unmoved) (kept : ∀ D, Faithful P D (stands D)) :
    Resting (P.counted k) (fun D => Standing (stands D)) (AtRest P unmoved) where
  starts := by
    intro c h
    have starts := resting.starts h.group
    constructor
    · exact starts.next.within fun d g least stood =>
        ⟨h.moved (kept _) (.inl least.1) stood.1, stood.2⟩
    · exact fun {t} nonneg => (starts.seek nonneg).within fun d g least stood =>
        ⟨h.moved (kept _) (.inr ⟨t, least.1⟩) stood.1, stood.2⟩
  doc := fun h reaches => resting.doc h.group reaches
  score := by
    intro c h
    refine ⟨resting.score h.group, h.tally, fun reaches => ?_⟩
    show (if c.counted < Cursor.doc c.group then Cursor.doc c.group else c.counted) = _
    split
    · exact resting.doc h.group reaches
    · exact h.counted reaches

theorem rests_ofGroup {g : ClauseGroup σ} (resting : Resting P stands unmoved)
    (kept : ∀ D, Faithful P D (stands D)) (tells : ∀ {D d v g}, stands D d v g → g.matched = k d)
    (h : unmoved g) : Rests (P.counted k) (ofGroup g .enclosing) :=
  (resting_atRest resting kept).rests (fun D => faithful_standing (kept D) tells)
    ⟨h, rfl, fun _ => rfl⟩

end AtRest

/-- Counting changes nothing before the first document. -/
theorem state_score_ofGroup {g : ClauseGroup σ} (before : Cursor.doc g = .beforeFirst)
    (steady : (Cursor.score g).state = g) (tally : Tally) :
    (Cursor.score (ofGroup g tally)).state = ofGroup g tally := by
  show Counted.mk (Cursor.score g).state tally
    (if DocId.beforeFirst < Cursor.doc g then Cursor.doc g else .beforeFirst) = _
  rw [steady, before, if_neg Int32.lt_irrefl]
  rfl

theorem embeds_one : Embeds (ClauseGroup.one : σ → ClauseGroup σ) :=
  ⟨fun _ => rfl, fun _ => rfl, fun _ _ => rfl, fun _ => rfl, fun _ => rfl⟩

theorem embeds_all (size : Nat) : Embeds (ClauseGroup.all (σ := σ) · size) :=
  ⟨fun _ => rfl, fun _ => rfl, fun _ _ => rfl, fun _ => rfl, fun _ => rfl⟩

theorem embeds_atLeast : Embeds (ClauseGroup.atLeast : Threshold σ → ClauseGroup σ) :=
  ⟨fun _ => rfl, fun _ => rfl, fun _ _ => rfl, fun _ => rfl, fun _ => rfl⟩

/-- A single clause counts one. -/
theorem rests_one {c : σ} (rests : Rests P c) :
    Rests (P.counted fun _ => 1) (Counted.one c .enclosing) := by
  refine rests_ofGroup (embeds_one.resting resting_rests)
    (fun D => embeds_one.faithful faithful_stands) ?_ ⟨c, rfl, rests⟩
  rintro D d v _ ⟨c, rfl, -⟩
  rfl

variable {Ps : List Prospect} {ps : List σ}

/-- All clauses together count as many as there are. -/
theorem rests_all (rule : CoordRule) (nonempty : Ps ≠ []) (rests : List.Forall₂ Rests Ps ps) :
    Rests ((Prospect.all (rule.factor Ps.length Ps.length) Ps).counted fun _ => Ps.length)
      (Counted.all rule ps .enclosing) := by
  refine rests_ofGroup ((embeds_all ps.length).resting resting_rests)
    (fun D => (embeds_all ps.length).faithful faithful_stands) ?_
    ⟨_, rfl, Conjunction.rests_ofParts rule nonempty rests⟩
  rintro D d v _ ⟨c, rfl, -⟩
  exact rests.length_eq.symm

omit [Cursor σ] in
theorem atLeast_eq {needed : Nat} (several : 1 < ps.length) (positive : 0 < needed) :
    Counted.atLeast needed ps .enclosing =
      .ok (ofGroup (.atLeast (.ofWaiting needed ps)) .enclosing) := by
  rw [Counted.atLeast, Threshold.ofAlternatives_eq several positive]
  rfl

/-- Enough clauses count those that contain the document. -/
theorem rests_atLeast {needed : Nat} (positive : 0 < needed) (silent : ∀ P ∈ Ps, P.Silent)
    {T : Threshold σ} (before : Cursor.doc T = .beforeFirst)
    (starts : Starts (Prospect.quorum needed Ps) (Threshold.StandsIn needed Ps) T) :
    Rests ((Prospect.quorum needed Ps).counted fun d => (Prospect.meeting {d} Ps).length)
      (ofGroup (.atLeast T) .enclosing) := by
  refine rests_ofGroup (embeds_atLeast.resting (starts.resting before rfl))
    (fun D => embeds_atLeast.faithful (Threshold.faithful_standsIn silent positive D)) ?_
    ⟨T, rfl, rfl⟩
  rintro D d v _ ⟨T, rfl, standing, -⟩
  exact standing.matched_eq

end Counted

end Retrieval
