import Retrieval.Cursor.Boolean
import Retrieval.Proofs.Bonus
import Retrieval.Proofs.Counted
import Retrieval.Proofs.Exclusion

/-!
# Composing clauses

What to expect of a composition is put together from what to expect of the clauses in the same way
as the composition is put together from their cursors. Composing never fails, for a threshold is
made only over several clauses, at least one of which is needed.

In one shape of composition the scores depend on the first document that is scored, so expectations
carry a set of documents that this one is in.
-/

namespace Retrieval

namespace Prospect

def nothing : Prospect where
  docs := ∅
  docsFrom _ := ∅
  later _ := Set.empty_subset _
  holds := ∅
  scores _ _ _ := False

def conjoined (Ps : List Prospect) : Prospect :=
  (all (CoordRule.fraction.factor Ps.length Ps.length) Ps).counted fun _ => Ps.length

noncomputable def enough (needed : Nat) (Ps : List Prospect) : Prospect :=
  (quorum needed Ps).counted fun d => (meeting {d} Ps).length

/-- The required clauses; a single one needs no conjunction. -/
def core : List Prospect → Prospect
  | [P] => P.counted fun _ => 1
  | Ps => conjoined Ps

/-- The clauses that only add to the scores. -/
noncomputable def extra : List Prospect → Prospect
  | [P] => P.counted fun _ => 1
  | Ps => enough 1 Ps

/-- The prohibited documents are left out. -/
noncomputable def guarded (P : Prospect) : List Prospect → Prospect
  | [] => P
  | [X] => P.without X
  | Xs => P.without (quorum 1 Xs)

/-- What to expect of clauses none of which is required. -/
noncomputable def composedOptional (minOptional : Nat) (Os Xs : List Prospect) : Prospect :=
  if Os.length < max minOptional 1 then nothing
  else if max minOptional 1 < Os.length then guarded (enough (max minOptional 1) Os) Xs
  else guarded (core Os) Xs

/-- What to expect of clauses some of which are required, if the first document scored is one of
`T`. -/
noncomputable def composedRequired (minOptional : Nat) (Rs Os Xs : List Prospect) (T : Set DocId) :
    Prospect :=
  if Os.length < minOptional then nothing
  else if Os.length = minOptional then guarded (conjoined (Rs ++ Os)) Xs
  else if 0 < minOptional then
    guarded (all (CoordRule.fraction.factor 2 2) [core Rs, enough minOptional Os]) Xs
  else (guarded (core Rs) Xs).withBonus (extra Os) T

noncomputable def composed (minOptional : Nat) (Rs Os Xs : List Prospect) (T : Set DocId) :
    Prospect :=
  if Rs.isEmpty then composedOptional minOptional Os Xs
  else composedRequired minOptional Rs Os Xs T

end Prospect

namespace Boolean

open Cursor Prospect

variable {σ : Type} [Cursor σ]

theorem rests_nothing : Rests Prospect.nothing ({} : Nothing) := by
  have begins : ∀ c, Begins Prospect.nothing (c : Nothing) := fun c =>
    ⟨.missed c rfl rfl, fun _ => .missed c rfl rfl⟩
  refine ⟨fun _ => True, ⟨fun {c} _ => begins c, ?_, ?_⟩, trivial⟩
  · rintro c d - (inside | ⟨t, inside⟩) <;> exact absurd inside (Set.notMem_empty d)
  · exact fun _ => trivial

namespace Clauses

variable {P : Prospect} {Ps Rs Os Xs : List Prospect} {ps required optional prohibited : List σ}

theorem waits_of_idle (idle : List.Forall₂ Idle Ps ps) : List.Forall₂ Waits Ps ps :=
  idle.imp fun _ _ h => h.toWaits

theorem rests_of_idle (idle : List.Forall₂ Idle Ps ps) : List.Forall₂ Rests Ps ps :=
  idle.imp fun _ _ h => h.rests

theorem movesLeftInAll_mono (ps : List σ) : movesLeftInAll 0 ps ≤ movesLeftInAll 1 ps := by
  induction ps with
  | nil => exact Nat.le_refl _
  | cons p ps ih =>
      simp only [movesLeftInAll]
      omega

theorem rests_conjoined (nonempty : Ps ≠ []) (idle : List.Forall₂ Idle Ps ps) :
    Rests (conjoined Ps) (Counted.all .fraction ps .enclosing) ∧
      Cursor.movesLeft (Counted.all .fraction ps .enclosing) ≤ movesLeftInAll 1 ps + 1 :=
  ⟨Counted.rests_all .fraction nonempty (rests_of_idle idle),
    Nat.add_le_add_right (movesLeftInAll_mono ps) 1⟩

/-- Clauses that have to match all together. -/
theorem rests_conjoin (nonempty : Ps ≠ []) (idle : List.Forall₂ Idle Ps ps) :
    Rests (core Ps) (conjoin ps) ∧ Cursor.movesLeft (conjoin ps) ≤ movesLeftInAll 1 ps + 1 := by
  cases idle with
  | nil => exact absurd rfl nonempty
  | @cons P p Ps ps first rest =>
      cases rest with
      | nil =>
          refine ⟨Counted.rests_one first.rests, ?_⟩
          show Cursor.movesLeft p ≤ _
          simp only [movesLeftInAll]
          omega
      | cons second rest => exact rests_conjoined nonempty (.cons first (.cons second rest))

/-- Clauses enough of which have to match. -/
theorem rests_enough {needed : Nat} (several : 1 < Ps.length) (positive : 0 < needed)
    (silent : ∀ P ∈ Ps, P.Silent) (idle : List.Forall₂ Idle Ps ps) :
    ∃ c, Counted.atLeast needed ps .enclosing = .ok c ∧ Rests (enough needed Ps) c ∧
      Cursor.movesLeft c ≤ movesLeftInAll 1 ps + 1 :=
  ⟨_, Counted.atLeast_eq (idle.length_eq ▸ several) positive,
    Counted.rests_atLeast positive silent rfl
      (Threshold.starts_ofWaiting (waits_of_idle idle) silent positive), Nat.le_refl _⟩

/-- A single clause refuses to be sought before all documents. -/
theorem braced_one {p : σ} (idle : Idle P p) :
    Bonus.Braced (P.counted fun _ => 1) (Counted.one p .enclosing) := by
  obtain ⟨failure, eq⟩ := idle.refuses (show DocId.beforeFirst < 0 by decide)
  have refused : Cursor.seek (Counted.one p .enclosing) .beforeFirst =
      .fail (Counted.one p .enclosing) failure := by
    show ((Cursor.seek p _).within ClauseGroup.one).within _ = _
    rw [eq]
    rfl
  exact .refuses refused

/-- Several clauses, sought before all documents, are gathered and stay there. -/
theorem braced_enough (silent : ∀ P ∈ Ps, P.Silent) (idle : List.Forall₂ Idle Ps ps) :
    Bonus.Braced (enough 1 Ps) (Counted.ofGroup (.atLeast (.ofWaiting 1 ps)) .enclosing) := by
  have sought : ∀ {T found}, Cursor.seek (Threshold.ofWaiting 1 ps) .beforeFirst = .done T found →
      Cursor.seek (Counted.ofGroup (.atLeast (.ofWaiting 1 ps)) .enclosing) .beforeFirst =
        .done (Counted.ofGroup (.atLeast T) .enclosing) found := by
    intro T found eq
    show ((Cursor.seek (Threshold.ofWaiting 1 ps) _).within ClauseGroup.atLeast).within _ = _
    rw [eq]
    rfl
  obtain ⟨T, eq, before, starts⟩ | ⟨T, eq, empty⟩ :=
    Threshold.seek_beforeFirst (waits_of_idle idle) silent Nat.one_pos
  · exact .accepts (sought eq) ⟨(Counted.rests_atLeast Nat.one_pos silent before starts).begins,
      before, Counted.state_score_ofGroup before rfl .enclosing⟩
  · exact .lacks (sought eq) fun t => Set.subset_eq_empty Set.inter_subset_left empty

/-- Clauses that only add to the scores: a single one, or at least one of several. -/
theorem begins_extra (nonempty : Ps ≠ []) (silent : ∀ P ∈ Ps, P.Silent)
    (idle : List.Forall₂ Idle Ps ps) :
    ∃ c, ((∃ p, ps = [p] ∧ c = Counted.one p .enclosing) ∨
        ∃ p p' rest, ps = p :: p' :: rest ∧ Counted.atLeast 1 ps .enclosing = .ok c) ∧
      Begins (extra Ps) c ∧ Bonus.Braced (extra Ps) c ∧
      Cursor.movesLeft c ≤ movesLeftInAll 1 ps + 1 := by
  cases idle with
  | nil => exact absurd rfl nonempty
  | @cons P p Ps ps first rest =>
      cases rest with
      | nil =>
          refine ⟨_, .inl ⟨p, rfl, rfl⟩, (Counted.rests_one first.rests).begins, braced_one first,
            ?_⟩
          show Cursor.movesLeft p ≤ _
          simp only [movesLeftInAll]
          omega
      | cons second rest =>
          have idle := List.Forall₂.cons first (.cons second rest)
          obtain ⟨c, made, rests, moves⟩ := rests_enough (by simp) Nat.one_pos silent idle
          have braced := braced_enough silent idle
          rw [Counted.atLeast_eq (by simp) Nat.one_pos] at made
          obtain rfl := Except.ok.inj made
          exact ⟨_, .inr ⟨_, _, _, rfl, Counted.atLeast_eq (by simp) Nat.one_pos⟩, rests.begins,
            braced, moves⟩

/-- Prohibited clauses around the others. -/
theorem rests_guard {core : Core σ} (rests : Rests P core) (silent : ∀ X ∈ Xs, X.Silent)
    (idle : List.Forall₂ Idle Xs prohibited) :
    ∃ g, guard core prohibited = .ok g ∧ Rests (guarded P Xs) g ∧
      Cursor.movesLeft g ≤ Cursor.movesLeft core + movesLeftInAll 1 prohibited + 1 := by
  cases idle with
  | nil => exact ⟨_, rfl, embeds_inl.rests rests, Nat.le_succ _⟩
  | @cons X p Xs ps first rest =>
      cases rest with
      | nil =>
          refine ⟨_, rfl, embeds_inr.rests
            (Exclusion.rests_ofParts rests (embeds_inl.begins first.toStarts)), ?_⟩
          show Cursor.movesLeft core + Cursor.movesLeft p ≤ _
          simp only [movesLeftInAll]
          omega
      | @cons X' p' Xs ps second rest =>
          have waits : List.Forall₂ Waits (X :: X' :: Xs) (p :: p' :: ps) :=
            waits_of_idle (.cons first (.cons second rest))
          have several : 1 < (p :: p' :: ps).length := by simp
          have made := Threshold.ofAlternatives_eq several Nat.one_pos
          refine ⟨.inr (.ofParts core (.inr (.ofWaiting 1 (p :: p' :: ps)))), ?_,
            embeds_inr.rests (Exclusion.rests_ofParts rests
              (embeds_inr.begins (Threshold.begins_ofWaiting waits silent Nat.one_pos))), ?_⟩
          · simp only [guard, Threshold.any, made]
            rfl
          · exact Nat.le_of_eq (Nat.add_assoc _ _ _).symm

/-- Clauses that decide alone which documents match, with prohibited clauses around them. -/
theorem rests_deciding {core : Core σ} {m : Nat} (rests : Rests P core)
    (moves : Cursor.movesLeft core ≤ m) (silent : ∀ X ∈ Xs, X.Silent)
    (idle : List.Forall₂ Idle Xs prohibited) :
    ∃ c : Composition σ,
      (do return .inr (.inl (← guard core prohibited)) : Except Failure (Composition σ)) = .ok c ∧
      Rests (guarded P Xs) c ∧ Cursor.movesLeft c ≤ m + movesLeftInAll 1 prohibited + 1 := by
  obtain ⟨g, made, rests', moves'⟩ := rests_guard rests silent idle
  refine ⟨.inr (.inl g), ?_, embeds_inr.rests (embeds_inl.rests rests'), ?_⟩
  · rw [made]
    rfl
  · show Cursor.movesLeft g ≤ _
    omega

theorem composeOptional_spec (minOptional : Nat) (silent : ∀ P ∈ Os ++ Xs, P.Silent)
    (idle : List.Forall₂ Idle Os optional) (idle' : List.Forall₂ Idle Xs prohibited) :
    ∃ c, composeOptional minOptional optional prohibited = .ok c ∧
      Rests (composedOptional minOptional Os Xs) c ∧
      Cursor.movesLeft c ≤ movesLeftInAll 1 optional + movesLeftInAll 1 prohibited + 2 := by
  have silentOs : ∀ P ∈ Os, P.Silent := fun P inside => silent P (List.mem_append_left _ inside)
  have silentXs : ∀ P ∈ Xs, P.Silent := fun P inside => silent P (List.mem_append_right _ inside)
  have positive : 0 < max minOptional 1 := by omega
  rw [composeOptional, composedOptional, ← idle.length_eq]
  by_cases few : Os.length < max minOptional 1
  · rw [if_pos few, if_pos few]
    exact ⟨_, rfl, embeds_inl.rests rests_nothing, Nat.zero_le _⟩
  rw [if_neg few, if_neg few]
  by_cases many : max minOptional 1 < Os.length
  · rw [if_pos many, if_pos many]
    obtain ⟨c, made, rests, moves⟩ := rests_enough (by omega) positive silentOs idle
    obtain ⟨c', made', rests', moves'⟩ :=
      rests_deciding (embeds_inl.rests rests) moves silentXs idle'
    refine ⟨c', ?_, rests', by omega⟩
    rw [made]
    exact made'
  · rw [if_neg many, if_neg many]
    have nonempty : Os ≠ [] := by
      rintro rfl
      simp at few
    obtain ⟨rests, moves⟩ := rests_conjoin nonempty idle
    obtain ⟨c, made, rests', moves'⟩ :=
      rests_deciding (embeds_inl.rests rests) moves silentXs idle'
    exact ⟨c, made, rests', by omega⟩

theorem composeRequired_spec (minOptional : Nat) (nonempty : Rs ≠ [])
    (silent : ∀ P ∈ Os ++ Xs, P.Silent) (idle : List.Forall₂ Idle Rs required)
    (idle' : List.Forall₂ Idle Os optional) (idle'' : List.Forall₂ Idle Xs prohibited) :
    ∃ c, composeRequired minOptional required optional prohibited = .ok c ∧
      Starts (composedRequired minOptional Rs Os Xs Set.univ)
        (fun D d _ => Opens (composedRequired minOptional Rs Os Xs) D d) c ∧
      Rests (composedRequired minOptional Rs Os Xs Set.univ) c ∧
      Cursor.movesLeft c ≤ movesLeftInAll 1 required + movesLeftInAll 1 optional +
        movesLeftInAll 1 prohibited + 4 := by
  have silentOs : ∀ P ∈ Os, P.Silent := fun P inside => silent P (List.mem_append_left _ inside)
  have silentXs : ∀ P ∈ Xs, P.Silent := fun P inside => silent P (List.mem_append_right _ inside)
  unfold composedRequired
  rw [composeRequired, ← idle'.length_eq]
  by_cases few : Os.length < minOptional
  · simp only [if_pos few]
    have rests := (embeds_inl (τ := Guarded σ ⊕ Bonus (Guarded σ) (Counted σ))).rests rests_nothing
    exact ⟨_, rfl, rests.begins.imp Stands.opens, rests, Nat.zero_le _⟩
  simp only [if_neg few]
  by_cases same : Os.length = minOptional
  · simp only [if_pos same]
    have all : List.Forall₂ Idle (Rs ++ Os) (required ++ optional) := List.rel_append idle idle'
    obtain ⟨rests, moves⟩ :=
      rests_conjoined (List.append_ne_nil_of_left_ne_nil nonempty Os) all
    obtain ⟨c, made, rests', moves'⟩ :=
      rests_deciding (embeds_inl.rests rests) moves silentXs idle''
    rw [movesLeftInAll_append] at moves'
    exact ⟨c, made, rests'.begins.imp Stands.opens, rests', by omega⟩
  simp only [if_neg same]
  obtain ⟨rests, moves⟩ := rests_conjoin nonempty idle
  by_cases some : 0 < minOptional
  · simp only [if_pos some]
    obtain ⟨c, made, rests', moves'⟩ := rests_enough (by omega) some silentOs idle'
    have both : Rests (all (CoordRule.fraction.factor 2 2) [core Rs, enough minOptional Os])
        (Conjunction.ofParts .fraction [conjoin required, c]) :=
      Conjunction.rests_ofParts .fraction (List.cons_ne_nil _ _)
        (.cons rests (.cons rests' .nil))
    have left : Cursor.movesLeft (.inr (.ofParts .fraction [conjoin required, c]) : Core σ) ≤
        movesLeftInAll 1 required + movesLeftInAll 1 optional + 3 := by
      show Cursor.movesLeft (conjoin required) + 0 + (Cursor.movesLeft c + 0 + 0) + 1 ≤ _
      omega
    obtain ⟨c', made', rests'', moves''⟩ :=
      rests_deciding (embeds_inr.rests both) left silentXs idle''
    refine ⟨c', ?_, rests''.begins.imp Stands.opens, rests'', by omega⟩
    rw [made]
    exact made'
  · simp only [if_neg some]
    have extras : Os ≠ [] := by
      rintro rfl
      simp at few same
      omega
    obtain ⟨g, made', rests', moves''⟩ :=
      rests_guard (embeds_inl.rests rests) silentXs idle''
    obtain ⟨c, made, begins, braced, moves'⟩ := begins_extra extras silentOs idle'
    have atRest := Bonus.atRest_ofParts rests' begins braced
    refine ⟨.inr (.inr (.ofParts g c)), ?_, ?_,
      embeds_inr.rests (embeds_inr.rests (Bonus.rests_of_atRest atRest)), ?_⟩
    · rw [made']
      cases made with
      | inl single =>
          obtain ⟨p, rfl, rfl⟩ := single
          rfl
      | inr several =>
          obtain ⟨p, p', rest, rfl, made⟩ := several
          exact congrArg (Except.bind · _) made
    · apply (embeds_inr.starts (embeds_inr.starts atRest.starts)).imp
      rintro D d _ ⟨_, rfl, _, rfl, opens⟩
      exact embeds_inr.opens (embeds_inr.opens opens)
    · show Cursor.movesLeft g + Cursor.movesLeft c ≤ _
      have same : Cursor.movesLeft (.inl (conjoin required) : Core σ) =
        Cursor.movesLeft (conjoin required) := rfl
      omega

/-- Clauses that keep their promises are composed into a cursor that keeps its own. -/
theorem compose_spec (minOptional : Nat) (silent : ∀ P ∈ Os ++ Xs, P.Silent)
    (idle : List.Forall₂ Idle Rs required) (idle' : List.Forall₂ Idle Os optional)
    (idle'' : List.Forall₂ Idle Xs prohibited) :
    ∃ c, compose minOptional ⟨required, optional, prohibited⟩ = .ok c ∧
      Starts (composed minOptional Rs Os Xs Set.univ)
        (fun D d _ => Opens (composed minOptional Rs Os Xs) D d) c ∧
      Rests (composed minOptional Rs Os Xs Set.univ) c ∧
      Cursor.movesLeft c ≤ movesLeftInAll 1 (required ++ optional ++ prohibited) + 4 := by
  unfold composed
  rw [compose]
  simp only [movesLeftInAll_append]
  cases idle with
  | nil =>
      obtain ⟨c, made, rests, moves⟩ := composeOptional_spec minOptional silent idle' idle''
      refine ⟨c, made, rests.begins.imp Stands.opens, rests, ?_⟩
      simp only [movesLeftInAll]
      omega
  | cons first rest =>
      exact composeRequired_spec minOptional (List.cons_ne_nil _ _) silent (.cons first rest)
        idle' idle''

end Clauses

end Boolean

end Retrieval
