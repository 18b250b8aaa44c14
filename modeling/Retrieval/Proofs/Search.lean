import Retrieval.Proofs.Acceptance
import Retrieval.Proofs.Run

/-!
# Running a boolean search

A search that has been built can be run. On every document visited it gives a score that the
composition of its clauses may give, times the factor for the number of clauses counted, and has
counted as many. If each document is scored, the first one visited is the first one scored.
-/

namespace Retrieval

namespace BooleanCursor

open Boolean Cursor Prospect

variable {σ : Type} [Cursor σ] {rules : ClauseRules} {rule : CoordRule}
variable {added : List (Role × σ)} {Ps : List (Role × Prospect)} {search : BooleanCursor σ}

/-- The clauses of a search that has been built are composed as is expected of them. -/
theorem exists_composition (silent : ∀ x ∈ Ps, x.2.Silent)
    (idle : List.Forall₂ (fun x c => x.1 = c.1 ∧ Idle x.2 c.2) Ps added)
    (built : build rule rules added = .ok search) :
    ∃ (clauses : Clauses σ) (composition : Composition σ),
      search = ofClauses rules rule clauses ∧
      (counting Ps).length = clauses.required.length + clauses.optional.length ∧
      clauses.compose rules.minOptional = .ok composition ∧
      Starts (ofRoles rules Ps Set.univ) (fun D d _ => Opens (ofRoles rules Ps) D d) composition ∧
      Rests (ofRoles rules Ps Set.univ) composition ∧
      Cursor.movesLeft composition ≤ Cursor.movesLeft search := by
  obtain ⟨-, -, rfl⟩ := build_eq_ok.mp built
  have idleIn := forall₂_byRole idle
  have silentOthers : ∀ P ∈ byRole .optional Ps ++ byRole .prohibited Ps, P.Silent :=
    List.forall_mem_append.mpr ⟨forall_byRole silent .optional, forall_byRole silent .prohibited⟩
  obtain ⟨c, composes, starts, rests, moves⟩ := Clauses.compose_spec rules.minOptional silentOthers
    (idleIn .required) (idleIn .optional) (idleIn .prohibited)
  refine ⟨_, c, rfl, ?_, composes, starts, rests, Nat.le_succ_of_le moves⟩
  rw [counting, List.length_append, (idleIn .required).length_eq, (idleIn .optional).length_eq]
  rfl

/-- A search that has been built behaves as the composition of its clauses does. -/
theorem starts_build (silent : ∀ x ∈ Ps, x.2.Silent)
    (idle : List.Forall₂ (fun x c => x.1 = c.1 ∧ Idle x.2 c.2) Ps added)
    (built : build rule rules added = .ok search) :
    Starts ((ofRoles rules Ps Set.univ).coordinated rule (counting Ps).length)
      (fun D d _ => Opening (ofRoles rules Ps) D rule (counting Ps).length d) search := by
  obtain ⟨clauses, c, rfl, total, composes, starts, -, moves⟩ :=
    exists_composition silent idle built
  rw [total]
  exact starts_ofClauses rule composes starts moves

theorem atRest_build (silent : ∀ x ∈ Ps, x.2.Silent)
    (idle : List.Forall₂ (fun x c => x.1 = c.1 ∧ Idle x.2 c.2) Ps added)
    (built : build rule rules added = .ok search) :
    AtRest (ofRoles rules Ps Set.univ) rule (counting Ps).length search := by
  obtain ⟨clauses, c, rfl, total, composes, -, rests, moves⟩ :=
    exists_composition silent idle built
  rw [total]
  exact atRest_ofClauses rule composes rests moves

/-- A search that has been built can be a clause itself. -/
theorem idle_build (silent : ∀ x ∈ Ps, x.2.Silent)
    (idle : List.Forall₂ (fun x c => x.1 = c.1 ∧ Idle x.2 c.2) Ps added)
    (built : build rule rules added = .ok search) :
    Idle ((ofRoles rules Ps Set.univ).coordinated rule (counting Ps).length) search := by
  have rests := resting_atRest.rests (fun _ => faithful_standing
    (scores_ofRoles_le rules silent Set.univ)) (atRest_build silent idle built)
  have before : Cursor.doc search = .beforeFirst := by
    obtain ⟨-, -, rfl⟩ := build_eq_ok.mp built
    rfl
  exact ⟨⟨rests.begins, before⟩, rests, fun negative => ⟨_, if_pos negative⟩⟩

/-- What a search has counted for a document that it has scored. -/
theorem Standing.told {P : Prospect} {D : Set DocId} {total : Nat} {d : DocId} {w : Score}
    {c : BooleanCursor σ} (h : Standing P D rule total d (some w) c) :
    ∃ s n, P.scores d s n ∧ w = s * rule.factor (n % 2 ^ 64) total ∧ c.matched = .ofNat n := by
  cases h with
  | scored _ _ _ _ given matched => exact ⟨_, _, given, rfl, matched⟩

/-- A score, whether it is the first one asked for or not. -/
theorem Standing.score {P : Prospect} {D : Set DocId} {total : Nat} {d : DocId} {v : Option Score}
    {c : BooleanCursor σ} (bounded : ∀ d s n, P.scores d s n → n ≤ total)
    (h : Standing P D rule total d v c) : ∃ s n, P.scores d s n ∧
      (Cursor.score c).answer = .ok (s * rule.factor (n % 2 ^ 64) total) ∧
      (Cursor.score c).state.matched = .ofNat n := by
  have kept : Faithful _ D (Standing (σ := σ) P D rule total) := faithful_standing bounded
  cases v with
  | none =>
      obtain ⟨w, n, c', eq, -, stood, -⟩ := kept.score h
      obtain ⟨s, m, given, rfl, matched⟩ := stood.told
      exact ⟨s, m, given, by rw [eq], by rw [eq]; exact matched⟩
  | some w =>
      have eq := kept.again h
      obtain ⟨s, m, given, rfl, matched⟩ := h.told
      exact ⟨s, m, given, by rw [eq]; rfl, by rw [eq]; exact matched⟩

variable {F : Set DocId → Prospect} {D : Set DocId} {total : Nat}

/-- A run in which documents need not be scored. -/
theorem setsOut_any (bounded : ∀ T d s n, (F T).scores d s n → n ≤ total)
    (next : (Cursor.next search).Finds D fun d c =>
      Opening F D rule total d c ∧ Cursor.movesLeft c < Cursor.movesLeft search) :
    SetsOut D (fun _ => Standing (F Set.univ) D rule total) 0 search := by
  have kept : Faithful _ D (Standing (σ := σ) (F Set.univ) D rule total) :=
    faithful_standing (bounded Set.univ)
  refine next.imp fun d c _ stood => ⟨kept.doc stood.1.standing, stood.2, fun times _ => ?_⟩
  obtain ⟨w, stood', -, fewer⟩ := kept.afterScores times stood.1.standing
  exact ⟨w, stood', fun none => absurd none (Nat.lt_irrefl 0), fewer⟩

/-- A run in which every document is scored, so that the first one visited is the first one scored.
-/
theorem setsOut_each (bounded : ∀ T d s n, (F T).scores d s n → n ≤ total)
    (next : (Cursor.next search).Finds D fun d c =>
      Opening F D rule total d c ∧ Cursor.movesLeft c < Cursor.movesLeft search) :
    SetsOut D (fun first => Standing (F {first}) D rule total) 1 search := by
  refine next.imp fun d c _ stood => ⟨?_, stood.2, fun times often => ?_⟩
  · exact (faithful_standing (bounded Set.univ)).doc stood.1.standing
  obtain ⟨more, rfl⟩ := Nat.exists_eq_add_of_le' often
  obtain ⟨v, c', eq, stood', fewer⟩ := stood.1.score (bounded {d} d)
  have same : Cursor.afterScore c = c' := congrArg Outcome.state eq
  obtain ⟨w, stood'', given, fewer'⟩ :=
    (faithful_standing (bounded {d})).afterScores more stood'
  rw [Function.iterate_succ_apply, same]
  exact ⟨w, stood'', fun _ => given (.inl rfl), Nat.le_trans fewer' fewer⟩

end BooleanCursor

end Retrieval
