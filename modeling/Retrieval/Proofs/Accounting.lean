import Retrieval.Proofs.Exhaustion
import Retrieval.Proofs.Composition

/-!
# How a search counts its clauses

A search knows two numbers: how many clauses are waiting to be composed, and how many of all clauses
count towards coordination. As long as clauses are being collected, the first is the number of all
that have been taken. Composing them takes them away, so from then on it is zero, while the second
number stays. A search begins with any move or request for a score, but not with a target that is
refused; from then on no further clause is taken.
-/

namespace Retrieval

open Cursor

namespace Boolean.Clauses

variable {σ : Type}

theorem exists_guard (core : Core σ) (prohibited : List σ) :
    ∃ g, guard core prohibited = .ok g := by
  cases prohibited with
  | nil => exact ⟨_, rfl⟩
  | cons first rest =>
      cases rest with
      | nil => exact ⟨_, rfl⟩
      | cons second rest =>
          have several : 1 < (first :: second :: rest).length := by simp
          have made := Threshold.ofAlternatives_eq several Nat.one_pos
          refine ⟨.inr (.ofParts core (.inr (.ofWaiting 1 (first :: second :: rest)))), ?_⟩
          simp only [guard, Threshold.any, made]
          rfl

theorem exists_deciding (core : Core σ) (prohibited : List σ) : ∃ c : Composition σ,
    (do return .inr (.inl (← guard core prohibited)) : Except Failure (Composition σ)) = .ok c := by
  obtain ⟨g, made⟩ := exists_guard core prohibited
  exact ⟨_, by rw [made]; rfl⟩

theorem exists_composeOptional (minOptional : Nat) (optional prohibited : List σ) :
    ∃ c, composeOptional minOptional optional prohibited = .ok c := by
  rw [composeOptional]
  by_cases few : optional.length < max minOptional 1
  · exact ⟨_, if_pos few⟩
  rw [if_neg few]
  by_cases many : max minOptional 1 < optional.length
  · rw [if_pos many, Counted.atLeast_eq (by omega) (by omega)]
    exact exists_deciding _ prohibited
  · rw [if_neg many]
    exact exists_deciding _ prohibited

theorem exists_composeRequired (minOptional : Nat) (required optional prohibited : List σ) :
    ∃ c, composeRequired minOptional required optional prohibited = .ok c := by
  rw [composeRequired]
  by_cases few : optional.length < minOptional
  · exact ⟨_, if_pos few⟩
  rw [if_neg few]
  by_cases same : optional.length = minOptional
  · rw [if_pos same]
    exact exists_deciding _ prohibited
  rw [if_neg same]
  by_cases some : 0 < minOptional
  · rw [if_pos some, Counted.atLeast_eq (by omega) some]
    exact exists_deciding _ prohibited
  · rw [if_neg some]
    obtain ⟨g, made⟩ := exists_guard (.inl (conjoin required)) prohibited
    cases optional with
    | nil => simp at few same; omega
    | cons first rest =>
        cases rest with
        | nil => exact ⟨_, by simp only [made]; rfl⟩
        | cons second rest =>
            have several : 1 < (first :: second :: rest).length := by simp
            exact ⟨_, by simp only [Counted.atLeast_eq several Nat.one_pos, made]; rfl⟩

theorem exists_compose (minOptional : Nat) (clauses : Clauses σ) :
    ∃ c, clauses.compose minOptional = .ok c := by
  rw [compose]
  split
  · exact exists_composeOptional _ _ _
  · exact exists_composeRequired _ _ _ _

end Boolean.Clauses

namespace BooleanCursor

open Boolean

variable {σ : Type}

/-- A search that has begun with a call, or had begun before. -/
structure Begun (c c' : BooleanCursor σ) : Prop where
  rules : c'.rules = c.rules
  counting : c'.countingClauses = c.countingClauses
  composed : ∃ composition, c'.stage = .composed composition

variable [Cursor σ] {c c' : BooleanCursor σ}

theorem begun_compose (c : BooleanCursor σ) :
    ∃ composition c', c.compose = .done c' composition ∧ c.Begun c' := by
  cases stage : c.stage with
  | composed composition =>
      exact ⟨composition, c, compose_composed stage, rfl, rfl, composition, stage⟩
  | collecting clauses =>
      obtain ⟨composition, made⟩ := clauses.exists_compose c.rules.minOptional
      refine ⟨composition, { c with
        coordination := c.coordination.tabulate c.rule
        stage := .composed composition }, ?_, rfl, rfl, composition, rfl⟩
      rw [compose, stage]
      simp only [made]

omit [Cursor σ] in
theorem Begun.resume {α : Type} (h : c.Begun c') (o : Outcome (Composition σ) α) :
    c.Begun (c'.resume o).state :=
  ⟨h.rules, h.counting, o.state, rfl⟩

theorem begun_next (c : BooleanCursor σ) : c.Begun (Cursor.next c).state := by
  obtain ⟨composition, c', composes, begun⟩ := c.begun_compose
  show c.Begun c.next.state
  rw [next, composes, Outcome.andThen_done]
  exact begun.resume _

theorem begun_seek (c : BooleanCursor σ) {t : DocId} (nonneg : 0 ≤ t) :
    c.Begun (Cursor.seek c t).state := by
  obtain ⟨composition, c', composes, begun⟩ := c.begun_compose
  show c.Begun (c.seek t).state
  rw [seek, if_neg (Int32.not_lt.mpr nonneg), composes, Outcome.andThen_done]
  exact begun.resume _

theorem begun_score (c : BooleanCursor σ) : c.Begun (Cursor.score c).state := by
  obtain ⟨composition, c', composes, begun⟩ := c.begun_compose
  show c.Begun c.score.state
  rw [score, composes, Outcome.andThen_done]
  have entered : (c'.coordination.enter (Cursor.doc composition)).clauses =
      c'.coordination.clauses := by
    rw [Coordination.enter]
    split <;> rfl
  have turned : c.Begun { c' with
      coordination := c'.coordination.enter (Cursor.doc composition) } :=
    ⟨begun.rules, entered.trans begun.counting, begun.composed⟩
  exact Outcome.state_bind _ (turned.resume _) fun _ _ => turned.resume _

/-- What can be asked of a search. -/
inductive Request (σ : Type) where
  | add (role : Role) (clause : σ)
  | next
  | seek (target : DocId)
  | score

/-- A search, with the roles of the clauses that it has taken so far, and whether it has begun. -/
structure Life (σ : Type) where
  search : BooleanCursor σ
  taken : List Role := []
  begun : Bool := false

/-- How life goes on after a request. Whether it is answered or not, a move or a request for a score
begins the search, unless it is a target before all documents. A clause that is refused leaves
everything as it was. -/
def Life.after (l : Life σ) : Request σ → Life σ
  | .add role clause =>
    match l.search.add role clause with
    | .ok search => { l with search, taken := l.taken ++ [role] }
    | .error _ => l
  | .next => { l with search := (Cursor.next l.search).state, begun := true }
  | .seek target =>
    { l with search := (Cursor.seek l.search target).state, begun := l.begun || 0 ≤ target }
  | .score => { l with search := (Cursor.score l.search).state, begun := true }

/-- The life of a search up to the last of some requests. -/
def life (fresh : BooleanCursor σ) (requests : List (Request σ)) : Life σ :=
  requests.foldl Life.after { search := fresh }

/-- What a search has taken agrees with its numbers. -/
structure Life.Accounts (rules : ClauseRules) (l : Life σ) : Prop where
  fixed : l.search.rules = rules
  counting : l.search.countingClauses = l.taken.countP (·.counts)
  bounded : l.taken.length ≤ rules.maxClauses
  stage : if l.begun then ∃ composition, l.search.stage = .composed composition
    else ∃ clauses, l.search.stage = .collecting clauses ∧ clauses.size = l.taken.length

variable {rules : ClauseRules} {l : Life σ}

omit [Cursor σ] in
theorem Life.Accounts.begin (h : l.Accounts rules) {search : BooleanCursor σ}
    (begun : l.search.Begun search) : Life.Accounts rules { l with search, begun := true } where
  fixed := begun.rules.trans h.fixed
  counting := begun.counting.trans h.counting
  bounded := h.bounded
  stage := begun.composed

omit [Cursor σ] in
/-- A clause that is taken is one of those that are waiting, and there was room for it. -/
theorem Life.Accounts.take (h : l.Accounts rules) {role : Role} {clause : σ}
    {search : BooleanCursor σ} (added : l.search.add role clause = .ok search) :
    Life.Accounts rules { l with search, taken := l.taken ++ [role] } := by
  have stage := h.stage
  rw [add] at added
  split at added
  case h_1 => exact absurd added Outcome.error_ne_ok
  case h_2 clauses collecting =>
    split at added
    · exact absurd added Outcome.error_ne_ok
    · rename_i room
      obtain rfl := Except.ok.inj added
      have waiting : l.begun = false ∧ clauses.size = l.taken.length := by
        cases begun : l.begun with
        | true => simp [begun, collecting] at stage
        | false =>
            refine ⟨rfl, ?_⟩
            simpa [begun, collecting] using stage
      rw [h.fixed, waiting.2] at room
      refine ⟨h.fixed, ?_, ?_, ?_⟩
      · have counting := h.counting
        simp only [countingClauses, List.countP_append, List.countP_singleton] at counting ⊢
        cases role <;> simp [Role.counts, Coordination.addClause, counting]
      · rw [List.length_append, List.length_singleton]
        omega
      · simp [waiting, Clauses.size_add]

theorem Life.Accounts.after (h : l.Accounts rules) (request : Request σ) :
    (l.after request).Accounts rules := by
  cases request with
  | add role clause =>
      rw [Life.after]
      cases added : l.search.add role clause with
      | ok search => exact h.take added
      | error failure => exact h
  | next => exact h.begin l.search.begun_next
  | seek target =>
      by_cases nonneg : 0 ≤ target
      · have begun := h.begin (l.search.begun_seek nonneg)
        simpa [Life.after, nonneg] using begun
      · have refused : Cursor.seek l.search target = .fail l.search (.negativeTarget target) :=
          if_pos (Int32.not_le.mp nonneg)
        simpa [Life.after, nonneg, refused, Outcome.fail] using h
  | score => exact h.begin l.search.begun_score

theorem accounts_life {rule : CoordRule} {fresh : BooleanCursor σ}
    (made : create rule rules = .ok fresh) (requests : List (Request σ)) :
    (life fresh requests).Accounts rules := by
  have start : Life.Accounts rules { search := fresh } := by
    rw [create, ClauseRules.validate] at made
    split at made
    · exact absurd made Outcome.error_ne_ok
    · obtain rfl := Except.ok.inj made
      exact ⟨rfl, rfl, Nat.zero_le _, _, rfl, rfl⟩
  rw [life]
  generalize ({ search := fresh } : Life σ) = l at start
  induction requests generalizing l with
  | nil => exact start
  | cons request requests ih => exact ih _ (start.after request)

/-- As long as a search has not begun, as many clauses are waiting as it has taken; from then on,
none. The number of those taken that count towards coordination is known all the time, and never
more are taken, nor waiting, than the rules allow. -/
theorem size_life {rule : CoordRule} {fresh : BooleanCursor σ}
    (made : create rule rules = .ok fresh) (requests : List (Request σ)) :
    (life fresh requests).search.size =
        (if (life fresh requests).begun then 0 else (life fresh requests).taken.length) ∧
      (life fresh requests).search.countingClauses =
        (life fresh requests).taken.countP (·.counts) ∧
      (life fresh requests).search.size ≤ rules.maxClauses ∧
      (life fresh requests).taken.length ≤ rules.maxClauses := by
  have accounts := accounts_life made requests
  generalize life fresh requests = l at accounts
  have stage := accounts.stage
  have bounded := accounts.bounded
  have size : l.search.size = if l.begun then 0 else l.taken.length := by
    cases begun : l.begun with
    | true =>
        rw [begun, if_pos rfl] at stage
        obtain ⟨composition, composed⟩ := stage
        rw [BooleanCursor.size, composed, if_pos rfl]
    | false =>
        rw [begun, if_neg Bool.false_ne_true] at stage
        obtain ⟨clauses, collecting, same⟩ := stage
        rw [BooleanCursor.size, collecting, if_neg Bool.false_ne_true]
        exact same
  refine ⟨size, accounts.counting, ?_, bounded⟩
  rw [size]
  split
  · exact Nat.zero_le _
  · exact bounded

def roomy : BooleanCursor PostingCursor where
  rules := { maxClauses := 2 }
  rule := .fraction
  coordination := {}
  stage := .collecting {}

def oneClause : List (Request PostingCursor) := [.add .required (.ofDocs [14] 1), .next]

/-- The clause that has been taken is not waiting any more once the search has moved. -/
theorem size_life_forgotten : create .fraction { maxClauses := 2 } = .ok roomy ∧
    (life roomy oneClause).taken.length = 1 ∧ (life roomy oneClause).search.size = 0 :=
  ⟨rfl, by decide +kernel, by decide +kernel⟩

/-- Two clauses are taken; a third one, and one after the search has begun, are refused. -/
def fourClauses : List (Request PostingCursor) :=
  [.add .required (.ofDocs [14] 1), .add .prohibited (.ofDocs [16] 1),
    .add .optional (.ofDocs [14] 1), .seek (-2), .next, .add .optional (.ofDocs [16] 1)]

/-- Just before the move both are waiting, although a target has been refused; after it, none. -/
theorem size_life_roomy : create .fraction { maxClauses := 2 } = .ok roomy ∧
    (life roomy (fourClauses.take 4)).search.size = 2 ∧
    (life roomy (fourClauses.take 4)).search.countingClauses = 1 ∧
    (life roomy fourClauses).search.size = 0 ∧
    (life roomy fourClauses).search.countingClauses = 1 := by
  have made : create (σ := PostingCursor) .fraction { maxClauses := 2 } = .ok roomy := rfl
  obtain ⟨waiting, counting, -⟩ := size_life made (fourClauses.take 4)
  obtain ⟨gone, counting', -⟩ := size_life made fourClauses
  refine ⟨made, waiting.trans ?_, counting.trans ?_, gone.trans ?_, counting'.trans ?_⟩ <;>
    decide +kernel

end BooleanCursor

end Retrieval
