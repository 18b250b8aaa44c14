import Retrieval.Proofs.Composition

/-!
# Boolean searches keep their promise

A boolean search stands where its composition stands. The marks of the composition are its own: they
make up the count for the document scored, with which the factor is looked up. The count starts anew
on every document, since the document it belonged to before lies behind. The table of factors is
long enough, as no document matches more clauses than there are, and a count that wraps around only
gets smaller.
-/

namespace Retrieval

/-- What to expect of a search over `total` clauses that count, whose composition behaves as `P`
says. Nothing is counted outside the search. -/
def Prospect.coordinated (rule : CoordRule) (total : Nat) (P : Prospect) : Prospect where
  docs := P.docs
  docsFrom := P.docsFrom
  later := P.later
  holds := P.holds
  scores d v n := n = 0 ∧ ∃ s m, P.scores d s m ∧ v = s * rule.factor (m % 2 ^ 64) total

theorem Prospect.silent_coordinated {rule : CoordRule} {total : Nat} {P : Prospect} :
    (P.coordinated rule total).Silent := fun _ _ _ scored => scored.1

theorem Coordination.add_zero (c : Coordination) : c.add 0 = c := by
  simp [Coordination.add]

/-- The factors of a rule for every number of matched clauses out of `total`. -/
structure Coordination.Tabulated (rule : CoordRule) (total : Nat) (c : Coordination) : Prop where
  clauses : c.clauses = total
  factors : c.factors = (List.range (total + 1)).map (rule.factor · total)

theorem Coordination.Tabulated.factor_eq {rule : CoordRule} {total n : Nat} {c : Coordination}
    (h : c.Tabulated rule total) (matched : c.matched = .ofNat n) (le : n ≤ total) :
    c.factor = .ok (rule.factor (n % 2 ^ 64) total) := by
  have inside : n % 2 ^ 64 < total + 1 :=
    Nat.lt_succ_of_le (Nat.le_trans (Nat.mod_le _ _) le)
  have entry : c.factors[c.matched.toNat]? = some (rule.factor (n % 2 ^ 64) total) := by
    rw [h.factors, matched, UInt64.toNat_ofNat', List.getElem?_map, List.getElem?_range inside]
    rfl
  rw [Coordination.factor, entry]

namespace Boolean

variable {α β : Type}

def byRole (role : Role) (clauses : List (Role × α)) : List α :=
  (clauses.filter (·.1 = role)).map (·.2)

@[simp] theorem byRole_nil (role : Role) : byRole role ([] : List (Role × α)) = [] := rfl

theorem byRole_cons (role role' : Role) (a : α) (clauses : List (Role × α)) :
    byRole role ((role', a) :: clauses) =
      if role' = role then a :: byRole role clauses else byRole role clauses := by
  by_cases same : role' = role <;> simp [byRole, same]

theorem forall₂_byRole {R : α → β → Prop} {as : List (Role × α)} {bs : List (Role × β)}
    (h : List.Forall₂ (fun a b => a.1 = b.1 ∧ R a.2 b.2) as bs) (role : Role) :
    List.Forall₂ R (byRole role as) (byRole role bs) := by
  induction h with
  | nil => exact .nil
  | @cons a b as bs related _ ih =>
      rw [byRole_cons, byRole_cons, related.1]
      by_cases same : b.1 = role
      · rw [if_pos same, if_pos same]
        exact .cons related.2 ih
      · rw [if_neg same, if_neg same]
        exact ih

namespace Clauses

/-- These clauses with more of them after those of the same role. -/
def addAll (c : Clauses α) (added : List (Role × α)) : Clauses α where
  required := c.required ++ byRole .required added
  optional := c.optional ++ byRole .optional added
  prohibited := c.prohibited ++ byRole .prohibited added

theorem addAll_nil (c : Clauses α) : c.addAll [] = c := by
  simp [addAll]

theorem addAll_cons (c : Clauses α) (role : Role) (a : α) (added : List (Role × α)) :
    c.addAll ((role, a) :: added) = (c.add role a).addAll added := by
  cases role <;> simp [addAll, add, byRole_cons]

theorem size_add (c : Clauses α) (role : Role) (a : α) : (c.add role a).size = c.size + 1 := by
  cases role <;> simp [add, size] <;> omega

end Clauses

end Boolean

namespace BooleanCursor

open Boolean Cursor

variable {σ : Type}

theorem compose_composed [Cursor σ] {c : BooleanCursor σ} {composition : Composition σ}
    (composed : c.stage = .composed composition) : c.compose = .done c composition := by
  rw [compose, composed]

/-- A move of the composition counts nothing. -/
theorem resume_done (c : BooleanCursor σ) {α : Type} (composition : Composition σ) (a : α) :
    c.resume (.done composition a) = .done { c with stage := .composed composition } a := by
  simp only [resume, Outcome.done, Marks.zero, Coordination.add_zero]
  rfl

/-- What a score of the composition counts is taken over. -/
theorem resume_count (c : BooleanCursor σ) (composition : Composition σ) (s : Score) (n : Nat) :
    c.resume ⟨.ok s, composition, .count n⟩ = .done { c with
      coordination := c.coordination.add (.ofNat n)
      stage := .composed composition } s := rfl

variable [Cursor σ] {P : Prospect} {D W : Set DocId} {rule : CoordRule} {total : Nat} {d : DocId}
variable {c : BooleanCursor σ} {composition : Composition σ}

theorem next_composed (composed : c.stage = .composed composition) :
    Cursor.next c = c.resume (Cursor.next composition) := by
  show next c = _
  rw [next, compose_composed composed, Outcome.andThen_done]

theorem seek_composed {t : DocId} (composed : c.stage = .composed composition) (nonneg : 0 ≤ t) :
    Cursor.seek c t = c.resume (Cursor.seek composition t) := by
  show seek c t = _
  rw [seek, if_neg (Int32.not_lt.mpr nonneg), compose_composed composed, Outcome.andThen_done]

/-- The first score of a document. Its clauses are counted from zero. -/
theorem score_first {composition' : Composition σ} {s : Score} {n : Nat}
    (composed : c.stage = .composed composition) (tabulated : c.coordination.Tabulated rule total)
    (other : c.coordination.doc ≠ Cursor.doc composition)
    (eq : Cursor.score composition = ⟨.ok s, composition', .count n⟩) (le : n ≤ total) :
    ∃ c', Cursor.score c = .done c' (s * rule.factor (n % 2 ^ 64) total) ∧
      c'.stage = .composed composition' ∧ c'.coordination.Tabulated rule total ∧
      c'.coordination.doc = Cursor.doc composition ∧ c'.coordination.matched = .ofNat n := by
  let entered : Coordination :=
    { c.coordination with matched := UInt64.ofNat n, doc := Cursor.doc composition }
  have tabulated' : entered.Tabulated rule total := ⟨tabulated.clauses, tabulated.factors⟩
  refine ⟨{ c with coordination := entered, stage := .composed composition' }, ?_, rfl, tabulated',
    rfl, rfl⟩
  show score c = _
  have factor := tabulated'.factor_eq rfl le
  have added : ((c.coordination.enter (Cursor.doc composition)).add (.ofNat n)) = entered := by
    simp [Coordination.enter, Ne.symm other, Coordination.add, entered]
  rw [score, compose_composed composed, Outcome.andThen_done]
  simp only [eq, resume_count, Outcome.andThen_done, added, factor]
  rfl

/-- A document that is scored again is not counted again. -/
theorem score_again {composition' : Composition σ} {s : Score} {n : Nat}
    (composed : c.stage = .composed composition) (tabulated : c.coordination.Tabulated rule total)
    (same : c.coordination.doc = Cursor.doc composition)
    (matched : c.coordination.matched = .ofNat n)
    (eq : Cursor.score composition = .done composition' s) (le : n ≤ total) : Cursor.score c =
      .done { c with stage := .composed composition' } (s * rule.factor (n % 2 ^ 64) total) := by
  show score c = _
  have factor := tabulated.factor_eq matched le
  have stays : c.coordination.enter (Cursor.doc composition) = c.coordination := if_pos same.symm
  rw [score, compose_composed composed, Outcome.andThen_done]
  simp only [stays, eq, resume_done, Outcome.andThen_done, factor]
  rfl

omit [Cursor σ] in
/-- A move of the composition is a move of the search. -/
theorem resume_of_finds {stands : DocId → Composition σ → Prop} {o : Outcome (Composition σ) Bool}
    (finds : o.Finds W stands) :
    c.resume o = o.within fun composition => { c with stage := .composed composition } := by
  cases finds with
  | found d composition eq _ _ => rw [eq, resume_done, Outcome.within_done]
  | missed composition eq _ => rw [eq, resume_done, Outcome.within_done]

/-- Where a composed search stands: nothing has been counted for the document yet, or the clauses
that match it have been. -/
inductive Standing (P : Prospect) (D : Set DocId) (rule : CoordRule) (total : Nat) (d : DocId) :
    Option Score → BooleanCursor σ → Prop
  | unscored {c : BooleanCursor σ} {composition : Composition σ}
      (composed : c.stage = .composed composition) (stands : Stands P D d none composition)
      (tabulated : c.coordination.Tabulated rule total) (behind : c.coordination.doc < d) :
      Standing P D rule total d none c
  | scored {c : BooleanCursor σ} {composition : Composition σ} {s : Score} {n : Nat}
      (composed : c.stage = .composed composition) (stands : Stands P D d (some s) composition)
      (tabulated : c.coordination.Tabulated rule total) (on : c.coordination.doc = d)
      (given : P.scores d s n) (matched : c.coordination.matched = .ofNat n) :
      Standing P D rule total d (some (s * rule.factor (n % 2 ^ 64) total)) c

theorem Standing.stands {v : Option Score} (h : Standing P D rule total d v c) :
    ∃ composition w, c.stage = .composed composition ∧ Stands P D d w composition ∧
      c.coordination.Tabulated rule total ∧ c.coordination.doc ≤ d := by
  cases h with
  | unscored composed stands tabulated behind =>
      exact ⟨_, _, composed, stands, tabulated, Int32.le_of_lt behind⟩
  | scored composed stands tabulated on _ _ =>
      exact ⟨_, _, composed, stands, tabulated, on ▸ Int32.le_refl _⟩

/-- A document that is scored again gets the same score, and the search stays as it is. -/
theorem Standing.score_eq {v : Score} (bounded : ∀ d s n, P.scores d s n → n ≤ total)
    (h : Standing P D rule total d (some v) c) : Cursor.score c = .done c v := by
  cases h with
  | @scored _ composition s n composed stands tabulated on given matched =>
      have place : Cursor.doc composition = d := faithful_stands.doc stands
      rw [score_again composed tabulated (on.trans place.symm) matched
        (faithful_stands.again stands) (bounded d s n given), ← composed]

/-- So its count stays as it is, too. -/
theorem Standing.again {v : Score} (bounded : ∀ d s n, P.scores d s n → n ≤ total)
    (h : Standing P D rule total d (some v) c) :
    ∃ c', Cursor.score c = .done c' v ∧ Standing P D rule total d (some v) c' ∧
      c'.matched = c.matched ∧ Cursor.movesLeft c' ≤ Cursor.movesLeft c :=
  ⟨c, h.score_eq bounded, h, rfl, Nat.le_refl _⟩

/-- A search keeps its promise if no document matches more clauses than there are. -/
theorem faithful_standing (bounded : ∀ d s n, P.scores d s n → n ≤ total) :
    Faithful (P.coordinated rule total) D (Standing (σ := σ) P D rule total) where
  doc := by
    intro d v c h
    obtain ⟨composition, w, composed, stands, -⟩ := h.stands
    show doc c = d
    rw [doc, composed]
    exact faithful_stands.doc stands
  mem := by
    intro d v c h
    obtain ⟨composition, w, composed, stands, -⟩ := h.stands
    exact faithful_stands.mem stands
  nonneg := by
    intro d v c h
    obtain ⟨composition, w, composed, stands, -⟩ := h.stands
    exact faithful_stands.nonneg stands
  next := by
    intro d v c h
    obtain ⟨composition, w, composed, stands, tabulated, upTo⟩ := h.stands
    have finds := faithful_stands.next stands
    have same : Cursor.movesLeft c = Cursor.movesLeft composition := by
      simp only [Cursor.movesLeft, movesLeft, composed]
    rw [next_composed composed, resume_of_finds finds, same]
    refine finds.within fun e composition' least stood =>
      ⟨.unscored rfl stood.1 tabulated ?_, stood.2⟩
    exact Int32.lt_of_le_of_lt upTo least.1.2
  ahead := by
    intro d v c t h later
    obtain ⟨composition, w, composed, stands, tabulated, upTo⟩ := h.stands
    have nonneg : 0 ≤ t :=
      Int32.le_trans (faithful_stands.nonneg stands) (Int32.le_of_lt later)
    have finds := faithful_stands.ahead stands later
    have same : Cursor.movesLeft c = Cursor.movesLeft composition := by
      simp only [Cursor.movesLeft, movesLeft, composed]
    rw [seek_composed composed nonneg, resume_of_finds finds, same]
    refine finds.within fun e composition' least stood =>
      ⟨.unscored rfl stood.1 tabulated ?_, stood.2⟩
    exact Int32.lt_of_le_of_lt upTo (Int32.lt_of_lt_of_le later least.1.2)
  held := by
    intro d v c t h nonneg back inside
    obtain ⟨composition, w, composed, stands, -⟩ := h.stands
    obtain ⟨composition', eq, fewer, stood⟩ := stands.held nonneg back inside
    refine ⟨{ c with stage := .composed composition' }, ?_, ?_, ?_⟩
    · rw [seek_composed composed nonneg, eq, resume_done]
    · cases h with
      | unscored composed' stands' tabulated behind =>
          obtain rfl := Stage.composed.inj (composed.symm.trans composed')
          exact .unscored rfl (stood _ stands') tabulated behind
      | scored composed' stands' tabulated on given matched =>
          obtain rfl := Stage.composed.inj (composed.symm.trans composed')
          exact .scored rfl (stood _ stands') tabulated on given matched
    · simpa only [Cursor.movesLeft, movesLeft, composed] using fewer
  lost := by
    intro d v c t h nonneg back outside
    obtain ⟨composition, w, composed, stands, -⟩ := h.stands
    obtain ⟨composition', eq⟩ := faithful_stands.lost stands nonneg back outside
    exact ⟨_, by rw [seek_composed composed nonneg, eq, resume_done]⟩
  score := by
    intro d c h
    cases h with
    | @unscored _ composition composed stands tabulated behind =>
        obtain ⟨s, n, composition', eq, scored, stood, fewer⟩ := faithful_stands.score stands
        have place : Cursor.doc composition = d := faithful_stands.doc stands
        obtain ⟨c', eq', composed', tabulated', on, matched⟩ := score_first composed tabulated
          (place ▸ Int32.ne_of_lt behind) eq (bounded d s n scored)
        refine ⟨_, 0, c', eq', ⟨rfl, s, n, scored, rfl⟩,
          .scored composed' stood tabulated' (on.trans place) scored matched, ?_⟩
        simpa only [Cursor.movesLeft, movesLeft, composed, composed'] using fewer
  again := Standing.score_eq bounded

/-- A search that has not begun, with these clauses. -/
def ofClauses (rules : ClauseRules) (rule : CoordRule) (clauses : Clauses σ) : BooleanCursor σ where
  rules
  rule
  coordination := { clauses := clauses.required.length + clauses.optional.length }
  stage := .collecting clauses

variable {rules : ClauseRules} {clauses : Clauses σ} {F : Set DocId → Prospect}

/-- A search that has been moved for the first time. What its scores will be may depend on which
document is scored first. -/
def Opening (F : Set DocId → Prospect) (D : Set DocId) (rule : CoordRule) (total : Nat) (d : DocId)
    (c : BooleanCursor σ) : Prop :=
  ∃ composition, c.stage = .composed composition ∧ Opens F D d composition ∧
    c.coordination.Tabulated rule total ∧ c.coordination.doc < d

theorem Opening.standing (h : Opening F D rule total d c) :
    Standing (F Set.univ) D rule total d none c := by
  obtain ⟨composition, composed, ⟨stands, -⟩, tabulated, behind⟩ := h
  exact .unscored composed stands tabulated behind

/-- The first document moved to is scored. -/
theorem Opening.score (h : Opening F D rule total d c)
    (bounded : ∀ s n, (F {d}).scores d s n → n ≤ total) :
    ∃ v c', Cursor.score c = .done c' v ∧ Standing (F {d}) D rule total d (some v) c' ∧
      Cursor.movesLeft c' ≤ Cursor.movesLeft c := by
  obtain ⟨composition, composed, ⟨stands, s, n, composition', eq, scored, stood, fewer⟩, tabulated,
    behind⟩ := h
  have place : Cursor.doc composition = d := faithful_stands.doc stands
  obtain ⟨c', eq', composed', tabulated', on, matched⟩ := score_first composed tabulated
    (place ▸ Int32.ne_of_lt behind) eq (bounded s n scored)
  refine ⟨_, c', eq', .scored composed' stood tabulated' (on.trans place) scored matched, ?_⟩
  simpa only [Cursor.movesLeft, movesLeft, composed, composed'] using fewer

omit [Cursor σ] in
theorem compose_ofClauses (rule : CoordRule)
    (made : clauses.compose rules.minOptional = .ok composition) :
    ∃ c, (ofClauses rules rule clauses).compose = .done c composition ∧
      c.coordination.Tabulated rule (clauses.required.length + clauses.optional.length) ∧
      c.coordination.doc = .beforeFirst := by
  refine ⟨{ ofClauses rules rule clauses with
    coordination := (ofClauses rules rule clauses).coordination.tabulate rule
    stage := .composed composition }, ?_, ⟨rfl, rfl⟩, rfl⟩
  simp only [compose, ofClauses, made]

/-- A search starts with its composition. -/
theorem starts_of_compose {c' : BooleanCursor σ}
    {stands : Set DocId → DocId → Option Score → Composition σ → Prop}
    {stands' : Set DocId → DocId → Option Score → BooleanCursor σ → Prop}
    (composes : c.compose = .done c' composition) (starts : Starts P stands composition)
    (moves : Cursor.movesLeft composition ≤ Cursor.movesLeft c)
    (resumed : ∀ {D d composition}, P.Reaches d → stands D d none composition →
      stands' D d none { c' with stage := .composed composition }) :
    Starts (P.coordinated rule total) stands' c := by
  constructor
  · show (next c).Finds _ _
    rw [next, composes, Outcome.andThen_done, resume_of_finds starts.next]
    exact starts.next.within fun d composition least stood =>
      ⟨resumed (.inl least.1) stood.1, Nat.lt_of_lt_of_le stood.2 moves⟩
  · intro t nonneg
    show (seek c t).Finds _ _
    rw [seek, if_neg (Int32.not_lt.mpr nonneg), composes, Outcome.andThen_done,
      resume_of_finds (starts.seek nonneg)]
    exact (starts.seek nonneg).within fun d composition least stood =>
      ⟨resumed (.inr ⟨t, least.1⟩) stood.1, Nat.lt_of_lt_of_le stood.2 moves⟩

/-- A search whose composition keeps its promise keeps its own. -/
theorem starts_ofClauses (rule : CoordRule)
    (made : clauses.compose rules.minOptional = .ok composition)
    (starts : Starts (F Set.univ) (fun D d _ => Opens F D d) composition)
    (moves : Cursor.movesLeft composition ≤ Cursor.movesLeft (ofClauses rules rule clauses)) :
    Starts ((F Set.univ).coordinated rule (clauses.required.length + clauses.optional.length))
      (fun D d _ => Opening F D rule (clauses.required.length + clauses.optional.length) d)
      (ofClauses rules rule clauses) := by
  obtain ⟨c, eq, tabulated, before⟩ := compose_ofClauses rule made
  refine starts_of_compose eq starts moves fun {D d composition} _ opens =>
    ⟨composition, rfl, opens, tabulated, ?_⟩
  rw [before]
  exact DocId.beforeFirst_lt (faithful_stands.nonneg opens.1)

/-- A search that has not been moved. It may have been composed already, if it was asked for a score
too early. -/
inductive AtRest (P : Prospect) (rule : CoordRule) (total : Nat) (c : BooleanCursor σ) : Prop
  | intro {c' : BooleanCursor σ} {composition : Composition σ}
      (composes : c.compose = .done c' composition) (rests : Rests P composition)
      (tabulated : c'.coordination.Tabulated rule total)
      (doc : ∀ {d}, P.Reaches d → Cursor.doc c = .beforeFirst)
      (behind : ∀ {d}, P.Reaches d → c'.coordination.doc = .beforeFirst)
      (moves : Cursor.movesLeft composition ≤ Cursor.movesLeft c)

theorem AtRest.starts (h : AtRest P rule total c) : Starts (P.coordinated rule total)
    (fun D => Standing P D rule total) c := by
  obtain ⟨composes, rests, tabulated, -, behind, moves⟩ := h
  refine starts_of_compose composes rests.begins moves fun {D d composition} reaches stands =>
    .unscored rfl stands tabulated ?_
  exact behind reaches ▸ DocId.beforeFirst_lt (faithful_stands.nonneg stands)

/-- A search that has been composed, but whose composition has not been moved. -/
theorem atRest_composed (composed : c.stage = .composed composition) (rests : Rests P composition)
    (tabulated : c.coordination.Tabulated rule total)
    (behind : ∀ {d}, P.Reaches d → c.coordination.doc = .beforeFirst) : AtRest P rule total c := by
  refine .intro (compose_composed composed) rests tabulated (fun reaches => ?_) behind ?_
  · show doc c = _
    rw [doc, composed]
    exact resting_rests.doc rests reaches
  · simp only [Cursor.movesLeft, movesLeft, composed, Nat.le_refl]

/-- Asked for a score too early, a search is composed, but stays before all documents. -/
theorem AtRest.score (h : AtRest P rule total c) : AtRest P rule total (Cursor.score c).state := by
  obtain @⟨c', composition, composes, rests, tabulated, -, behind, -⟩ := h
  have asked : ∀ marks : Marks, AtRest P rule total { c' with
      coordination := (c'.coordination.enter (Cursor.doc composition)).add marks.enclosing
      stage := .composed (Cursor.score composition).state } := by
    intro marks
    refine atRest_composed rfl (resting_rests.score rests) ?_ fun reaches => ?_
    · unfold Coordination.enter
      split <;> exact ⟨tabulated.clauses, tabulated.factors⟩
    · show (c'.coordination.enter (Cursor.doc composition)).doc = _
      unfold Coordination.enter
      split
      · exact behind reaches
      · exact resting_rests.doc rests reaches
  show AtRest P rule total (BooleanCursor.score c).state
  rw [BooleanCursor.score, composes, Outcome.andThen_done]
  exact Outcome.state_bind (AtRest P rule total) (asked _) fun _ _ => asked _

theorem resting_atRest : Resting (P.coordinated rule total) (fun D => Standing P D rule total)
    (AtRest (σ := σ) P rule total) where
  starts := AtRest.starts
  doc := fun ⟨_, _, _, doc, _, _⟩ reaches => doc reaches
  score := AtRest.score

theorem atRest_ofClauses (rule : CoordRule)
    (made : clauses.compose rules.minOptional = .ok composition) (rests : Rests P composition)
    (moves : Cursor.movesLeft composition ≤ Cursor.movesLeft (ofClauses rules rule clauses)) :
    AtRest P rule (clauses.required.length + clauses.optional.length)
      (ofClauses rules rule clauses) := by
  obtain ⟨c, eq, tabulated, before⟩ := compose_ofClauses rule made
  exact .intro eq rests tabulated (fun _ => rfl) (fun _ => before) moves

/-- A search to which clauses are added one after the other. -/
def build (rule : CoordRule) (rules : ClauseRules) (clauses : List (Role × σ)) :
    Except Failure (BooleanCursor σ) := do
  clauses.foldlM (fun c (role, clause) => c.add role clause) (← create rule rules)

omit [Cursor σ] in
theorem add_ofClauses (cls : Clauses σ) (role : Role) (clause : σ) :
    (ofClauses rules rule cls).add role clause =
      if rules.maxClauses < cls.size + 1 then
        .error (.tooManyClauses (cls.size + 1) rules.maxClauses)
      else .ok (ofClauses rules rule (cls.add role clause)) := by
  unfold add ofClauses
  dsimp only
  by_cases full : rules.maxClauses < cls.size + 1
  · rw [if_pos full, if_pos full]
  · rw [if_neg full, if_neg full]
    cases role with
    | required => simp [Role.counts, Coordination.addClause, Clauses.add]; omega
    | optional => simp [Role.counts, Coordination.addClause, Clauses.add]; omega
    | prohibited => simp [Role.counts, Clauses.add]

omit [Cursor σ] in
/-- Adding more clauses succeeds exactly if there is room for them all. -/
theorem foldlM_add_eq_ok (cls : Clauses σ) (added : List (Role × σ))
    (within : cls.size ≤ rules.maxClauses) {c : BooleanCursor σ} :
    added.foldlM (fun c (role, clause) => c.add role clause) (ofClauses rules rule cls) = .ok c ↔
      cls.size + added.length ≤ rules.maxClauses ∧
        c = ofClauses rules rule (cls.addAll added) := by
  induction added generalizing cls with
  | nil =>
      rw [List.foldlM_nil, Clauses.addAll_nil, List.length_nil, Nat.add_zero]
      exact ⟨fun same => ⟨within, (Except.ok.inj same).symm⟩, fun same => congrArg _ same.2.symm⟩
  | cons x added ih =>
      obtain ⟨role, clause⟩ := x
      rw [List.foldlM_cons]
      dsimp only
      rw [add_ofClauses, Clauses.addAll_cons, List.length_cons]
      by_cases full : rules.maxClauses < cls.size + 1
      · rw [if_pos full]
        exact ⟨fun failed => (nomatch failed), fun ⟨room, _⟩ => by omega⟩
      · rw [if_neg full]
        apply (ih (cls.add role clause) (by rw [Clauses.size_add]; omega)).trans
        rw [Clauses.size_add]
        exact and_congr_left fun _ => by omega

omit [Cursor σ] in
/-- A search can be built exactly if its rules are usable and leave room for all its clauses. -/
theorem build_eq_ok {added : List (Role × σ)} {c : BooleanCursor σ} :
    build rule rules added = .ok c ↔ rules.maxClauses ≠ 0 ∧ added.length ≤ rules.maxClauses ∧
      c = ofClauses rules rule (({} : Clauses σ).addAll added) := by
  rw [build, create, ClauseRules.validate]
  by_cases unusable : rules.maxClauses = 0
  · rw [if_pos unusable]
    exact ⟨fun failed => (nomatch failed), fun usable => absurd unusable usable.1⟩
  · rw [if_neg unusable]
    apply (foldlM_add_eq_ok {} added (Nat.zero_le _)).trans
    simp [unusable, Clauses.size]

end BooleanCursor

end Retrieval
