import Retrieval.Cursor.Bonus
import Retrieval.Proofs.Rest

/-!
# Bonuses keep their promise

The required side decides where a bonus stands. The optional side is moved only when a document is
scored: it is started by a seek to the first document scored, and follows the required side from
there. Which documents add to their scores therefore depends on where that first document was.
-/

namespace Retrieval

/-- What to expect of one cursor with a bonus from another, if the first document that is scored is
one of `T`. -/
def Prospect.withBonus (P O : Prospect) (T : Set DocId) : Prospect where
  docs := P.docs
  docsFrom := P.docsFrom
  later := P.later
  holds := P.holds
  scores d v n := ∃ t ∈ T, t ≤ d ∧ ∃ x m, P.scores d x m ∧
    ((d ∈ O.docsFrom t ∧ ∃ y k, O.scores d y k ∧ v = x + y ∧ n = m + k) ∨
      (d ∉ O.docsFrom t ∧ v = x ∧ n = m))

namespace Bonus

open Cursor

variable {ρ ο : Type} [Cursor ρ] [Cursor ο]
variable {P O : Prospect} {D E T : Set DocId} {d : DocId}

/-- The optional side after a document has been given the score `v`, to which the required side has
added `x`: it is clear of the document, or has been scored there too. -/
inductive Added (O : Prospect) (E : Set DocId) (d : DocId) (x : Score) : Score → Option ο → Prop
  | clear {optional : Option ο} (clear : Clear O E d optional) : Added O E d x x optional
  | there {y : Score} {optional : ο} (stands : Stands O E d (some y) optional) :
      Added O E d x (x + y) (some optional)

/-- An optional side that has been sought before all documents and stays there when it is asked for
a score. -/
structure Primed (O : Prospect) (optional : ο) : Prop where
  begins : Begins O optional
  doc : Cursor.doc optional = .beforeFirst
  steady : (Cursor.score optional).state = optional

/-- What becomes of an optional side that is sought before all documents: it refuses, or stays
there, or has no documents at all. -/
inductive Braced (O : Prospect) (optional : ο) : Prop
  | refuses {failure : Failure} (eq : Cursor.seek optional .beforeFirst = .fail optional failure)
  | accepts {optional' : ο} (eq : Cursor.seek optional .beforeFirst = .done optional' true)
      (primed : Primed O optional')
  | lacks {optional' : ο} (eq : Cursor.seek optional .beforeFirst = .done optional' false)
      (empty : ∀ t, O.docsFrom t = ∅)

/-- The optional side while no document has been scored. -/
inductive Reserve (O : Prospect) : Bool → Option ο → Prop
  | fresh {optional : ο} (begins : Begins O optional) (braced : Braced O optional) :
      Reserve O true (some optional)
  | primed {optional : ο} (primed : Primed O optional) : Reserve O false (some optional)
  | out (empty : ∀ t, O.docsFrom t = ∅) : Reserve O false none

/-- Where a bonus stands. While nothing has been scored, the optional side waits; after that it goes
through the documents it has from the first one scored. -/
inductive Standing (P O : Prospect) (D T : Set DocId) (d : DocId) : Option Score → Bonus ρ ο → Prop
  | waiting {required : ρ} {optional : Option ο} {fresh : Bool}
      (stands : Stands P D d none required) (reserve : Reserve O fresh optional)
      (anywhere : T = Set.univ) :
      Standing P O D T d none ⟨required, optional, fresh⟩
  | unscored {t : DocId} {required : ρ} {optional : Option ο} (stands : Stands P D d none required)
      (first : t ∈ T) (passed : t ≤ d) (abreast : Abreast O (O.docsFrom t) d optional) :
      Standing P O D T d none ⟨required, optional, false⟩
  | scored {t : DocId} {required : ρ} {optional : Option ο} {x v : Score}
      (stands : Stands P D d (some x) required) (first : t ∈ T) (passed : t ≤ d)
      (added : Added O (O.docsFrom t) d x v optional) :
      Standing P O D T d (some v) ⟨required, optional, false⟩

theorem Standing.stands {v : Option Score} {c : Bonus ρ ο} (h : Standing P O D T d v c) :
    ∃ x, Stands P D d x c.required := by
  cases h with
  | waiting stands _ _ => exact ⟨none, stands⟩
  | unscored stands _ _ _ => exact ⟨none, stands⟩
  | scored stands _ _ _ => exact ⟨_, stands⟩

/-- Once the required side has moved on, the optional side is abreast of where it stands. -/
theorem Added.abreast {x v : Score} {optional : Option ο} {e : DocId}
    (h : Added O E d x v optional) (later : d < e) : Abreast O E e optional := by
  cases h with
  | clear clear => exact clear.abreast.mono (Int32.le_of_lt later)
  | there stands => exact .behind stands later

/-- The required side has moved on. -/
theorem Standing.moved {v : Option Score} {c : Bonus ρ ο} {e : DocId} {required : ρ}
    (h : Standing P O D T d v c) (later : d < e) (stands : Stands P D e none required) :
    Standing P O D T e none { c with required } := by
  have le : d ≤ e := Int32.le_of_lt later
  cases h with
  | waiting _ reserve anywhere => exact .waiting stands reserve anywhere
  | unscored _ first passed abreast =>
      exact .unscored stands first (Int32.le_trans passed le) (abreast.mono le)
  | scored _ first passed added =>
      exact .unscored stands first (Int32.le_trans passed le) (added.abreast later)

/-- The required side has been sent back and has kept its place. -/
theorem Standing.kept {v : Option Score} {c : Bonus ρ ο} {required : ρ}
    (h : Standing P O D T d v c)
    (stood : ∀ x, Stands P D d x c.required → Stands P D d x required) :
    Standing P O D T d v { c with required } := by
  cases h with
  | waiting stands reserve anywhere => exact .waiting (stood _ stands) reserve anywhere
  | unscored stands first passed abreast => exact .unscored (stood _ stands) first passed abreast
  | scored stands first passed added => exact .scored (stood _ stands) first passed added

/-- The optional side stands on its first document from `d` on, or has run out. -/
inductive Level (O : Prospect) (E : Set DocId) (d : DocId) : Option ο → Prop
  | out (empty : E ∩ since d = ∅) : Level O E d none
  | reached {e : DocId} {c : ο} (stands : Stands O E e none c) (least : IsLeast (E ∩ since d) e) :
      Level O E d (some c)

/-- A seek to a document brings the optional side level with it. -/
theorem Level.of_finds {o : Outcome ο Bool} {m : Nat} (finds : o.Finds (E ∩ since d) fun e c =>
    Stands O E e none c ∧ Cursor.movesLeft c < m) : ∃ c found, o = .done c found ∧
      Level O E d (if found then some c else none) ∧
      sideMoves (if found then some c else none) ≤ m := by
  cases finds with
  | found e c eq least stood =>
      exact ⟨c, true, eq, .reached stood.1 least, Nat.le_of_lt stood.2⟩
  | missed c eq empty => exact ⟨c, false, eq, .out empty, Nat.zero_le m⟩

omit [Cursor ρ] in
/-- The first document that the optional side is sent to. -/
theorem catchUp_first {optional : ο} {fresh : Bool} (begins : Begins O optional) (nonneg : 0 ≤ d)
    (unmoved : (fresh || Cursor.doc optional < d) = true) (required : ρ) :
    ∃ optional', catchUp ⟨required, some optional, fresh⟩ d =
        .done ⟨required, optional', false⟩ () ∧
      Level O (O.docsFrom d) d optional' ∧ sideMoves optional' ≤ Cursor.movesLeft optional := by
  obtain ⟨c, found, eq, level, fewer⟩ :=
    Level.of_finds ((begins.seek nonneg).inside (O.later d))
  refine ⟨_, ?_, level, fewer⟩
  simp only [catchUp, unmoved, if_true, eq, Outcome.bind_done]

omit [Cursor ρ] in
theorem Reserve.catchUp {optional : Option ο} {fresh : Bool} (reserve : Reserve O fresh optional)
    (nonneg : 0 ≤ d) (required : ρ) :
    ∃ optional', Bonus.catchUp ⟨required, optional, fresh⟩ d =
        .done ⟨required, optional', false⟩ () ∧
      Level O (O.docsFrom d) d optional' ∧ sideMoves optional' ≤ sideMoves optional := by
  cases reserve with
  | fresh begins _ => exact catchUp_first begins nonneg (Bool.true_or _) required
  | primed primed =>
      refine catchUp_first primed.begins nonneg ?_ required
      rw [Bool.false_or, decide_eq_true_iff, primed.doc]
      exact DocId.beforeFirst_lt nonneg
  | out empty =>
      exact ⟨none, rfl, .out (by rw [empty, Set.empty_inter]), Nat.le_refl _⟩

omit [Cursor ρ] in
/-- A later call, which sends the optional side on if it stands behind. -/
theorem catchUp_abreast {optional : Option ο} (abreast : Abreast O E d optional) (required : ρ) :
    ∃ optional', catchUp ⟨required, optional, false⟩ d = .done ⟨required, optional', false⟩ () ∧
      Level O E d optional' ∧ sideMoves optional' ≤ sideMoves optional := by
  cases abreast with
  | out empty => exact ⟨none, rfl, .out empty, Nat.le_refl _⟩
  | behind stands before =>
      obtain ⟨c, found, eq, level, fewer⟩ := Level.of_finds (faithful_stands.ahead stands before)
      refine ⟨_, ?_, level, fewer⟩
      simp only [catchUp, Bool.false_or, faithful_stands.doc stands, before, decide_true, if_true,
        eq, Outcome.bind_done]
  | reached stands least =>
      refine ⟨_, ?_, .reached stands least, Nat.le_refl _⟩
      have after := Int32.not_lt.mpr least.1.2
      simp only [catchUp, Bool.false_or, faithful_stands.doc stands, after, decide_false,
        Bool.false_eq_true, if_false]

omit [Cursor ρ] in
/-- The optional side adds its score if it contains the document. -/
theorem addOptional_spec {optional : Option ο} (level : Level O E d optional) (required : ρ)
    (x : Score) : ∃ v k optional',
      addOptional ⟨required, optional, false⟩ d x =
        ⟨.ok v, ⟨required, optional', false⟩, .count k⟩ ∧
      ((d ∈ E ∧ ∃ y, O.scores d y k ∧ v = x + y) ∨ (d ∉ E ∧ v = x ∧ k = 0)) ∧
      Added O E d x v optional' ∧ sideMoves optional' ≤ sideMoves optional := by
  cases level with
  | out empty =>
      have clear : Clear O E d (none : Option ο) := .out empty
      exact ⟨x, 0, none, rfl, .inr ⟨clear.notMem, rfl, rfl⟩, .clear clear, Nat.le_refl _⟩
  | @reached e o stands least =>
      by_cases on : e = d
      · subst on
        obtain ⟨y, k, o', eq, scored, stood, fewer⟩ := faithful_stands.score stands
        refine ⟨x + y, k, some o', ?_, .inl ⟨least.1.1, y, scored, rfl⟩, .there stood, fewer⟩
        simp only [addOptional, faithful_stands.doc stands, if_true, eq]
        rfl
      · have after : d < e := Int32.lt_of_le_of_ne least.1.2 (Ne.symm on)
        have clear : Clear O E d (some o) := .beyond stands least after
        refine ⟨x, 0, some o, ?_, .inr ⟨clear.notMem, rfl, rfl⟩, .clear clear, Nat.le_refl _⟩
        simp only [addOptional, faithful_stands.doc stands, if_neg on]
        rfl

/-- Scoring a document for the first time, the optional side being level with it after `catchUp`. -/
theorem score_spec {t : DocId} {required : ρ} {optional : Option ο} {fresh : Bool}
    (stands : Stands P D d none required) (first : t ∈ T) (passed : t ≤ d)
    (level : ∀ required : ρ, ∃ optional',
      catchUp ⟨required, optional, fresh⟩ d = .done ⟨required, optional', false⟩ () ∧
        Level O (O.docsFrom t) d optional' ∧ sideMoves optional' ≤ sideMoves optional) :
    ∃ v n c', Cursor.score (⟨required, optional, fresh⟩ : Bonus ρ ο) = ⟨.ok v, c', .count n⟩ ∧
      (P.withBonus O T).scores d v n ∧ Standing P O D T d (some v) c' ∧
      Cursor.movesLeft c' ≤ Cursor.movesLeft (⟨required, optional, fresh⟩ : Bonus ρ ο) := by
  obtain ⟨x, m, required', eq, scored, stood, fewer⟩ := faithful_stands.score stands
  obtain ⟨optional', eq', level, fewer'⟩ := level required'
  obtain ⟨v, k, optional'', eq'', told, added, fewer''⟩ := addOptional_spec level required' x
  refine ⟨v, m + k, ⟨required', optional'', false⟩, ?_, ⟨t, first, passed, x, m, scored, ?_⟩,
    .scored stood first passed added, ?_⟩
  · show score _ = _
    rw [score]
    simp only [faithful_stands.doc stands, eq, Outcome.bind_ok, eq', Outcome.andThen_done, eq'',
      Outcome.marking, Marks.count_append]
  · cases told with
    | inl inside =>
        obtain ⟨inside, y, scored', rfl⟩ := inside
        exact .inl ⟨inside, y, k, scored', rfl, rfl⟩
    | inr outside =>
        obtain ⟨outside, rfl, rfl⟩ := outside
        exact .inr ⟨outside, rfl, rfl⟩
  · exact Nat.add_le_add fewer (Nat.le_trans fewer'' fewer')

omit [Cursor ρ] in
/-- The optional side is not moved when a document is scored again, and adds the same score. -/
theorem addOptional_again {optional : Option ο} {x v : Score} (added : Added O E d x v optional)
    (required : ρ) :
    (catchUp ⟨required, optional, false⟩ d).andThen (fun _ c => c.addOptional d x) =
      .done ⟨required, optional, false⟩ v := by
  cases added with
  | clear clear =>
      cases clear with
      | out empty => rfl
      | @beyond e o stands least after =>
          have ahead := Int32.lt_asymm after
          have off : ¬ e = d := (Int32.ne_of_lt after).symm
          simp only [catchUp, Bool.false_or, faithful_stands.doc stands, ahead, decide_false,
            Bool.false_eq_true, if_false, Outcome.andThen_done, addOptional, if_neg off]
  | @there y o stands =>
      simp only [catchUp, Bool.false_or, faithful_stands.doc stands, Int32.lt_irrefl, decide_false,
        Bool.false_eq_true, if_false, Outcome.andThen_done, addOptional, if_true,
        faithful_stands.again stands]
      rfl

theorem faithful_standing :
    Faithful (P.withBonus O T) D (Standing (ρ := ρ) (ο := ο) P O D T) where
  doc := by
    intro d v c h
    obtain ⟨x, stands⟩ := h.stands
    exact (faithful_stands.doc stands : Cursor.doc c.required = d)
  mem := by
    intro d v c h
    obtain ⟨x, stands⟩ := h.stands
    exact faithful_stands.mem stands
  nonneg := by
    intro d v c h
    obtain ⟨x, stands⟩ := h.stands
    exact faithful_stands.nonneg stands
  next := by
    intro d v c h
    obtain ⟨x, stands⟩ := h.stands
    refine (faithful_stands.next stands).within fun e required least stood => ⟨?_, ?_⟩
    · exact h.moved least.1.2 stood.1
    · exact Nat.add_lt_add_right stood.2 _
  ahead := by
    intro d v c t h later
    obtain ⟨x, stands⟩ := h.stands
    refine (faithful_stands.ahead stands later).within fun e required least stood => ⟨?_, ?_⟩
    · exact h.moved (Int32.lt_of_lt_of_le later least.1.2) stood.1
    · exact Nat.add_lt_add_right stood.2 _
  held := by
    intro d v c t h nonneg back inside
    obtain ⟨x, stands⟩ := h.stands
    obtain ⟨required, eq, fewer, stood⟩ := stands.held nonneg back inside
    refine ⟨{ c with required }, ?_, h.kept stood, Nat.add_le_add_right fewer _⟩
    show (Cursor.seek c.required t).within _ = _
    rw [eq, Outcome.within_done]
  lost := by
    intro d v c t h nonneg back outside
    obtain ⟨x, stands⟩ := h.stands
    obtain ⟨required, eq⟩ := faithful_stands.lost stands nonneg back outside
    refine ⟨{ c with required }, ?_⟩
    show (Cursor.seek c.required t).within _ = _
    rw [eq, Outcome.within_done]
  score := by
    intro d c h
    cases h with
    | waiting stands reserve anywhere =>
        exact score_spec stands (anywhere ▸ Set.mem_univ d) (Int32.le_refl d)
          (reserve.catchUp (faithful_stands.nonneg stands))
    | unscored stands first passed abreast =>
        exact score_spec stands first passed (catchUp_abreast abreast)
  again := by
    intro d v c h
    cases h with
    | @scored t required optional x _ stands first passed added =>
        show score _ = _
        rw [score]
        simp only [faithful_stands.doc stands, faithful_stands.again stands, Outcome.bind_done,
          addOptional_again added required]

/-- A bonus that has been moved but not scored. -/
theorem opens_waiting {required : ρ} {optional : Option ο} {fresh : Bool}
    (stands : Stands P D d none required) (reserve : Reserve O fresh optional) :
    Opens (P.withBonus O) D d (⟨required, optional, fresh⟩ : Bonus ρ ο) := by
  obtain ⟨v, n, c', eq, scored, standing, fewer⟩ :=
    score_spec stands (Set.mem_singleton d) (Int32.le_refl d)
      (reserve.catchUp (faithful_stands.nonneg stands))
  exact ⟨⟨_, faithful_standing, .waiting stands reserve rfl⟩, v, n, c', eq, scored,
    ⟨_, faithful_standing, standing⟩, fewer⟩

/-- A bonus that has not been moved. The optional side matters only if there is a document to be
moved to. -/
structure AtRest (P O : Prospect) (c : Bonus ρ ο) : Prop where
  required : Rests P c.required
  reserve : ∀ {d}, P.Reaches d → Reserve O c.fresh c.optional

variable {c : Bonus ρ ο}

/-- A bonus of cursors that keep their promises keeps its own, whichever document is scored first.
-/
theorem AtRest.starts (h : AtRest P O c) : Starts (P.withBonus O Set.univ)
    (fun D d _ => Opens (P.withBonus O) D d) c where
  next := h.required.begins.next.within fun _ _ least stood =>
    ⟨opens_waiting stood.1 (h.reserve (.inl least.1)), Nat.add_lt_add_right stood.2 _⟩
  seek := fun {t} nonneg => (h.required.begins.seek nonneg).within fun _ _ least stood =>
    ⟨opens_waiting stood.1 (h.reserve (.inr ⟨t, least.1⟩)), Nat.add_lt_add_right stood.2 _⟩

omit [Cursor ρ] in
theorem required_catchUp (c : Bonus ρ ο) (doc : DocId) :
    (c.catchUp doc).state.required = c.required := by
  rw [catchUp]
  split
  · rfl
  · split
    · exact Outcome.state_bind ((required · = c.required)) rfl fun _ _ => rfl
    · rfl

omit [Cursor ρ] in
theorem required_addOptional (c : Bonus ρ ο) (doc : DocId) (score : Score) :
    (c.addOptional doc score).state.required = c.required := by
  rw [addOptional]
  split
  · rfl
  · split <;> rfl

/-- Scoring leaves the required side as scoring it alone does. -/
theorem required_score (c : Bonus ρ ο) :
    (Cursor.score c).state.required = (Cursor.score c.required).state := by
  refine Outcome.state_bind (fun c' : Bonus ρ ο => c'.required = _) rfl fun score _ => ?_
  refine Outcome.state_bind (fun c' : Bonus ρ ο => c'.required = _) ?_ fun _ _ => ?_
  · exact required_catchUp _ _
  · exact (required_addOptional _ _ _).trans (required_catchUp _ _)

omit [Cursor ρ] in
/-- Sought before all documents, the optional side refuses or stays in reserve. -/
theorem Reserve.catchUp_beforeFirst {optional : Option ο} {fresh : Bool}
    (reserve : Reserve O fresh optional) (required : ρ) :
    (∃ failure, Bonus.catchUp ⟨required, optional, fresh⟩ .beforeFirst =
      .fail ⟨required, optional, fresh⟩ failure) ∨
    ∃ optional', Bonus.catchUp ⟨required, optional, fresh⟩ .beforeFirst =
      .done ⟨required, optional', false⟩ () ∧ Reserve O false optional' := by
  cases reserve with
  | fresh begins braced =>
      simp only [Bonus.catchUp, Bool.true_or, if_true]
      cases braced with
      | refuses eq => exact .inl ⟨_, by rw [eq, Outcome.bind_fail]⟩
      | accepts eq primed =>
          refine .inr ⟨_, ?_, .primed primed⟩
          rw [eq, Outcome.bind_done, if_pos rfl]
      | lacks eq empty =>
          refine .inr ⟨none, ?_, .out empty⟩
          rw [eq, Outcome.bind_done, if_neg Bool.false_ne_true]
  | primed primed =>
      refine .inr ⟨_, ?_, .primed primed⟩
      simp only [Bonus.catchUp, Bool.false_or, primed.doc, Int32.lt_irrefl, decide_false,
        Bool.false_eq_true, if_false]
  | out empty => exact .inr ⟨none, rfl, .out empty⟩

omit [Cursor ρ] in
theorem Reserve.addOptional {optional : Option ο} (reserve : Reserve O false optional)
    (required : ρ) (x : Score) :
    (Bonus.addOptional ⟨required, optional, false⟩ .beforeFirst x).state =
      ⟨required, optional, false⟩ := by
  cases reserve with
  | primed primed =>
      simp only [Bonus.addOptional, primed.doc, if_true, Outcome.within, Outcome.map,
        primed.steady]
  | out empty => rfl

/-- Asking for a score too early leaves a bonus at rest. -/
theorem AtRest.score (h : AtRest P O c) : AtRest P O (Cursor.score c).state where
  required := required_score c ▸ resting_rests.score h.required
  reserve := by
    intro d reaches
    have reserve := h.reserve reaches
    show Reserve O (Bonus.score c).state.fresh (Bonus.score c).state.optional
    rw [Bonus.score, resting_rests.doc h.required reaches]
    refine Outcome.state_bind (fun c' : Bonus ρ ο => Reserve O c'.fresh c'.optional)
      reserve fun x _ => ?_
    obtain ⟨failure, eq⟩ | ⟨optional, eq, reserve'⟩ :=
      reserve.catchUp_beforeFirst (Cursor.score c.required).state
    · rw [eq]
      exact reserve
    · rw [eq, Outcome.andThen_done, reserve'.addOptional]
      exact reserve'

/-- A bonus of cursors at rest is at rest. -/
theorem rests_of_atRest (h : AtRest P O c) : Rests (P.withBonus O Set.univ) c := by
  refine ⟨AtRest P O, ⟨fun h => ?_, fun h reaches => ?_, AtRest.score⟩, h⟩
  · exact h.starts.imp And.left
  · exact (resting_rests.doc h.required reaches : Cursor.doc _ = _)

theorem atRest_ofParts {required : ρ} {optional : ο} (rests : Rests P required)
    (begins : Begins O optional) (braced : Braced O optional) :
    AtRest P O (ofParts required optional) :=
  ⟨rests, fun _ => .fresh begins braced⟩

end Bonus

end Retrieval
