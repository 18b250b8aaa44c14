import Retrieval.Proofs.Terms

/-!
# Starting with a seek

A search whose first move is a seek mostly goes through the accepted documents from the target on.
The exception is a threshold over more optional clauses than are needed, next to required ones. It
is first put on a document of its own. If that one is not before the target, it is asked to stay
there, and if too few of the optional clauses have documents beyond, it answers that none are left.
-/

namespace Retrieval

namespace Prospect

variable {d t : DocId} {P : Prospect} {Ps Rs Os Xs : List Prospect} {needed minOptional : Nat}
variable {T : Set DocId}

/-- If the first move is a seek, no document from the target on is left out. -/
def Prompt (P : Prospect) : Prop := ∀ t, P.docsFrom t = P.docs ∩ since t

/-- Seeks have the effect that is expected of them, whether they come first or lead back. -/
structure Steady (P : Prospect) : Prop where
  prompt : P.Prompt
  holds : P.holds = Set.univ

theorem steady_ofList (list : PostingList) (boost : Score) : (ofList list boost).Steady :=
  ⟨fun _ => rfl, rfl⟩

theorem steady_all (factor : Score) (steady : ∀ P ∈ Ps, P.Steady) : (all factor Ps).Steady where
  prompt := by
    intro t
    ext d
    refine ⟨fun inside => ⟨inside.1, inside.2.1⟩, fun inside => ⟨inside.1, inside.2, ?_⟩⟩
    intro P there e _ _
    rw [(steady P there).holds]
    exact Set.mem_univ e
  holds := by
    apply Set.eq_univ_of_forall
    intro e P there
    rw [(steady P there).holds]
    exact Set.mem_univ e

theorem steady_conjoined (steady : ∀ P ∈ Ps, P.Steady) : (conjoined Ps).Steady := by
  have steady' := steady_all (CoordRule.fraction.factor Ps.length Ps.length) steady
  exact ⟨steady'.prompt, steady'.holds⟩

theorem steady_core (steady : ∀ P ∈ Ps, P.Steady) : (core Ps).Steady := by
  cases Ps with
  | nil => exact steady_conjoined steady
  | cons P Ps =>
      cases Ps with
      | nil =>
          have first : P.Steady := steady P List.mem_cons_self
          exact ⟨first.prompt, first.holds⟩
      | cons P' Ps => exact steady_conjoined steady

theorem prompt_enough (needed : Nat) (Os : List Prospect) : (enough needed Os).Prompt :=
  fun _ => rfl

theorem mem_docsFrom_guarded (prompt : ∀ X ∈ Xs, X.Prompt) :
    d ∈ (guarded P Xs).docsFrom t ↔ d ∈ P.docsFrom t ∧ ∀ X ∈ Xs, d ∉ X.docs := by
  cases Xs with
  | nil => simp [guarded]
  | cons X Xs =>
      cases Xs with
      | nil =>
          show (d ∈ P.docsFrom t ∧ d ∉ X.docsFrom t) ↔ _
          rw [List.forall_mem_singleton, prompt X List.mem_cons_self]
          exact and_congr_right fun inside => not_congr (and_iff_left (P.later t inside))
      | cons X' Xs =>
          show (d ∈ P.docsFrom t ∧ ¬ (d ∈ (quorum 1 (X :: X' :: Xs)).docs ∧ t ≤ d)) ↔ _
          apply and_congr_right
          intro inside
          rw [and_iff_left (show t ≤ d from P.later t inside), mem_quorum_one]
          simp only [not_exists, not_and]

theorem Prompt.guarded (prompt : P.Prompt) (prompts : ∀ X ∈ Xs, X.Prompt) :
    (guarded P Xs).Prompt := by
  intro t
  ext d
  rw [Set.mem_inter_iff, mem_docsFrom_guarded prompts, mem_guarded, prompt t, Set.mem_inter_iff,
    and_right_comm]

/-- The first document in enough of several prospects is not before the target, and too few of them
have documents beyond it. -/
def Stalled (needed : Nat) (Os : List Prospect) (t : DocId) : Prop :=
  ∃ e, IsLeast (quorum needed Os).docs e ∧ t ≤ e ∧ (meeting (beyond e) Os).length < needed

/-- Required clauses beside enough of the optional ones. -/
theorem mem_docsFrom_both {factor : Score} (steady : P.Steady) :
    d ∈ (all factor [P, enough needed Os]).docsFrom t ↔
      (d ∈ P.docs ∧ d ∈ (enough needed Os).docs) ∧ t ≤ d ∧ ¬ Stalled needed Os t := by
  have each : ∀ {G : Prospect → Prop}, (∀ Q ∈ [P, enough needed Os], G Q) ↔
      G P ∧ G (enough needed Os) := by
    intro G
    rw [List.forall_mem_cons, List.forall_mem_singleton]
  have stays : ∀ e, IsLeast P.docs e → t ≤ e → e ∈ P.holds := fun e _ _ =>
    steady.holds ▸ Set.mem_univ e
  refine Iff.trans (and_congr each (and_congr_right fun _ => each)) ?_
  rw [and_iff_right stays]
  refine and_congr_right fun _ => and_congr_right fun _ => ?_
  constructor
  · rintro holds ⟨e, least, notBefore, few⟩
    exact Nat.not_le_of_lt few (holds e least notBefore)
  · intro goes e least notBefore
    exact Nat.le_of_not_lt fun few => goes ⟨e, least, notBefore, few⟩

/-- Required clauses next to more optional ones than have to match, of which some have to. -/
def Split {α : Type} (minOptional : Nat) (required optional : List α) : Prop :=
  required ≠ [] ∧ 0 < minOptional ∧ minOptional < optional.length

/-- All other compositions start with a seek as well as with a move to the next document. -/
theorem prompt_composed (steadyRs : ∀ P ∈ Rs, P.Steady) (steadyOs : ∀ P ∈ Os, P.Steady)
    (prompts : ∀ X ∈ Xs, X.Prompt) (whole : ¬ Split minOptional Rs Os) :
    (composed minOptional Rs Os Xs T).Prompt := by
  have nothing : Prospect.nothing.Prompt := fun t => (Set.empty_inter (since t)).symm
  unfold composed
  by_cases none : Rs.isEmpty = true
  · rw [if_pos none, composedOptional]
    by_cases few : Os.length < max minOptional 1
    · rwa [if_pos few]
    by_cases many : max minOptional 1 < Os.length
    · rw [if_neg few, if_pos many]
      exact (prompt_enough _ Os).guarded prompts
    · rw [if_neg few, if_neg many]
      exact (steady_core steadyOs).prompt.guarded prompts
  · rw [if_neg none, composedRequired]
    by_cases few : Os.length < minOptional
    · rwa [if_pos few]
    by_cases same : Os.length = minOptional
    · rw [if_neg few, if_pos same]
      have steady := steady_conjoined (List.forall_mem_append.mpr ⟨steadyRs, steadyOs⟩)
      exact steady.prompt.guarded prompts
    by_cases some : 0 < minOptional
    · exact absurd ⟨by simpa using none, some, by omega⟩ whole
    · rw [if_neg few, if_neg same, if_neg some]
      exact (steady_core steadyRs).prompt.guarded prompts

/-- The documents after a seek as the first move. -/
theorem mem_docsFrom_composed (steadyRs : ∀ P ∈ Rs, P.Steady) (steadyOs : ∀ P ∈ Os, P.Steady)
    (prompts : ∀ X ∈ Xs, X.Prompt) : d ∈ (composed minOptional Rs Os Xs T).docsFrom t ↔
      d ∈ (composed minOptional Rs Os Xs T).docs ∧ t ≤ d ∧
        ¬ (Split minOptional Rs Os ∧ Stalled minOptional Os t) := by
  by_cases split : Split minOptional Rs Os
  · obtain ⟨required, some, more⟩ := split
    have split : Split minOptional Rs Os := ⟨required, some, more⟩
    have shape : composed minOptional Rs Os Xs T = guarded
        (all (CoordRule.fraction.factor 2 2) [core Rs, enough minOptional Os]) Xs := by
      rw [composed, if_neg (by simpa using required), composedRequired, if_neg (by omega),
        if_neg (by omega), if_pos some]
    rw [shape, mem_docsFrom_guarded prompts, mem_docsFrom_both (steady_core steadyRs), mem_guarded]
    have both : d ∈ (all (CoordRule.fraction.factor 2 2) [core Rs, enough minOptional Os]).docs ↔
        d ∈ (core Rs).docs ∧ d ∈ (enough minOptional Os).docs := by
      show (∀ Q ∈ [core Rs, enough minOptional Os], d ∈ Q.docs) ↔ _
      rw [List.forall_mem_cons, List.forall_mem_singleton]
    rw [both]
    tauto
  · rw [prompt_composed steadyRs steadyOs prompts split t, Set.mem_inter_iff, mem_since]
    tauto

end Prospect

namespace BooleanCursor

open Boolean Cursor Prospect

variable {rules : ClauseRules} {rule : CoordRule} {terms : List (Role × TermQuery)}
variable {search : BooleanCursor PostingCursor} {d t : DocId}

/-- Whether a search for terms that starts with a seek to `t` answers that there is nothing: some
but not all optional terms have to match besides the required ones, the first document in enough of
them is not before `t`, and too few have documents beyond it. -/
def Stalls (rules : ClauseRules) (terms : List (Role × TermQuery)) (t : DocId) : Prop :=
  Split rules.minOptional (byRole .required terms) (byRole .optional terms) ∧
    ∃ e, IsLeast {d | rules.minOptional ≤ (byRole .optional terms).countP (·.isMatch d)} e ∧ t ≤ e ∧
      (byRole .optional terms).countP (fun q => q.list.docs.any (e < ·)) < rules.minOptional

theorem quorum_terms (needed : Nat) (qs : List TermQuery) :
    (quorum needed (qs.map TermQuery.prospect)).docs =
      {d | needed ≤ qs.countP (·.isMatch d)} := by
  ext d
  show needed ≤ (meeting {d} (qs.map TermQuery.prospect)).length ↔ _
  rw [length_meeting_map fun q _ => q.isMatch_iff_window]
  exact Iff.rfl

theorem length_meeting_beyond_terms (e : DocId) (qs : List TermQuery) :
    (meeting (beyond e) (qs.map TermQuery.prospect)).length =
      qs.countP fun q => q.list.docs.any (e < ·) := by
  apply length_meeting_map
  intro q _
  rw [List.any_eq_true]
  exact exists_congr fun x => and_congr_right fun _ => (decide_eq_true_iff (p := e < x)).symm

/-- A search stalls exactly if the optional side of its composition does. -/
theorem stalls_iff : Stalls rules terms t ↔
    Split rules.minOptional (byRole .required (prospects terms))
        (byRole .optional (prospects terms)) ∧
      Stalled rules.minOptional (byRole .optional (prospects terms)) t := by
  simp only [Stalls, Stalled, Split, prospects, byRole_map, quorum_terms,
    length_meeting_beyond_terms, List.length_map, ne_eq, List.map_eq_nil_iff]

theorem mem_docsFrom_ofTerms {T : Set DocId} :
    d ∈ (ofRoles rules (prospects terms) T).docsFrom t ↔
      accepts rules terms (·.isMatch d) = true ∧ t ≤ d ∧ ¬ Stalls rules terms t := by
  have steady : ∀ role, ∀ P ∈ byRole role (prospects terms), P.Steady :=
    forall_byRole (List.forall_mem_map.mpr fun x _ => steady_ofList x.2.list x.2.boost)
  rw [stalls_iff, ← mem_ofRoles_prospects]
  exact mem_docsFrom_composed (steady .required) (steady .optional)
    fun X inside => (steady .prohibited X inside).prompt

/-- A first seek leads to the first document that is expected after it. -/
theorem seek_ofTerms (made : ofTerms rule rules terms = .ok search) (nonneg : 0 ≤ t) :
    (Cursor.seek search t).Finds
      {d | accepts rules terms (·.isMatch d) = true ∧ t ≤ d ∧ ¬ Stalls rules terms t}
      fun d c => Cursor.doc c = d := by
  have docsFrom : (ofRoles rules (prospects terms) Set.univ).docsFrom t =
      {d | accepts rules terms (·.isMatch d) = true ∧ t ≤ d ∧ ¬ Stalls rules terms t} :=
    Set.ext fun d => mem_docsFrom_ofTerms
  rw [← docsFrom]
  exact ((starts_ofTerms made).seek nonneg).imp fun d c _ stood =>
    (faithful_standing (scores_prospects_le rules terms Set.univ)).doc stood.1.standing

theorem seek_of_stalls (made : ofTerms rule rules terms = .ok search) (nonneg : 0 ≤ t)
    (stalls : Stalls rules terms t) : ∃ c, Cursor.seek search t = .done c false := by
  cases seek_ofTerms made nonneg with
  | found d c eq least _ => exact absurd stalls least.1.2.2
  | missed c eq _ => exact ⟨c, eq⟩

/-- A search that starts with a seek finds the first accepted document from the target on, exactly
if it does not stall or there is no such document. If it stalls, it answers that there is none. -/
theorem first_seek_ofTerms (made : ofTerms rule rules terms = .ok search) (nonneg : 0 ≤ t) :
    ((Cursor.seek search t).Finds ({d | accepts rules terms (·.isMatch d) = true} ∩ since t)
        (fun d c => Cursor.doc c = d) ↔
      ¬ (Stalls rules terms t ∧ ∃ d, accepts rules terms (·.isMatch d) = true ∧ t ≤ d)) ∧
      (Stalls rules terms t → (Cursor.seek search t).answer = .ok false) := by
  by_cases stalls : Stalls rules terms t
  · obtain ⟨c, eq⟩ := seek_of_stalls made nonneg stalls
    rw [eq]
    refine ⟨⟨?_, fun nothing => .missed c rfl ?_⟩, fun _ => rfl⟩
    · rintro finds ⟨-, d, accepted, notBefore⟩
      cases finds with
      | found _ c' eq' _ _ => exact Bool.false_ne_true (Except.ok.inj (congrArg Outcome.answer eq'))
      | missed _ _ empty => exact Set.eq_empty_iff_forall_notMem.mp empty d ⟨accepted, notBefore⟩
    · exact Set.eq_empty_of_forall_notMem fun d inside => nothing ⟨stalls, d, inside⟩
  · have finds := seek_ofTerms made nonneg
    simp only [stalls, not_false_eq_true, and_true] at finds
    exact ⟨iff_of_true finds fun h => stalls h.1, fun h => absurd h stalls⟩

def five : TermQuery := ⟨"five", ⟨#[⟨5, 1⟩], by decide, by decide⟩, 1⟩

def threefold : List (Role × TermQuery) :=
  [(.required, five), (.optional, five), (.optional, five)]

theorem stalls_threefold : Stalls { minOptional := 1 } threefold 5 := by
  have docs : ∀ q ∈ byRole .optional threefold, q.list.docs = [5] := by decide
  refine ⟨⟨by decide, by decide, by decide⟩, 5, ⟨by decide, fun d inside => ?_⟩, by decide,
    by decide⟩
  obtain ⟨q, optional, isMatch⟩ := List.countP_pos_iff.mp inside
  have there : d ∈ q.list.docs := of_decide_eq_true isMatch
  rw [docs q optional, List.mem_singleton] at there
  exact there ▸ Int32.le_refl d

/-- If one of the optional terms has to match, a first seek to the document that all contain does
not find it. -/
theorem first_seek_misses : ∃ search,
    ofTerms .fraction { minOptional := 1 } threefold = .ok search ∧
    accepts { minOptional := 1 } threefold (·.isMatch 5) = true ∧
    (Cursor.seek search 5).answer = .ok false := by
  obtain ⟨c, eq⟩ := seek_of_stalls rfl (by decide) stalls_threefold
  exact ⟨_, rfl, by decide, congrArg Outcome.answer eq⟩

theorem first_seek_threefold : ∃ search,
    ofTerms .fraction { minOptional := 1 } threefold = .ok search ∧ (0 : DocId) ≤ 5 ∧
      ¬ (Cursor.seek search 5).Finds
        ({d | accepts { minOptional := 1 } threefold (·.isMatch d) = true} ∩ since 5)
        fun d c => Cursor.doc c = d := by
  refine ⟨_, rfl, by decide, fun finds => ?_⟩
  exact (first_seek_ofTerms rfl (by decide)).1.mp finds ⟨stalls_threefold, 5, by decide, by decide⟩

end BooleanCursor

end Retrieval
