import Mathlib.Data.List.Perm.Basic
import Retrieval.Proofs.Composition

/-!
# What a composition finds and how it scores

However clauses are composed, the documents are those that all required clauses contain, no
prohibited one and enough of the optional ones. The score of a document is a sum of the scores that
the matching clauses give to it, each taken once, and as many clauses are counted.

There is one exception. A single optional clause that only adds to the scores is started by a seek
to the first document that is scored, and is counted if the seek has left the document to it.
-/

namespace Retrieval

/-- A score is a sum of other scores, each taken once, in some order and bracketing. A partial sum
may be started from zero, and the sum of a conjunction is multiplied by the share of its parts that
match, which is all of them and thus one (`CoordRule.fraction_self`). -/
inductive ScoreSum : List Score → Score → Prop
  | single (v : Score) : ScoreSum [v] v
  | fromZero {xs : List Score} {v : Score} (sum : ScoreSum xs v) : ScoreSum xs (0 + v)
  | add {xs ys : List Score} {v w : Score} (sum : ScoreSum xs v) (sum' : ScoreSum ys w) :
      ScoreSum (xs ++ ys) (v + w)
  | conjoined {xs : List Score} {v : Score} (sum : ScoreSum xs v) {parts : Nat}
      (some : 0 < parts) (atMost : parts ≤ xs.length) :
      ScoreSum xs (v * CoordRule.fraction.factor parts parts)
  | perm {xs ys : List Score} {v : Score} (sum : ScoreSum xs v) (perm : xs.Perm ys) : ScoreSum ys v

namespace ScoreSum

variable {xs ys : List Score} {v : Score}

theorem ne_nil (sum : ScoreSum xs v) : xs ≠ [] := by
  induction sum with
  | single v => exact List.cons_ne_nil v []
  | fromZero _ ih => exact ih
  | add _ _ ih _ => exact List.append_ne_nil_of_left_ne_nil ih _
  | conjoined _ _ _ ih => exact ih
  | perm _ perm ih => exact fun empty => ih (empty ▸ perm).eq_nil

/-- Adding up from a partial sum. -/
theorem foldl (sum : ScoreSum xs v) (ys : List Score) :
    ScoreSum (xs ++ ys) (ys.foldl (· + ·) v) := by
  induction ys generalizing xs v with
  | nil => simpa using sum
  | cons y ys ih =>
      rw [List.foldl_cons, List.append_cons]
      exact ih (sum.add (.single y))

/-- Adding up from zero. -/
theorem foldl_zero (nonempty : xs ≠ []) : ScoreSum xs (xs.foldl (· + ·) 0) := by
  obtain ⟨x, xs, rfl⟩ := List.exists_cons_of_ne_nil nonempty
  exact (ScoreSum.single x).fromZero.foldl xs

end ScoreSum

namespace Prospect

variable {d t : DocId} {v w : Score} {m n : Nat} {P : Prospect} {Ps Qs Rs Os Xs : List Prospect}

/-- A score is made up of the scores that some clauses give to a document, and as many are counted.
-/
def Graded (d : DocId) (Ps : List Prospect) (v : Score) (n : Nat) : Prop :=
  n = Ps.length ∧ ∃ xs, List.Forall₂ (fun P x => P.scores d x 0) Ps xs ∧ ScoreSum xs v

theorem Graded.perm (graded : Graded d Ps v n) (perm : Qs.Perm Ps) : Graded d Qs v n := by
  obtain ⟨rfl, xs, scores, sum⟩ := graded
  obtain ⟨ys, scores', perm'⟩ := List.perm_comp_forall₂ perm scores
  exact ⟨perm.length_eq.symm, ys, scores', sum.perm perm'.symm⟩

theorem Graded.append (graded : Graded d Ps v m) (graded' : Graded d Qs w n) :
    Graded d (Ps ++ Qs) (v + w) (m + n) := by
  obtain ⟨rfl, xs, scores, sum⟩ := graded
  obtain ⟨rfl, ys, scores', sum'⟩ := graded'
  exact ⟨List.length_append.symm, xs ++ ys, List.rel_append scores scores', sum.add sum'⟩

theorem Graded.fromZero (graded : Graded d Ps v n) : Graded d Ps (0 + v) n := by
  obtain ⟨count, xs, scores, sum⟩ := graded
  exact ⟨count, xs, scores, sum.fromZero⟩

theorem Graded.conjoined (graded : Graded d Ps v n) {parts : Nat} (some : 0 < parts)
    (atMost : parts ≤ n) : Graded d Ps (v * CoordRule.fraction.factor parts parts) n := by
  obtain ⟨rfl, xs, scores, sum⟩ := graded
  exact ⟨rfl, xs, scores, sum.conjoined some (scores.length_eq ▸ atMost)⟩

theorem Graded.pos (graded : Graded d Ps v n) : 0 < n := by
  obtain ⟨rfl, xs, scores, sum⟩ := graded
  rw [scores.length_eq]
  exact List.length_pos_iff.mpr sum.ne_nil

theorem Graded.of_sums (sums : Sums d Ps v) : Graded d Ps v Ps.length := by
  obtain ⟨Qs, x, xs, perm, scores, rfl⟩ := sums
  have graded : Graded d Qs (xs.foldl (· + ·) x) Qs.length :=
    ⟨rfl, x :: xs, scores, (ScoreSum.single x).foldl xs⟩
  exact perm.length_eq ▸ graded.perm perm.symm

/-- A counted clause alone. -/
theorem graded_one (silent : P.Silent) (scored : (P.counted fun _ => 1).scores d v n) :
    Graded d [P] v n := by
  obtain ⟨m, scored, rfl⟩ := scored
  obtain rfl := silent d v m scored
  exact ⟨rfl, [v], .cons scored .nil, .single v⟩

/-- Clauses that count nothing themselves. -/
theorem silent_scores {xs : List (Score × Nat)} (silent : ∀ P ∈ Ps, P.Silent)
    (scores : List.Forall₂ (fun P x => P.scores d x.1 x.2) Ps xs) :
    List.Forall₂ (fun P x => P.scores d x 0) Ps (xs.map Prod.fst) ∧ (xs.map Prod.snd).sum = 0 := by
  induction scores with
  | nil => exact ⟨.nil, rfl⟩
  | @cons P x Ps xs scored _ ih =>
      obtain ⟨scores, none⟩ := ih fun Q inside => silent Q (List.mem_cons_of_mem P inside)
      have zero : x.2 = 0 := silent P List.mem_cons_self _ _ _ scored
      refine ⟨.cons (zero ▸ scored) scores, ?_⟩
      simp [zero, none]

theorem graded_conjoined (nonempty : Ps ≠ []) (silent : ∀ P ∈ Ps, P.Silent)
    (scored : (conjoined Ps).scores d v n) : Graded d Ps v n := by
  obtain ⟨_, ⟨Qs, xs, perm, scores, rfl, rfl⟩, rfl⟩ := scored
  obtain ⟨scores', none⟩ := silent_scores (fun Q inside => silent Q (perm.mem_iff.mp inside)) scores
  have some : xs.map Prod.fst ≠ [] := by
    intro empty
    rw [empty] at scores'
    exact nonempty (List.forall₂_nil_right_iff.mp scores' ▸ perm).nil_eq.symm
  have graded : Graded d Ps ((xs.map Prod.fst).foldl (· + ·) 0) Qs.length :=
    Graded.perm ⟨rfl, _, scores', ScoreSum.foldl_zero some⟩ perm.symm
  rw [none, Nat.add_zero]
  exact (perm.length_eq ▸ graded).conjoined (List.length_pos_iff.mpr nonempty) (Nat.le_refl _)

theorem graded_core (nonempty : Rs ≠ []) (silent : ∀ P ∈ Rs, P.Silent)
    (scored : (core Rs).scores d v n) : Graded d Rs v n := by
  cases Rs with
  | nil => exact absurd rfl nonempty
  | cons R Rs =>
      cases Rs with
      | nil => exact graded_one (silent R List.mem_cons_self) scored
      | cons R' Rs => exact graded_conjoined nonempty silent scored

theorem graded_enough {needed : Nat} (scored : (enough needed Os).scores d v n) :
    Graded d (meeting {d} Os) v n := by
  obtain ⟨_, ⟨rfl, sums⟩, rfl⟩ := scored
  exact .of_sums sums

/-- The two orders of two clauses. -/
theorem perm_pair {A B : Prospect} (perm : Qs.Perm [A, B]) : Qs = [A, B] ∨ Qs = [B, A] := by
  obtain ⟨P, Q, rfl⟩ := List.length_eq_two.mp perm.length_eq
  have inside : P = A ∨ P = B := by simpa using perm.mem_iff.mp List.mem_cons_self
  cases inside with
  | inl same =>
      subst same
      exact .inl (by rw [((List.perm_cons P).mp perm).eq_singleton])
  | inr same =>
      subst same
      exact .inr (by rw [((List.perm_cons P).mp (perm.trans (.swap P A []))).eq_singleton])

/-- Required and optional clauses that decide together. -/
theorem graded_both {needed : Nat} (nonempty : Rs ≠ []) (silent : ∀ P ∈ Rs, P.Silent)
    (scored : (all (CoordRule.fraction.factor 2 2) [core Rs, enough needed Os]).scores d v n) :
    Graded d (Rs ++ meeting {d} Os) v n := by
  obtain ⟨Qs, xs, perm, scores, rfl, rfl⟩ := scored
  -- both groups are counted, so at least two clauses are
  have conjoin : ∀ {Ps Ps' : List Prospect} {x y : Score × Nat}, Graded d Ps x.1 x.2 →
      Graded d Ps' y.1 y.2 → Graded d (Ps ++ Ps')
        (([x, y].map Prod.fst).foldl (· + ·) 0 * CoordRule.fraction.factor 2 2)
        ([x, y].map Prod.snd).sum := by
    intro Ps Ps' x y graded graded'
    have count : 2 ≤ x.2 + y.2 := Nat.add_le_add graded.pos graded'.pos
    simpa using (graded.fromZero.append graded').conjoined (by omega : 0 < 2) count
  cases perm_pair perm with
  | inl same =>
      subst same
      cases scores with
      | cons first rest =>
          cases rest with
          | cons second rest =>
              cases rest
              exact conjoin (graded_core nonempty silent first) (graded_enough second)
  | inr same =>
      subst same
      cases scores with
      | cons first rest =>
          cases rest with
          | cons second rest =>
              cases rest
              exact (conjoin (graded_enough first) (graded_core nonempty silent second)).perm
                List.perm_append_comm

theorem scores_guarded (P : Prospect) (Xs : List Prospect) : (guarded P Xs).scores = P.scores := by
  cases Xs with
  | nil => rfl
  | cons X Xs => cases Xs <;> rfl

theorem mem_singleton_window {Q : Prospect} : (Q.docs ∩ {d}).Nonempty ↔ d ∈ Q.docs := by
  simp

theorem mem_meeting_singleton : P ∈ meeting {d} Ps ↔ P ∈ Ps ∧ d ∈ P.docs := by
  rw [mem_meeting, mem_singleton_window]

theorem meeting_eq_self_iff : meeting {d} Ps = Ps ↔ ∀ P ∈ Ps, d ∈ P.docs := by
  constructor
  · intro same P inside
    rw [← same, mem_meeting_singleton] at inside
    exact inside.2
  · exact fun all => meeting_eq_self fun P inside => mem_singleton_window.mpr (all P inside)

theorem length_meeting_le (d : DocId) (Ps : List Prospect) : (meeting {d} Ps).length ≤ Ps.length :=
  List.length_filter_le _ _

/-- All clauses contain a document if as many as there are do. -/
theorem length_meeting_eq_iff : Ps.length ≤ (meeting {d} Ps).length ↔ ∀ P ∈ Ps, d ∈ P.docs := by
  rw [← meeting_eq_self_iff]
  constructor
  · exact fun le => List.filter_sublist.eq_of_length_le le
  · exact fun same => Nat.le_of_eq (congrArg List.length same.symm)

theorem mem_core : d ∈ (core Rs).docs ↔ ∀ P ∈ Rs, d ∈ P.docs := by
  cases Rs with
  | nil => exact Iff.rfl
  | cons R Rs =>
      cases Rs with
      | nil =>
          show d ∈ R.docs ↔ _
          rw [List.forall_mem_singleton]
      | cons R' Rs => exact Iff.rfl

/-- Some clause contains a document if one of them does. -/
theorem mem_quorum_one : d ∈ (quorum 1 Ps).docs ↔ ∃ P ∈ Ps, d ∈ P.docs := by
  show 1 ≤ (meeting {d} Ps).length ↔ _
  rw [Nat.one_le_iff_ne_zero, ← Nat.pos_iff_ne_zero, List.length_pos_iff_exists_mem]
  simp only [mem_meeting_singleton]

theorem mem_guarded : d ∈ (guarded P Xs).docs ↔ d ∈ P.docs ∧ ∀ X ∈ Xs, d ∉ X.docs := by
  cases Xs with
  | nil => simp [guarded]
  | cons X Xs =>
      cases Xs with
      | nil =>
          apply and_congr_right
          intro _
          rw [List.forall_mem_singleton]
      | cons X' Xs =>
          apply and_congr_right
          intro _
          rw [mem_quorum_one]
          simp only [not_exists, not_and]

/-- How many optional clauses a document has to match: at least one if none is required. -/
def needed {α : Type} (minOptional : Nat) (required : List α) : Nat :=
  if required.isEmpty then max minOptional 1 else minOptional

/-- The documents that some clauses accept. -/
def accepted (minOptional : Nat) (Rs Os Xs : List Prospect) : Set DocId :=
  {d | (∀ R ∈ Rs, d ∈ R.docs) ∧ (∀ X ∈ Xs, d ∉ X.docs) ∧
    needed minOptional Rs ≤ (meeting {d} Os).length}

theorem needed_required (minOptional : Nat) (nonempty : Rs ≠ []) :
    needed minOptional Rs = minOptional :=
  if_neg (by simpa using nonempty)

theorem mem_composedOptional {minOptional : Nat} :
    d ∈ (composedOptional minOptional Os Xs).docs ↔ d ∈ accepted minOptional [] Os Xs := by
  have most : (meeting {d} Os).length ≤ Os.length := length_meeting_le d Os
  have accepts : d ∈ accepted minOptional [] Os Xs ↔
      max minOptional 1 ≤ (meeting {d} Os).length ∧ ∀ X ∈ Xs, d ∉ X.docs := by
    simp [accepted, needed, and_comm]
  rw [composedOptional, accepts]
  by_cases few : Os.length < max minOptional 1
  · rw [if_pos few]
    exact ⟨False.elim, fun enough => absurd enough.1 (by omega)⟩
  rw [if_neg few]
  by_cases many : max minOptional 1 < Os.length
  · rw [if_pos many, mem_guarded]
    exact Iff.rfl
  · have same : max minOptional 1 = Os.length := by omega
    rw [if_neg many, mem_guarded, mem_core, same, length_meeting_eq_iff]

theorem mem_composedRequired {minOptional : Nat} {T : Set DocId} (nonempty : Rs ≠ []) :
    d ∈ (composedRequired minOptional Rs Os Xs T).docs ↔ d ∈ accepted minOptional Rs Os Xs := by
  have most : (meeting {d} Os).length ≤ Os.length := length_meeting_le d Os
  have accepts : d ∈ accepted minOptional Rs Os Xs ↔ ((∀ R ∈ Rs, d ∈ R.docs) ∧
      minOptional ≤ (meeting {d} Os).length) ∧ ∀ X ∈ Xs, d ∉ X.docs := by
    simp only [accepted, needed_required minOptional nonempty, Set.mem_ofPred_eq]
    tauto
  rw [composedRequired, accepts]
  by_cases few : Os.length < minOptional
  · rw [if_pos few]
    exact ⟨False.elim, fun enough => absurd enough.1.2 (by omega)⟩
  rw [if_neg few]
  by_cases same : Os.length = minOptional
  · rw [if_pos same, mem_guarded, ← same, length_meeting_eq_iff]
    exact and_congr_left fun _ => List.forall_mem_append
  rw [if_neg same]
  by_cases some : 0 < minOptional
  · rw [if_pos some, mem_guarded]
    apply and_congr_left
    intro _
    show (∀ P ∈ [core Rs, enough minOptional Os], d ∈ P.docs) ↔ _
    rw [List.forall_mem_cons, List.forall_mem_singleton, mem_core]
    exact Iff.rfl
  · have none : minOptional = 0 := by omega
    rw [if_neg some]
    show d ∈ (guarded (core Rs) Xs).docs ↔ _
    rw [mem_guarded, mem_core, none]
    simp

/-- Whatever the composition, its documents are those that the clauses accept. -/
theorem docs_composed (minOptional : Nat) (Rs Os Xs : List Prospect) (T : Set DocId) :
    (composed minOptional Rs Os Xs T).docs = accepted minOptional Rs Os Xs := by
  ext d
  cases Rs with
  | nil => exact mem_composedOptional
  | cons R Rs => exact mem_composedRequired (List.cons_ne_nil R Rs)

/-- A single optional clause that only adds to the scores of the required ones. -/
def Lone {α : Type} (minOptional : Nat) (required optional : List α) : Prop :=
  required ≠ [] ∧ minOptional = 0 ∧ optional.length = 1

open Classical in
/-- Those of several prospects that have the document `d` after a first seek to `t`. -/
noncomputable def reaching (t d : DocId) (Ps : List Prospect) : List Prospect :=
  Ps.filter fun P => decide (d ∈ P.docsFrom t)

/-- The clauses counted for a document are those that contain it. Only a single optional clause that
adds to the scores is counted by where the first document scored has taken it. -/
structure Tallied (minOptional : Nat) (Rs Os : List Prospect) (T : Set DocId) (d : DocId)
    (Qs : List Prospect) : Prop where
  usual : ¬ Lone minOptional Rs Os → Qs = meeting {d} (Rs ++ Os)
  lone : Lone minOptional Rs Os → ∃ t ∈ T, t ≤ d ∧ Qs = Rs ++ reaching t d Os

theorem reaching_of_mem (inside : d ∈ P.docsFrom t) : reaching t d [P] = [P] := by
  simp [reaching, inside]

theorem reaching_of_notMem (outside : d ∉ P.docsFrom t) : reaching t d [P] = [] := by
  simp [reaching, outside]

theorem graded_composedOptional {minOptional : Nat} (silent : ∀ P ∈ Os, P.Silent)
    (scored : (composedOptional minOptional Os Xs).scores d v n) :
    ∃ Qs, Graded d Qs v n ∧ Qs.Sublist Os ∧
      (d ∈ accepted minOptional [] Os Xs → Qs = meeting {d} Os) := by
  rw [← mem_composedOptional]
  unfold composedOptional at scored ⊢
  by_cases few : Os.length < max minOptional 1
  · rw [if_pos few] at scored
    exact scored.elim
  rw [if_neg few] at scored ⊢
  by_cases many : max minOptional 1 < Os.length
  · rw [if_pos many, scores_guarded] at scored
    exact ⟨meeting {d} Os, graded_enough scored, List.filter_sublist, fun _ => rfl⟩
  · rw [if_neg many, scores_guarded] at scored
    rw [if_neg many, mem_guarded, mem_core, ← meeting_eq_self_iff]
    have nonempty : Os ≠ [] := by
      rintro rfl
      simp at few
    exact ⟨Os, graded_core nonempty silent scored, .refl Os, fun inside => inside.1.symm⟩

/-- Optional clauses that add to the scores of the required ones. -/
theorem graded_bonus {T : Set DocId} (nonempty : Rs ≠ []) (extras : Os ≠ [])
    (silent : ∀ P ∈ Rs ++ Os, P.Silent)
    (scored : ((guarded (core Rs) Xs).withBonus (extra Os) T).scores d v n) :
    ∃ Qs, Graded d Qs v n ∧ Qs.Sublist (Rs ++ Os) ∧
      ((∀ R ∈ Rs, d ∈ R.docs) → Tallied 0 Rs Os T d Qs) := by
  have silentRs : ∀ P ∈ Rs, P.Silent := fun P inside => silent P (List.mem_append_left _ inside)
  have silentOs : ∀ P ∈ Os, P.Silent := fun P inside => silent P (List.mem_append_right _ inside)
  obtain ⟨t, first, passed, x, m, scored, added⟩ := scored
  rw [scores_guarded] at scored
  have graded : Graded d Rs x m := graded_core nonempty silentRs scored
  cases Os with
  | nil => exact absurd rfl extras
  | cons O Os =>
      cases Os with
      | nil =>
          have lone : Lone 0 Rs [O] := ⟨nonempty, rfl, rfl⟩
          have tallied : ∀ {Qs}, Qs = Rs ++ reaching t d [O] → Tallied 0 Rs [O] T d Qs :=
            fun eq => ⟨fun several => absurd lone several, fun _ => ⟨t, first, passed, eq⟩⟩
          obtain ⟨inside, y, k, scored', rfl, rfl⟩ | ⟨outside, rfl, rfl⟩ := added
          · have graded' : Graded d [O] y k := graded_one (silentOs O List.mem_cons_self) scored'
            exact ⟨Rs ++ [O], graded.append graded', .refl _,
              fun _ => tallied (by rw [reaching_of_mem (P := O) inside])⟩
          · exact ⟨Rs, graded, List.sublist_append_left Rs [O],
              fun _ => tallied (by rw [reaching_of_notMem (P := O) outside, List.append_nil])⟩
      | cons O' Os =>
          refine ⟨Rs ++ meeting {d} (O :: O' :: Os), ?_,
            (List.Sublist.refl Rs).append List.filter_sublist, fun all =>
              ⟨fun _ => ?_, fun lone => absurd lone.2.2 (by simp)⟩⟩
          · obtain ⟨_, y, k, scored', rfl, rfl⟩ | ⟨outside, rfl, rfl⟩ := added
            · exact graded.append (graded_enough scored')
            · have none : meeting {d} (O :: O' :: Os) = [] := by
                by_contra more
                exact outside ⟨List.length_pos_iff.mpr more, passed⟩
              rwa [none, List.append_nil]
          · rw [meeting_append, meeting_eq_self_iff.mpr all]

theorem graded_composedRequired {minOptional : Nat} {T : Set DocId} (nonempty : Rs ≠ [])
    (silent : ∀ P ∈ Rs ++ Os, P.Silent)
    (scored : (composedRequired minOptional Rs Os Xs T).scores d v n) :
    ∃ Qs, Graded d Qs v n ∧ Qs.Sublist (Rs ++ Os) ∧
      (d ∈ accepted minOptional Rs Os Xs → Tallied minOptional Rs Os T d Qs) := by
  have usual : ∀ {Qs}, ¬ Lone minOptional Rs Os → Qs = meeting {d} (Rs ++ Os) →
      Tallied minOptional Rs Os T d Qs :=
    fun several eq => ⟨fun _ => eq, fun lone => absurd lone several⟩
  unfold composedRequired at scored
  by_cases few : Os.length < minOptional
  · rw [if_pos few] at scored
    exact scored.elim
  rw [if_neg few] at scored
  by_cases same : Os.length = minOptional
  · rw [if_pos same, scores_guarded] at scored
    have nonempty' := List.append_ne_nil_of_left_ne_nil nonempty Os
    refine ⟨Rs ++ Os, graded_conjoined nonempty' silent scored, .refl _, fun inside =>
      usual (fun lone => ?_) ?_⟩
    · have := lone.2.1
      have := lone.2.2
      omega
    have enough := inside.2.2
    rw [needed_required minOptional nonempty, ← same] at enough
    rw [eq_comm, meeting_eq_self_iff, List.forall_mem_append]
    exact ⟨inside.1, length_meeting_eq_iff.mp enough⟩
  rw [if_neg same] at scored
  by_cases some : 0 < minOptional
  · rw [if_pos some, scores_guarded] at scored
    have silentRs : ∀ P ∈ Rs, P.Silent := fun P inside => silent P (List.mem_append_left _ inside)
    refine ⟨Rs ++ meeting {d} Os, graded_both nonempty silentRs scored,
      (List.Sublist.refl Rs).append List.filter_sublist, fun inside =>
        usual (fun lone => Nat.ne_of_gt some lone.2.1) ?_⟩
    rw [meeting_append, meeting_eq_self_iff.mpr inside.1]
  · rw [if_neg some] at scored
    obtain rfl : minOptional = 0 := Nat.eq_zero_of_not_pos some
    have extras : Os ≠ [] := fun none => same (by rw [none, List.length_nil])
    obtain ⟨Qs, graded, sub, tallied⟩ := graded_bonus nonempty extras silent scored
    exact ⟨Qs, graded, sub, fun inside => tallied inside.1⟩

/-- The clauses that make up a score, and how many of them there can be. -/
theorem graded_composed {minOptional : Nat} {T : Set DocId} (silent : ∀ P ∈ Rs ++ Os, P.Silent)
    (scored : (composed minOptional Rs Os Xs T).scores d v n) :
    ∃ Qs, Graded d Qs v n ∧ Qs.Sublist (Rs ++ Os) ∧
      (d ∈ accepted minOptional Rs Os Xs → Tallied minOptional Rs Os T d Qs) := by
  cases Rs with
  | nil =>
      obtain ⟨Qs, graded, sub, all⟩ := graded_composedOptional silent scored
      exact ⟨Qs, graded, sub, fun inside => ⟨fun _ => all inside, fun lone => absurd rfl lone.1⟩⟩
  | cons R Rs => exact graded_composedRequired (List.cons_ne_nil R Rs) silent scored

/-- Which document is scored first makes no difference if the optional clauses can be started
anywhere. -/
theorem Tallied.eq_meeting {minOptional : Nat} {T : Set DocId}
    (h : Tallied minOptional Rs Os T d Qs) (all : ∀ R ∈ Rs, d ∈ R.docs)
    (anywhere : ∀ O ∈ Os, ∀ t ≤ d, d ∈ O.docsFrom t ↔ d ∈ O.docs) :
    Qs = meeting {d} (Rs ++ Os) := by
  by_cases lone : Lone minOptional Rs Os
  · obtain ⟨t, -, passed, rfl⟩ := h.lone lone
    rw [meeting_append, meeting_eq_self_iff.mpr all, reaching, meeting]
    refine congrArg _ (List.filter_congr fun O inside => ?_)
    rw [decide_eq_decide, anywhere O inside t passed, mem_singleton_window]
  · exact h.usual lone

/-- No more clauses are counted than there are. -/
theorem scores_composed_le {minOptional : Nat} {T : Set DocId} (silent : ∀ P ∈ Rs ++ Os, P.Silent)
    (scored : (composed minOptional Rs Os Xs T).scores d v n) : n ≤ Rs.length + Os.length := by
  obtain ⟨Qs, ⟨rfl, -⟩, sub, -⟩ := graded_composed silent scored
  exact List.length_append ▸ sub.length_le

end Prospect

end Retrieval
