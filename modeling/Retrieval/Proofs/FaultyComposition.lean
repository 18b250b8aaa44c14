import Retrieval.Proofs.FaultyConjunction
import Retrieval.Proofs.FaultyExclusion
import Retrieval.Proofs.FaultyThreshold
import Retrieval.Proofs.Matching
import Retrieval.Proofs.Termination

/-!
# Composing clauses that may fail

What a composition of clauses finds is right if its first move does not fail, unless the composition
has a part that cannot stand failures. There are two of these: a conjunction of several parts, whose
seeks must not fail, and a threshold that needs more than one clause, whose clauses must not fail
unless the threshold decides alone and is never sent to a target. All other parts may fail in any
way: a single clause, alternatives one of which is enough, prohibited clauses, and clauses that only
add to the scores.

The first move may fail as well where nothing has been begun that it could leave half done: if no
two parts have to stand on a document together, and there is nothing to leave out but a single
clause, which a move to the next document does not lead past anything.
-/

namespace Retrieval

open Cursor Outcome Prospect

namespace Cursor

variable {σ τ : Type} [Cursor σ] [Cursor τ] {whole : σ → τ} {seeks : Prop} {D : Set DocId} {c : σ}

theorem Embeds.launches_upholds (embeds : Embeds whole) (h : Launches (Upholds seeks D) c) :
    Launches (Upholds seeks D) (whole c) :=
  embeds.follows.launches h fun _ => embeds.follows.upholds fun _ going => embeds.progresses going

end Cursor

namespace Counted

variable {σ : Type} [Cursor σ] {seeks : Prop} {D : Set DocId} {g : ClauseGroup σ}

/-- Moves do not touch what has been counted. -/
theorem follows (tally : Tally) (counted : DocId) :
    Follows fun group : ClauseGroup σ => ({ group, tally, counted } : Counted σ) :=
  ⟨fun _ => rfl, fun move _ => make_group _ move⟩

theorem launches_ofGroup (tally : Tally) (h : Launches (Upholds seeks D) g) :
    Launches (Upholds seeks D) (ofGroup g tally) :=
  (follows tally .beforeFirst).launches h fun _ =>
    (follows tally .beforeFirst).upholds fun _ going => progresses going

end Counted

namespace Bonus

variable {ρ ο : Type} [Cursor ρ] [Cursor ο]

/-- Moves do not touch the optional side. -/
theorem follows (optional : Option ο) (fresh : Bool) :
    Follows fun required : ρ => ({ required, optional, fresh } : Bonus ρ ο) :=
  ⟨fun _ => rfl, fun move _ => make_required _ move⟩

end Bonus

namespace Boolean.Clauses

variable {σ : Type} [Cursor σ] {seeks targets hardy : Prop} {first : Move} {P : Prospect}
variable {Ps Rs Os Xs : List Prospect} {ps required optional prohibited : List σ}

/-- Clauses that have not been started. Their seeks fail only if `seeks` holds. -/
def AllReady (seeks : Prop) (Ps : List Prospect) (ps : List σ) : Prop :=
  List.Forall₂ (fun P p => Ready seeks P.docs p) Ps ps

/-- Clauses that may have to match all together: if there are several of them, their seeks do not
fail. -/
def AllReadyTogether (Ps : List Prospect) (ps : List σ) : Prop :=
  ∃ seeks : Prop, AllReady seeks Ps ps ∧ (seeks → ps.length ≤ 1)

theorem AllReady.tracks (ready : AllReady seeks Ps ps) :
    List.Forall₂ (Ready seeks) (Ps.map Prospect.docs) ps :=
  List.forall₂_map_left_iff.mpr ready

theorem AllReady.progresses (ready : AllReady seeks Ps ps) : ∀ p ∈ ps, Progresses p := by
  induction ready with
  | nil => exact List.forall_mem_nil _
  | cons first _ ih => exact List.forall_mem_cons.mpr ⟨first.tracks.progresses, ih⟩

theorem AllReady.row (ready : AllReady seeks Ps ps) (nonempty : Ps ≠ []) :
    Conjunction.Row (fun D => Launches (Upholds seeks D)) (Ps.map Prospect.docs) ps :=
  Conjunction.row_of_forall₂ (by simpa using nonempty)
    (ready.tracks.imp fun _ _ h => h.tracks.launches)
    fun _ _ h => h.imp fun _ h => h.mono id (Set.subset_univ _)

theorem common_docs (Ps : List Prospect) :
    Conjunction.common (Ps.map Prospect.docs) = (conjoined Ps).docs :=
  Set.ext fun _ => List.forall_mem_map

theorem anyOf_docs (Ps : List Prospect) :
    Threshold.anyOf (Ps.map Prospect.docs) = (quorum 1 Ps).docs := by
  ext d
  rw [mem_quorum_one]
  simp [Threshold.anyOf]

theorem launches_conjoined (nonempty : Ps ≠ []) (ready : AllReady seeks Ps ps)
    (alone : seeks → ps.length ≤ 1) :
    Launches (Upholds seeks (conjoined Ps).docs) (Counted.all .fraction ps .enclosing) := by
  have launches := Conjunction.launches_ofParts .fraction (ready.row nonempty) alone
  rw [common_docs] at launches
  apply Counted.launches_ofGroup
  exact (Counted.embeds_all ps.length).launches_upholds launches

/-- Clauses that have to match all together. -/
theorem launches_conjoin (nonempty : Ps ≠ []) (ready : AllReady seeks Ps ps)
    (alone : seeks → ps.length ≤ 1) :
    Launches (Upholds seeks (core Ps).docs) (conjoin ps) := by
  cases ready with
  | nil => exact absurd rfl nonempty
  | cons first rest =>
      cases rest with
      | nil =>
          apply Counted.launches_ofGroup
          exact Counted.embeds_one.launches_upholds first.tracks.launches
      | cons second rest =>
          exact launches_conjoined (List.cons_ne_nil _ _) (.cons first (.cons second rest)) alone

theorem decides_conjoined (nonempty : Ps ≠ []) (ready : AllReady seeks Ps ps)
    (alone : seeks → ps.length ≤ 1) (admissible : first.Admissible) :
    Decides targets (ps.length ≤ 1) (conjoined Ps).docs first
      (Counted.all .fraction ps .enclosing) where
  embarks := (launches_conjoined nonempty ready alone).embarks admissible
  vouches few := by
    rw [← common_docs]
    cases ready with
    | nil => exact absurd rfl nonempty
    | @cons P p Ps ps single rest =>
        obtain rfl := List.length_eq_zero_iff.mp (Nat.le_zero.mp (Nat.succ_le_succ_iff.mp few))
        obtain rfl := List.forall₂_nil_right_iff.mp rest
        have same : Conjunction.common ([P].map Prospect.docs) = P.docs := by
          ext d
          simp [Conjunction.common]
        rw [same]
        exact (Counted.follows .enclosing .beforeFirst).vouches
          ((Counted.embeds_all 1).follows.vouches
            (Conjunction.vouches_ofParts .fraction single.tracks.vouches))

theorem decides_conjoin (nonempty : Ps ≠ []) (ready : AllReady seeks Ps ps)
    (alone : seeks → ps.length ≤ 1) (admissible : first.Admissible) :
    Decides targets (ps.length ≤ 1) (core Ps).docs first (conjoin ps) where
  embarks := (launches_conjoin nonempty ready alone).embarks admissible
  vouches few := by
    cases ready with
    | nil => exact absurd rfl nonempty
    | cons single rest =>
        obtain rfl := List.length_eq_zero_iff.mp (Nat.le_zero.mp (Nat.succ_le_succ_iff.mp few))
        obtain rfl := List.forall₂_nil_right_iff.mp rest
        exact (Counted.follows .enclosing .beforeFirst).vouches
          (Counted.embeds_one.follows.vouches single.tracks.vouches)

/-- Clauses enough of which have to match, counted. -/
theorem decides_atLeast {needed : Nat} (several : 1 < ps.length) (positive : 0 < needed)
    (decides : Decides targets hardy (quorum needed Ps).docs first
      (Threshold.ofWaiting needed ps)) :
    ∃ c, Counted.atLeast needed ps .enclosing = .ok c ∧
      Decides targets hardy (enough needed Ps).docs first c :=
  ⟨_, Counted.atLeast_eq several positive, (Counted.follows .enclosing .beforeFirst).decides
    (Counted.embeds_atLeast.follows.decides decides)⟩

/-- Clauses one of which has to match. -/
theorem decides_any (several : 1 < Ps.length) (ready : AllReady seeks Ps ps)
    (admissible : first.Admissible) : ∃ c, Counted.atLeast 1 ps .enclosing = .ok c ∧
      Decides targets hardy (enough 1 Ps).docs first c :=
  decides_atLeast (ready.length_eq ▸ several) Nat.one_pos
    (anyOf_docs Ps ▸ Threshold.decides_any ready.tracks admissible)

/-- Clauses enough of which have to match, and that do not fail. -/
theorem decides_idle {needed : Nat} (several : 1 < ps.length) (positive : 0 < needed)
    (silent : ∀ P ∈ Ps, P.Silent) (idle : List.Forall₂ Idle Ps ps)
    (going : ∀ p ∈ ps, Progresses p) (admissible : first.Admissible) :
    Decides targets hardy (quorum needed Ps).docs first (Threshold.ofWaiting needed ps) := by
  have begins := Threshold.begins_ofWaiting (waits_of_idle idle) silent positive
  have going' : Progresses (.ofWaiting needed ps : Threshold σ) :=
    Threshold.progresses_ofAlternatives (Threshold.ofAlternatives_eq several positive) going
  have sub : ∀ t, (quorum needed Ps).docsFrom t ⊆ (quorum needed Ps).docs :=
    fun _ => Set.inter_subset_left
  have launches :
      Launches (Upholds False (quorum needed Ps).docs) (Threshold.ofWaiting needed ps) :=
    fun _ admissible => (Starts.sure begins going' sub admissible).tries
  exact ⟨launches.embarks admissible, fun _ => Starts.vouches begins going' sub⟩

theorem launches_enough {needed : Nat} (several : 1 < Ps.length) (positive : 0 < needed)
    (silent : ∀ P ∈ Ps, P.Silent) (idle : List.Forall₂ Idle Ps ps)
    (going : ∀ p ∈ ps, Progresses p) :
    ∃ c, Counted.atLeast needed ps .enclosing = .ok c ∧
      Launches (Upholds False (enough needed Ps).docs) c := by
  obtain ⟨c, made, rests, -⟩ := rests_enough several positive silent idle
  exact ⟨c, made, fun _ admissible => (rests.begins.sure (Counted.progresses_atLeast made going)
    (fun _ => Set.inter_subset_left) admissible).tries⟩

/-- Required clauses that have to match together with enough of the others, which do not fail. -/
theorem launches_both {needed : Nat} (nonempty : Rs ≠ []) (ready : AllReady False Rs required)
    (several : 1 < Os.length) (positive : 0 < needed) (silent : ∀ P ∈ Os, P.Silent)
    (idle : List.Forall₂ Idle Os optional) (going : ∀ p ∈ optional, Progresses p) :
    ∃ c, Counted.atLeast needed optional .enclosing = .ok c ∧
      Launches (Upholds False (conjoined [core Rs, enough needed Os]).docs)
        (Conjunction.ofParts .fraction [conjoin required, c]) := by
  obtain ⟨c, made, launches⟩ := launches_enough several positive silent idle going
  have row : Conjunction.Row (fun D => Launches (Upholds False D))
      [(core Rs).docs, (enough needed Os).docs] [conjoin required, c] :=
    Conjunction.row_of_forall₂ (List.cons_ne_nil _ _)
      (.cons (launches_conjoin nonempty ready False.elim) (.cons launches .nil))
      fun _ _ h => h.imp fun _ h => h.mono id (Set.subset_univ _)
  refine ⟨c, made, ?_⟩
  rw [← common_docs]
  exact Conjunction.launches_ofParts .fraction row False.elim

/-- There is nothing to leave out but a single clause, and that is not moved past a document. -/
def Clear {α : Type} (first : Move) (prohibited : List α) : Prop :=
  prohibited = [] ∨ prohibited.length = 1 ∧ first = .next

/-- Prohibited clauses around the others. -/
theorem embarks_guard {core : Core σ} (decides : Decides targets hardy P.docs first core)
    (ready : AllReady seeks Xs prohibited) (permitted : first.Permitted targets) :
    ∃ g, guard core prohibited = .ok g ∧
      Embarks targets (hardy ∧ Clear first prohibited) (guarded P Xs).docs first g := by
  have fewer : Decides targets (hardy ∧ Clear first prohibited) P.docs first core :=
    decides.mono And.left
  cases ready with
  | nil => exact ⟨_, rfl, embeds_inl.follows.embarks (fewer.embarks_hardy permitted)⟩
  | @cons X p Xs ps single rest =>
      cases rest with
      | nil =>
          refine ⟨_, rfl, embeds_inr.follows.embarks (Exclusion.embarks_ofParts fewer
            (embeds_inl.follows.guards single.guards) ?_ permitted)⟩
          rintro ⟨-, none | ⟨-, moves⟩⟩
          · exact absurd none (List.cons_ne_nil _ _)
          · exact ⟨moves, embeds_inl.follows.lingers single.lingers⟩
      | @cons X' p' Xs ps second rest =>
          have ready : AllReady seeks (X :: X' :: Xs) (p :: p' :: ps) :=
            .cons single (.cons second rest)
          have guards := Threshold.guards_any ready.tracks
          rw [anyOf_docs] at guards
          have several : 1 < (p :: p' :: ps).length := by simp
          have made := Threshold.ofAlternatives_eq several Nat.one_pos
          refine ⟨.inr (.ofParts core (.inr (.ofWaiting 1 (p :: p' :: ps)))), ?_, ?_⟩
          · simp only [guard, Threshold.any, made]
            rfl
          · refine embeds_inr.follows.embarks (Exclusion.embarks_ofParts fewer
              (embeds_inr.follows.guards guards) ?_ permitted)
            rintro ⟨-, none | ⟨one, -⟩⟩
            · exact absurd none (List.cons_ne_nil _ _)
            · simp at one

/-- Clauses that decide alone which documents match, with prohibited clauses around them. -/
theorem embarks_deciding {core : Core σ} (decides : Decides targets hardy P.docs first core)
    (ready : AllReady seeks Xs prohibited) (permitted : first.Permitted targets) :
    ∃ c : Composition σ,
      (do return .inr (.inl (← guard core prohibited)) : Except Failure (Composition σ)) = .ok c ∧
      Embarks targets (hardy ∧ Clear first prohibited) (guarded P Xs).docs first c := by
  obtain ⟨g, made, embarks⟩ := embarks_guard decides ready permitted
  refine ⟨.inr (.inl g), ?_, ?_⟩
  · rw [made]
    rfl
  · exact embeds_inr.follows.embarks (embeds_inl.follows.embarks embarks)

/-- What only adds to the scores has no say in which documents match. -/
theorem embarks_bonus {D : Set DocId} {g : Guarded σ} (embarks : Embarks targets hardy D first g)
    (bonus : Counted σ) :
    Embarks targets hardy D first (.inr (.inr (.ofParts g bonus)) : Composition σ) :=
  embeds_inr.follows.embarks (embeds_inr.follows.embarks
    ((Bonus.follows (some bonus) true).embarks embarks))

/-- Nothing is found where there is nothing. -/
theorem embarks_nothing {D : Set DocId} :
    Embarks targets hardy D first (.inl {} : Composition σ) := by
  have nothing : Embarks targets hardy D first ({} : Nothing) := by
    cases first <;> exact .answered .missed
  exact embeds_inl.follows.embarks nothing

/-- The clauses are reliable where their composition relies on them. If several have to match all
together, their seeks do not fail. If the optional ones are counted beside required ones, they do
not fail at all, and the seeks of the required ones do not fail either. If they are counted alone,
and one of them is not enough, they can be relied on as a whole. -/
structure Reliable (targets : Prop) (first : Move) (minOptional : Nat) (Rs Os : List Prospect)
    (required optional : List σ) : Prop where
  together : Os.length = needed minOptional Rs →
    AllReadyTogether (Rs ++ Os) (required ++ optional)
  core : needed minOptional Rs = 0 → AllReadyTogether Rs required
  counted : 0 < needed minOptional Rs → needed minOptional Rs < Os.length →
    Rs ≠ [] → AllReady False Rs required ∧ List.Forall₂ Idle Os optional
  several : Rs = [] → 1 < needed minOptional Rs →
    needed minOptional Rs < Os.length →
    Decides targets True (quorum (needed minOptional Rs) Os).docs first
      (Threshold.ofWaiting (needed minOptional Rs) optional)

/-- How many parts have to stand on a document together. Optional clauses of which not all are
needed make up one part. -/
def standing {α : Type} (needed : Nat) (required optional : List α) : Nat :=
  required.length + if optional.length = needed then needed else min needed 1

theorem embarks_composeOptional {minOptional : Nat}
    (reliable : Reliable targets first minOptional [] Os [] optional)
    (ready : AllReady seeks Os optional) (ready' : AllReady seeks Xs prohibited)
    (permitted : first.Permitted targets) :
    ∃ c, composeOptional minOptional optional prohibited = .ok c ∧
      Embarks targets (standing (max minOptional 1) [] optional ≤ 1 ∧ Clear first prohibited)
        (composedOptional minOptional Os Xs).docs first c := by
  have needs : needed minOptional ([] : List Prospect) = max minOptional 1 := rfl
  have deciding : ∀ {P : Prospect} {counted : Counted σ},
      Decides targets (standing (max minOptional 1) [] optional ≤ 1) P.docs first counted →
      ∃ c : Composition σ, (do return .inr (.inl (← guard (.inl counted) prohibited)) :
        Except Failure (Composition σ)) = .ok c ∧
        Embarks targets (standing (max minOptional 1) [] optional ≤ 1 ∧ Clear first prohibited)
          (guarded P Xs).docs first c :=
    fun decides => embarks_deciding (embeds_inl.follows.decides decides) ready' permitted
  have size : Os.length = optional.length := ready.length_eq
  rw [composeOptional, composedOptional, ← size]
  by_cases few : Os.length < max minOptional 1
  · rw [if_pos few, if_pos few]
    exact ⟨_, rfl, embarks_nothing⟩
  rw [if_neg few, if_neg few]
  by_cases many : max minOptional 1 < Os.length
  · rw [if_pos many, if_pos many]
    have enough : ∃ c, Counted.atLeast (max minOptional 1) optional .enclosing = .ok c ∧
        Decides targets True (enough (max minOptional 1) Os).docs first c := by
      by_cases single : max minOptional 1 = 1
      · rw [single] at many ⊢
        exact decides_any many ready permitted.admissible
      · exact decides_atLeast (by omega) (by omega) (reliable.several rfl (by omega) many)
    obtain ⟨c, made, decides⟩ := enough
    rw [made]
    exact deciding (decides.mono fun _ => trivial)
  · rw [if_neg many, if_neg many]
    have all : optional.length = max minOptional 1 := by omega
    have nonempty : Os ≠ [] := by
      rintro rfl
      simp at few
    obtain ⟨seeks', ready'', alone⟩ := reliable.together (by omega)
    refine deciding ((decides_conjoin nonempty ready'' alone permitted.admissible).mono ?_)
    rw [standing, if_pos all, List.length_nil, Nat.zero_add, ← all]
    exact id

theorem embarks_composeRequired {minOptional : Nat} {T : Set DocId} (nonempty : Rs ≠ [])
    (silent : ∀ P ∈ Os, P.Silent)
    (reliable : Reliable targets first minOptional Rs Os required optional)
    (ready : AllReady seeks Os optional) (ready' : AllReady seeks Xs prohibited)
    (permitted : first.Permitted targets) :
    ∃ c, composeRequired minOptional required optional prohibited = .ok c ∧
      Embarks targets (standing minOptional required optional ≤ 1 ∧ Clear first prohibited)
        (composedRequired minOptional Rs Os Xs T).docs first c := by
  have needs := needed_required minOptional nonempty
  have size : Os.length = optional.length := ready.length_eq
  rw [composeRequired, composedRequired, ← size]
  by_cases few : Os.length < minOptional
  · rw [if_pos few, if_pos few]
    exact ⟨_, rfl, embarks_nothing⟩
  rw [if_neg few, if_neg few]
  by_cases same : Os.length = minOptional
  · rw [if_pos same, if_pos same]
    obtain ⟨seeks', ready'', alone⟩ := reliable.together (same.trans needs.symm)
    have nonempty' : Rs ++ Os ≠ [] := List.append_ne_nil_of_left_ne_nil nonempty Os
    have decides : Decides targets (standing minOptional required optional ≤ 1) _ first _ :=
      (decides_conjoined nonempty' ready'' alone permitted.admissible).mono fun few => by
        rw [standing, if_pos (size ▸ same)] at few
        rw [List.length_append]
        omega
    exact embarks_deciding (embeds_inl.follows.decides decides) ready' permitted
  rw [if_neg same, if_neg same]
  have fewer : optional.length ≠ minOptional := size ▸ same
  by_cases positive : 0 < minOptional
  · rw [if_pos positive, if_pos positive]
    obtain ⟨ready'', idle⟩ := reliable.counted (needs.symm ▸ positive) (by omega) nonempty
    obtain ⟨c, made, both⟩ :=
      launches_both nonempty ready'' (by omega) positive silent idle ready.progresses
    have clauses : 0 < required.length :=
      ready''.length_eq ▸ List.length_pos_iff.mpr nonempty
    have decides : Decides targets (standing minOptional required optional ≤ 1) _ first _ :=
      ⟨both.embarks permitted.admissible, fun few => by
        rw [standing, if_neg fewer] at few
        omega⟩
    rw [made]
    exact embarks_deciding (embeds_inr.follows.decides decides) ready' permitted
  · rw [if_neg positive, if_neg positive]
    obtain ⟨seeks', ready'', alone⟩ := reliable.core (by omega)
    have decides : Decides targets (standing minOptional required optional ≤ 1) _ first _ :=
      (decides_conjoin nonempty ready'' alone permitted.admissible).mono fun few => by
        rw [standing] at few
        omega
    obtain ⟨g, made, embarks⟩ :=
      embarks_guard (embeds_inl.follows.decides decides) ready' permitted
    rw [made]
    cases ready with
    | nil => exact absurd (show minOptional = 0 by omega) fun none => same none.symm
    | @cons O p Os ps first rest =>
        cases rest with
        | nil => exact ⟨_, rfl, embarks_bonus embarks _⟩
        | @cons O' p' Os ps second rest =>
            have several : 1 < (p :: p' :: ps).length := by simp
            have made' := Counted.atLeast_eq several Nat.one_pos
            exact ⟨_, congrArg (Except.bind · _) made', embarks_bonus embarks _⟩

/-- Clauses that are reliable where it matters are composed into a cursor that finds only what they
accept, once its first move has not failed, or if that does not matter. -/
theorem embarks_compose {minOptional : Nat} (silent : ∀ P ∈ Os, P.Silent)
    (reliable : Reliable targets first minOptional Rs Os required optional)
    (ready : AllReady seeks Rs required) (ready' : AllReady seeks Os optional)
    (ready'' : AllReady seeks Xs prohibited) (permitted : first.Permitted targets) :
    ∃ c, compose minOptional ⟨required, optional, prohibited⟩ = .ok c ∧
      Embarks targets
        (standing (needed minOptional required) required optional ≤ 1 ∧
          Clear first prohibited)
        (accepted minOptional Rs Os Xs) first c := by
  rw [compose, ← docs_composed minOptional Rs Os Xs Set.univ, composed]
  cases ready with
  | nil => exact embarks_composeOptional reliable ready' ready'' permitted
  | cons first rest =>
      exact embarks_composeRequired (List.cons_ne_nil _ _) silent reliable ready' ready'' permitted

end Boolean.Clauses

end Retrieval
