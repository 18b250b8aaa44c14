import Retrieval.Proofs.Acceptance
import Retrieval.Proofs.FaultyComposition
import Retrieval.Proofs.FaultyQuorum

/-!
# What is found after failures

Clauses may fail, and a caller may go on after that. Documents may be missed then, but those that
are still found are accepted by the clauses, as long as the clauses are reliable where their
composition relies on them, and the first move does not fail or does not matter.

Otherwise a document can be found that the clauses do not accept, for a failure can make a
composition forget a clause.
-/

namespace Retrieval

open Outcome

namespace Cursor

variable {σ : Type} [Cursor σ] {D : Set DocId} {c : σ} {d : DocId}
variable {targets hardy : Prop} {first : Move} {moves : List Move}

/-- What some moves answer, made one after the other whatever the answers are, and where the cursor
stands after each of them. -/
def answers (c : σ) : List Move → List (Except Failure Bool × DocId)
  | [] => []
  | move :: moves =>
    ((move.make c).answer, Cursor.doc (move.make c).state) :: answers (move.make c).state moves

/-- What a move leaves of a cursor that finds only documents of `D` as long as it is good: it is
good still, and right if it has found a document, or it has come to an end. -/
inductive Behaves (D : Set DocId) (good : σ → Prop) : Option Bool → σ → Prop
  | failed {c : σ} (kept : good c) : Behaves D good none c
  | found {c : σ} (kept : good c) (inside : Cursor.doc c ∈ D) : Behaves D good (some true) c
  | missed {c : σ} : Behaves D good (some false) c

/-- A cursor that has come to an end finds nothing any more. -/
theorem Behaves.step [Conclusive σ] {good : σ → Prop} {move : Move}
    (left : (move.make c).Tries (Behaves D good)) :
    ((move.make c).answer = .ok true → Cursor.doc (move.make c).state ∈ D) ∧
      (good (move.make c).state ∨ Spent (move.make c).state) := by
  have finished := spent_of_ended move (c := c)
  generalize move.make c = o at left finished ⊢
  cases left with
  | failed behaves =>
      cases behaves with
      | failed kept => exact ⟨fun found => absurd found error_ne_ok, .inl kept⟩
  | answered behaves =>
      cases behaves with
      | found kept inside => exact ⟨fun _ => inside, .inl kept⟩
      | missed => exact ⟨fun found => absurd found missed_ne_found, .inr (finished rfl)⟩

theorem mem_of_answers [Conclusive σ] {good : σ → Prop} {allowed : Move → Prop}
    (behaves : ∀ {c : σ} (move : Move), good c → allowed move →
      (move.make c).Tries (Behaves D good))
    (h : good c ∨ Spent c) (all : ∀ m ∈ moves, allowed m)
    (found : (.ok true, d) ∈ answers c moves) : d ∈ D := by
  induction moves generalizing c with
  | nil => exact absurd found List.not_mem_nil
  | cons move moves ih =>
      obtain ⟨first, rest⟩ := List.forall_mem_cons.mp all
      have left : ((move.make c).answer = .ok true → Cursor.doc (move.make c).state ∈ D) ∧
          (good (move.make c).state ∨ Spent (move.make c).state) := by
        obtain h | spent := h
        · exact Behaves.step (behaves move h first)
        · have missed := exhausts_spent.move move spent
          exact ⟨fun found => absurd found missed.1, .inr missed.2⟩
      obtain here | later := List.mem_cons.mp found
      · obtain ⟨answered, rfl⟩ := Prod.mk.inj here
        exact left.1 answered.symm
      · exact ih left.2 rest later

/-- A cursor that finds only documents of `D`, if any, whatever fails. -/
inductive Sound (targets : Prop) (D : Set DocId) (c : σ) : Prop
  | going {r : DocId} (vouches : Vouches targets D r c)
  | ended (spent : Spent c)

theorem Sound.answers [Conclusive σ] (h : Sound targets D c)
    (permitted : ∀ m ∈ moves, m.Permitted targets) (found : (.ok true, d) ∈ answers c moves) :
    d ∈ D := by
  have behaves : ∀ {c : σ} (move : Move), (∃ r, Vouches targets D r c) → move.Permitted targets →
      (move.make c).Tries (Behaves D fun c => ∃ r, Vouches targets D r c) := by
    rintro c move ⟨r, vouches⟩ permitted
    refine (vouching_vouches.move move vouches permitted).imp fun found c tells => ?_
    cases tells with
    | failed kept => exact .failed ⟨r, kept⟩
    | found kept inside => exact .found ⟨_, kept⟩ inside
    | missed => exact .missed
  have going : (∃ r, Vouches targets D r c) ∨ Spent c := by
    cases h with
    | going vouches => exact .inl ⟨_, vouches⟩
    | ended spent => exact .inr spent
  exact mem_of_answers behaves going permitted found

/-- If the first move does not fail, or does not matter, what comes after it may fail. -/
theorem Embarks.answers [Conclusive σ] (h : Embarks targets hardy D first c)
    (permitted : ∀ m ∈ first :: moves, m.Permitted targets)
    (begins : hardy ∨ ∃ ended, (first.make c).answer = .ok ended)
    (found : (.ok true, d) ∈ answers c (first :: moves)) : d ∈ D := by
  have left : ((first.make c).answer = .ok true → Cursor.doc (first.make c).state ∈ D) ∧
      Sound targets D (first.make c).state := by
    have finished := spent_of_ended first (c := c)
    rw [Embarks] at h
    generalize first.make c = o at h begins finished ⊢
    cases h with
    | failed embarked =>
        cases embarked with
        | failed endured =>
            have sure : hardy := begins.resolve_right (by rintro ⟨_, ⟨⟩⟩)
            exact ⟨fun found => absurd found error_ne_ok, .going (endured sure)⟩
    | answered embarked =>
        cases embarked with
        | found attests => exact ⟨fun _ => attests.mem, .going attests.vouches⟩
        | missed =>
            exact ⟨fun found => absurd found missed_ne_found, .ended (finished rfl)⟩
  obtain here | later := List.mem_cons.mp found
  · obtain ⟨answered, rfl⟩ := Prod.mk.inj here
    exact left.1 answered.symm
  · exact left.2.answers (fun m inside => permitted m (List.mem_cons_of_mem first inside)) later

end Cursor

open Cursor

namespace BooleanCursor

open Boolean

variable {σ : Type} [Cursor σ] {rules : ClauseRules} {rule : CoordRule} {D : Set DocId} {r : DocId}
variable {c : BooleanCursor σ} {clauses : Clauses σ} {composition : Composition σ}
variable {targets hardy : Prop} {first : Move}

/-- A search whose composition vouches for what it finds. -/
def Backed (targets : Prop) (D : Set DocId) (r : DocId) (c : BooleanCursor σ) : Prop :=
  ∃ composition, c.stage = .composed composition ∧ Vouches targets D r composition

theorem vouches_of_stage (stage : c.stage = .composed composition)
    (h : Vouches targets D r composition) : Vouches targets D r c := by
  refine ⟨Backed targets D, ⟨?_⟩, composition, stage, h⟩
  rintro r c move ⟨p, stage, h⟩ permitted
  have moved : (c.resume (move.make p)).Tries (Tells D (Backed targets D) r) := by
    apply resume_leaves (vouching_vouches.move move h permitted)
    intro found p' c' tells stage
    cases tells with
    | failed kept => exact .failed ⟨p', stage, kept⟩
    | found kept inside later =>
        rw [← doc_of_stage stage] at kept inside later
        exact .found ⟨p', stage, kept⟩ inside later
    | missed => exact .missed
  cases move with
  | next =>
      rw [Move.make, next_composed stage]
      exact moved
  | seek t =>
      rw [Move.make, seek_composed stage permitted.admissible]
      exact moved

/-- A search starts as its composition does. -/
theorem embarks_ofClauses (rule : CoordRule)
    (made : clauses.compose rules.minOptional = .ok composition)
    (embarks : Embarks targets hardy D first composition) (admissible : first.Admissible) :
    Embarks targets hardy D first (ofClauses rules rule clauses) := by
  obtain ⟨c, composes, -⟩ := compose_ofClauses rule made
  have moved : (c.resume (first.make composition)).Tries (Embarked targets hardy D first) := by
    apply resume_leaves embarks
    intro found p c' embarked stage
    have place := doc_of_stage stage
    cases embarked with
    | failed endured => exact .failed fun sure => vouches_of_stage stage (endured sure)
    | found attests allowed =>
        refine .found ⟨place ▸ attests.mem, place ▸ attests.nonneg, ?_⟩ (place ▸ allowed)
        exact place ▸ vouches_of_stage stage attests.vouches
    | missed => exact .missed
  cases first with
  | next =>
      show (next _).Tries _
      rw [next, composes, andThen_done]
      exact moved
  | seek t =>
      show (seek _ t).Tries _
      rw [seek, if_neg (Int32.not_lt.mpr admissible), composes, andThen_done]
      exact moved

end BooleanCursor

namespace Boolean

open Prospect

variable {α : Type} {minOptional : Nat} {sources required optional prohibited : List Source}
variable {targets : Prop} {first : Move}

/-- The clauses that have to match all together: the required ones, and the optional ones too if all
of them are needed. -/
def together (needed : Nat) (required optional : List α) : List α :=
  if optional.length = needed then required ++ optional else required

theorem together_zero (required optional : List α) : together 0 required optional = required := by
  rw [together]
  split
  · next none => rw [List.length_eq_zero_iff.mp none, List.append_nil]
  · rfl

/-- Failures can be tolerated after the first move. Several clauses that have to match all together
must not fail to be sent to a document. And if some but not all of the optional clauses have to
match, more than one of them or besides required ones, then the optional clauses must not fail, and
neither must the required ones when they are sent to a document; but if there are no required ones,
it is also enough that the search is never sent to a target. -/
structure Tolerable (targets : Prop) (needed : Nat) (required optional : List Source) : Prop where
  together : 1 < (together needed required optional).length →
    ∀ s ∈ together needed required optional, s.Seekable
  counted : 0 < needed → needed < optional.length → ¬(required = [] ∧ needed = 1) →
    (required = [] ∧ ¬ targets) ∨ (∀ s ∈ required, s.Seekable) ∧ ∀ s ∈ optional, s.plan = none

/-- The first move may fail as well. No two parts have to stand together, and what is to be left out
is at most a single clause, which a move to the next document does not lead past a document. -/
structure Hardy (needed : Nat) (required optional prohibited : List Source) (first : Move) : Prop
    where
  alone : Clauses.standing needed required optional ≤ 1
  clear : Clauses.Clear first prohibited

theorem needed_map {β : Type} (f : α → β) (minOptional : Nat) (required : List α) :
    needed minOptional (required.map f) = needed minOptional required := by
  simp only [needed, List.isEmpty_map]

namespace Clauses

theorem allReady_sources {seeks : Prop} (fails : ∀ s ∈ sources, ¬ s.Seekable → seeks) :
    AllReady seeks (sources.map Source.prospect) (sources.map Source.cursor) := by
  rw [AllReady, List.forall₂_map_left_iff, List.forall₂_map_right_iff, List.forall₂_same]
  exact fun s inside => s.ready_cursor.mono (fails s inside)

theorem allReadyTogether_sources (seekable : 1 < sources.length → ∀ s ∈ sources, s.Seekable) :
    AllReadyTogether (sources.map Source.prospect) (sources.map Source.cursor) := by
  by_cases several : 1 < sources.length
  · refine ⟨False, allReady_sources fun s inside fails => ?_, False.elim⟩
    exact fails (seekable several s inside)
  · refine ⟨True, allReady_sources fun _ _ _ => trivial, fun _ => ?_⟩
    rw [List.length_map]
    exact Nat.not_lt.mp several

theorem idle_sources (unplanned : ∀ s ∈ sources, s.plan = none) :
    List.Forall₂ Idle (sources.map Source.prospect) (sources.map Source.cursor) := by
  rw [List.forall₂_map_left_iff, List.forall₂_map_right_iff, List.forall₂_same]
  exact fun s inside => s.idle_cursor (unplanned s inside)

/-- The documents that enough sources have. -/
theorem docs_quorum_sources (needed : Nat) (sources : List Source) :
    (quorum needed (sources.map Source.prospect)).docs =
      {d | needed ≤ sources.countP (·.term.isMatch d)} := by
  ext d
  show needed ≤ (meeting {d} _).length ↔ _
  rw [length_meeting_map fun s _ => s.term.isMatch_iff_window]
  rfl

/-- Optional sources that are counted alone. -/
theorem decides_sources {needed : Nat} (several : 1 < sources.length) (positive : 0 < needed)
    (tolerable : ¬ targets ∨ ∀ s ∈ sources, s.plan = none) (permitted : first.Permitted targets) :
    Decides targets True (quorum needed (sources.map Source.prospect)).docs first
      (Threshold.ofWaiting needed (sources.map Source.cursor)) := by
  obtain none | unplanned := tolerable
  · have vouches := Threshold.vouches_sources none positive sources
    rw [← docs_quorum_sources] at vouches
    cases first with
    | next => exact ⟨vouches.embarks_next, fun _ => vouches⟩
    | seek t => exact absurd permitted.1 none
  · have silent : ∀ P ∈ sources.map Source.prospect, P.Silent :=
      List.forall_mem_map.mpr fun s _ => s.term.silent_prospect
    have ready : AllReady True (sources.map Source.prospect) (sources.map Source.cursor) :=
      allReady_sources fun _ _ _ => trivial
    exact decides_idle (by simpa using several) positive silent (idle_sources unplanned)
      ready.progresses permitted.admissible

theorem reliable_sources
    (tolerable : Tolerable targets (needed minOptional required) required optional)
    (permitted : first.Permitted targets) :
    Reliable targets first minOptional (required.map Source.prospect)
      (optional.map Source.prospect) (required.map Source.cursor) (optional.map Source.cursor) := by
  have needs := needed_map Source.prospect minOptional required
  obtain ⟨together, counted⟩ := tolerable
  constructor
  · intro all
    rw [needs, List.length_map] at all
    rw [Boolean.together, if_pos all] at together
    rw [← List.map_append, ← List.map_append]
    exact allReadyTogether_sources together
  · intro none
    rw [needs] at none
    rw [none, together_zero] at together
    exact allReadyTogether_sources together
  · intro positive fewer some
    rw [needs] at positive
    rw [needs, List.length_map] at fewer
    have some' : required ≠ [] := by simpa using some
    obtain ⟨seekable, unplanned⟩ :=
      (counted positive fewer fun none => some' none.1).resolve_left fun none => some' none.1
    exact ⟨allReady_sources fun s inside fails => fails (seekable s inside),
      idle_sources unplanned⟩
  · intro none several fewer
    rw [needs] at several
    rw [needs, List.length_map] at fewer
    rw [needs]
    have positive : 0 < needed minOptional required := by omega
    have tolerable := counted positive fewer fun one => Nat.ne_of_gt several one.2
    exact decides_sources (by omega) positive (tolerable.imp And.right And.right) permitted

end Clauses

end Boolean

namespace BooleanCursor

open Boolean Prospect

variable {rules : ClauseRules} {rule : CoordRule} {sources : List (Role × Source)}
variable {search : BooleanCursor (PostingCursor ⊕ Faulty PostingCursor)} {d : DocId}
variable {first : Move} {moves : List Move}

/-- A boolean search in sources that may fail. -/
def ofSources (rule : CoordRule) (rules : ClauseRules) (sources : List (Role × Source)) :
    Except Failure (BooleanCursor (PostingCursor ⊕ Faulty PostingCursor)) :=
  build rule rules (sources.map fun x => (x.1, x.2.cursor))

/-- The documents that the sources accept. -/
theorem mem_accepted_sources : d ∈ accepted rules.minOptional
      ((byRole .required sources).map Source.prospect)
      ((byRole .optional sources).map Source.prospect)
      ((byRole .prohibited sources).map Source.prospect) ↔
    accepts rules sources (·.term.isMatch d) = true := by
  have agree : d ∈ (ofRoles rules (sources.map fun x => (x.1, x.2.prospect)) Set.univ).docs ↔
      accepts rules sources (·.term.isMatch d) = true :=
    mem_ofRoles fun _ _ => TermQuery.mem_prospect
  simpa only [ofRoles, docs_composed, byRole_map] using agree

theorem embarks_ofSources {targets : Prop} (made : ofSources rule rules sources = .ok search)
    (tolerable : Tolerable targets (needed rules.minOptional (byRole .required sources))
      (byRole .required sources) (byRole .optional sources)) (permitted : first.Permitted targets) :
    Embarks targets (Hardy (needed rules.minOptional (byRole .required sources))
        (byRole .required sources) (byRole .optional sources) (byRole .prohibited sources) first)
      {d | accepts rules sources (·.term.isMatch d) = true} first search := by
  obtain ⟨-, -, rfl⟩ := build_eq_ok.mp made
  have ready : ∀ role, Clauses.AllReady True
      ((byRole role sources).map Source.prospect) ((byRole role sources).map Source.cursor) :=
    fun role => Clauses.allReady_sources fun _ _ _ => trivial
  have silent : ∀ P ∈ (byRole .optional sources).map Source.prospect, P.Silent :=
    List.forall_mem_map.mpr fun s _ => s.term.silent_prospect
  obtain ⟨composition, composes, embarks⟩ := Clauses.embarks_compose silent
    (Clauses.reliable_sources tolerable permitted) (ready .required) (ready .optional)
    (ready .prohibited) permitted
  have documents : accepted rules.minOptional _ _ _ = {d | accepts rules sources _ = true} :=
    Set.ext fun d => mem_accepted_sources
  rw [documents] at embarks
  refine embarks_ofClauses rule ?_ (embarks.mono fun hardy => ?_) permitted.admissible
  · simpa only [Clauses.addAll, byRole_map, List.nil_append] using composes
  · rw [needed_map]
    simpa only [Clauses.standing, Clauses.Clear, List.length_map, List.map_eq_nil_iff] using
      And.intro hardy.alone hardy.clear

/-- Whatever moves are made, and whichever of them fail after the first, or even the first if that
does not matter: every document found is one that the clauses accept. -/
theorem answers_ofSources (made : ofSources rule rules sources = .ok search)
    (tolerable : Tolerable (∃ t, .seek t ∈ first :: moves)
      (needed rules.minOptional (byRole .required sources)) (byRole .required sources)
      (byRole .optional sources))
    (admissible : ∀ m ∈ first :: moves, m.Admissible)
    (begins : Hardy (needed rules.minOptional (byRole .required sources))
        (byRole .required sources) (byRole .optional sources) (byRole .prohibited sources) first ∨
      ∃ ended, (first.make search).answer = .ok ended)
    (found : (.ok true, d) ∈ answers search (first :: moves)) :
    accepts rules sources (·.term.isMatch d) = true := by
  have permitted : ∀ m ∈ first :: moves, m.Permitted (∃ t, .seek t ∈ first :: moves) := by
    rintro (_ | t) inside
    · trivial
    · exact ⟨⟨t, inside⟩, admissible _ inside⟩
  exact (embarks_ofSources made tolerable (permitted first List.mem_cons_self)).answers permitted
    begins found

/-- A required source that fails once, and a prohibited one. -/
def interrupted : List (Role × Source) :=
  [(.required, ⟨⟨"odd", ⟨#[⟨1, 1⟩, ⟨3, 1⟩, ⟨5, 1⟩], by decide, by decide⟩, 1⟩,
      some (FaultPlan.failingNext 2)⟩),
    (.prohibited, ⟨⟨"third", ⟨#[⟨3, 1⟩], by decide, by decide⟩, 1⟩, none⟩)]

/-- Going on after the failure, the prohibited document is left out and the next one is found. -/
theorem answers_interrupted : ∃ search, ofSources .fraction {} interrupted = .ok search ∧
    answers search [.next, .next, .next] =
      [(.ok true, 1), (.error (.reported ⟨.other, "unavailable"⟩), 1), (.ok true, 5)] ∧
    accepts {} interrupted (·.term.isMatch 5) = true := by
  let search : BooleanCursor (PostingCursor ⊕ Faulty PostingCursor) :=
    ofClauses {} .fraction (({} : Clauses _).addAll (interrupted.map fun x => (x.1, x.2.cursor)))
  have made : ofSources .fraction {} interrupted = .ok search := rfl
  have tolerable : Tolerable (∃ t, .seek t ∈ [Move.next, .next, .next])
      (needed ({} : ClauseRules).minOptional (byRole .required interrupted))
      (byRole .required interrupted) (byRole .optional interrupted) :=
    ⟨fun several => absurd several (by decide), fun positive => absurd positive (by decide)⟩
  have admissible : ∀ m ∈ [Move.next, .next, .next], m.Admissible := by
    simp [Move.Admissible]
  have answered : (Move.next.make search).answer = .ok true := by decide +kernel
  have run : answers search [.next, .next, .next] =
      [(.ok true, 1), (.error (.reported ⟨.other, "unavailable"⟩), 1), (.ok true, 5)] := by
    decide +kernel
  have found : (.ok true, 5) ∈ answers search [.next, .next, .next] := by
    rw [run]
    simp
  exact ⟨search, made, run,
    answers_ofSources made tolerable admissible (.inr ⟨true, answered⟩) found⟩

/-- Two required sources, of which the second fails at its first move. -/
def halfStarted : List (Role × Source) :=
  [(.required, ⟨⟨"last", ⟨#[⟨6, 1⟩], by decide, by decide⟩, 1⟩, none⟩),
    (.required, ⟨⟨"first", ⟨#[⟨2, 1⟩, ⟨4, 1⟩], by decide, by decide⟩, 1⟩,
      some (FaultPlan.failingNext 1)⟩)]

/-- After a first move that has failed, a document is found that only one of two required clauses
matches: the other clause has not been moved when the search goes on. -/
theorem answers_halfStarted : ∃ search, ofSources .fraction {} halfStarted = .ok search ∧
    answers search [.next, .next] =
      [(.error (.reported ⟨.other, "unavailable"⟩), 6), (.ok true, 6)] ∧
    accepts {} halfStarted (·.term.isMatch 6) = false := by
  let search : BooleanCursor (PostingCursor ⊕ Faulty PostingCursor) :=
    ofClauses {} .fraction (({} : Clauses _).addAll (halfStarted.map fun x => (x.1, x.2.cursor)))
  have run : answers search [.next, .next] =
      [(.error (.reported ⟨.other, "unavailable"⟩), 6), (.ok true, 6)] := by
    decide +kernel
  exact ⟨search, rfl, run, by decide +kernel⟩

end BooleanCursor

end Retrieval
