import Retrieval.Proofs.Rounds

/-!
# Every call ends

Trees of cursors get on, however they have been put together and whatever has been done to them: the
leaves do, each kind of cursor does if its parts do, and what a boolean search composes of its
clauses does if the clauses do. So no call runs past the bound of a loop, whether it keeps to the
promises or not, and also after failures and after the last document.
-/

namespace Retrieval

open Cursor Outcome

namespace Counted

variable {σ : Type} [Cursor σ] {clauses : List σ}

theorem progresses_all (rule : CoordRule) (going : ∀ c ∈ clauses, Progresses c) (tally : Tally) :
    Progresses (all rule clauses tally) :=
  progresses ((embeds_all _).progresses (Conjunction.progresses_ofParts rule going))

theorem progresses_ofThreshold {T : Threshold σ} (going : Progresses T) (tally : Tally) :
    Progresses (ofGroup (.atLeast T) tally) :=
  progresses (embeds_atLeast.progresses going)

theorem progresses_atLeast {needed : Nat} {tally : Tally} {c : Counted σ}
    (made : atLeast needed clauses tally = .ok c) (going : ∀ c ∈ clauses, Progresses c) :
    Progresses c := by
  rw [atLeast] at made
  cases eq : Threshold.ofAlternatives clauses needed with
  | error failure =>
      rw [eq] at made
      exact absurd made Outcome.error_ne_ok
  | ok T =>
      rw [eq] at made
      obtain rfl := Except.ok.inj made
      exact progresses_ofThreshold (Threshold.progresses_ofAlternatives eq going) tally

end Counted

namespace Boolean

variable {σ τ : Type} [Cursor σ] [Cursor τ]

/-- Making a cursor has led to one that gets on and has at most so many moves left, or has been
refused. -/
inductive Made (bound : Nat) : Except Failure σ → Prop
  | ok {c : σ} (going : Progresses c) (moves : Cursor.movesLeft c ≤ bound) : Made bound (.ok c)
  | refused {failure : Failure} (proper : failure ≠ .stalled) : Made bound (.error failure)

variable {bound bound' : Nat}

theorem Made.bind {made : Except Failure σ} {next : σ → Except Failure τ} (h : Made bound made)
    (h' : ∀ c, Progresses c → Cursor.movesLeft c ≤ bound → Made bound' (next c)) :
    Made bound' (made >>= next) := by
  cases h with
  | ok going moves => exact h' _ going moves
  | refused proper => exact .refused proper

theorem Made.mono {made : Except Failure σ} (h : Made bound made) (le : bound ≤ bound') :
    Made bound' made := by
  cases h with
  | ok going moves => exact .ok going (Nat.le_trans moves le)
  | refused proper => exact .refused proper

namespace Clauses

variable {required optional prohibited clauses : List σ}

theorem made_ofAlternatives (needed : Nat) (going : ∀ c ∈ clauses, Progresses c) :
    Made (movesLeftInAll 1 clauses + 1) (Threshold.ofAlternatives clauses needed) := by
  cases eq : Threshold.ofAlternatives clauses needed with
  | error failure =>
      rw [Threshold.ofAlternatives] at eq
      split at eq
      · obtain rfl := Except.error.inj eq
        exact .refused (by simp)
      · split at eq
        · obtain rfl := Except.error.inj eq
          exact .refused (by simp)
        · exact absurd eq.symm Outcome.error_ne_ok
  | ok T =>
      refine .ok (Threshold.progresses_ofAlternatives eq going) ?_
      rw [Threshold.ofAlternatives] at eq
      split at eq
      · exact absurd eq Outcome.error_ne_ok
      · split at eq
        · exact absurd eq Outcome.error_ne_ok
        · obtain rfl := Except.ok.inj eq
          exact Nat.le_refl _

theorem made_atLeast (needed : Nat) (going : ∀ c ∈ clauses, Progresses c) (tally : Tally) :
    Made (movesLeftInAll 1 clauses + 1) (Counted.atLeast needed clauses tally) :=
  (made_ofAlternatives needed going).bind fun _ going' moves =>
    .ok (Counted.progresses_ofThreshold going' tally) moves

/-- Clauses that have to match all together. -/
theorem progresses_conjoin (going : ∀ c ∈ clauses, Progresses c) :
    Progresses (conjoin clauses) ∧
      Cursor.movesLeft (conjoin clauses) ≤ movesLeftInAll 1 clauses + 1 := by
  have all : Progresses (Counted.all .fraction clauses .enclosing) ∧
      Cursor.movesLeft (Counted.all .fraction clauses .enclosing) ≤
        movesLeftInAll 1 clauses + 1 :=
    ⟨Counted.progresses_all _ going _, Nat.add_le_add_right (movesLeftInAll_mono clauses) 1⟩
  match clauses, going, all with
  | [], _, all => exact all
  | [clause], going, _ =>
      refine ⟨Counted.progresses_one (List.forall_mem_singleton.mp going) _, ?_⟩
      show Cursor.movesLeft clause ≤ _
      simp only [movesLeftInAll]
      omega
  | _ :: _ :: _, _, all => exact all

/-- Prohibited clauses around the others. -/
theorem made_guard {core : Core σ} (going : Progresses core)
    (going' : ∀ c ∈ prohibited, Progresses c) : Made
      (Cursor.movesLeft core + movesLeftInAll 1 prohibited + 1) (guard core prohibited) := by
  match prohibited, going' with
  | [], _ => exact .ok (embeds_inl.progresses going) (Nat.le_succ _)
  | [clause], going' =>
      have single := List.forall_mem_singleton.mp going'
      refine .ok (embeds_inr.progresses
        (Exclusion.progresses_ofParts going (embeds_inl.progresses single))) ?_
      show Cursor.movesLeft core + Cursor.movesLeft clause ≤ _
      simp only [movesLeftInAll]
      omega
  | _ :: _ :: _, going' =>
      refine (made_ofAlternatives 1 going').bind fun T going'' moves => .ok ?_ ?_
      · exact embeds_inr.progresses
          (Exclusion.progresses_ofParts going (embeds_inr.progresses going''))
      · exact Nat.add_le_add_left moves _

/-- Clauses that decide alone which documents match, with prohibited clauses around them. -/
theorem made_deciding {core : Core σ} (going : Progresses core)
    (moves : Cursor.movesLeft core ≤ bound) (going' : ∀ c ∈ prohibited, Progresses c) :
    Made (bound + movesLeftInAll 1 prohibited + 1)
      (do return .inr (.inl (← guard core prohibited)) : Except Failure (Composition σ)) := by
  refine (made_guard going going').bind fun g going'' moves' => .ok ?_ ?_
  · exact embeds_inr.progresses (embeds_inl.progresses going'')
  · show Cursor.movesLeft g ≤ _
    omega

theorem progresses_nothing : Progresses (.inl {} : Composition σ) :=
  embeds_inl.progresses (Nothing.progresses _)

theorem made_composeOptional (minOptional : Nat) (going : ∀ c ∈ optional, Progresses c)
    (going' : ∀ c ∈ prohibited, Progresses c) :
    Made (movesLeftInAll 1 optional + movesLeftInAll 1 prohibited + 2)
      (composeOptional minOptional optional prohibited) := by
  rw [composeOptional]
  split
  · exact .ok progresses_nothing (Nat.zero_le _)
  · split
    · refine (made_atLeast _ going .enclosing).bind fun c going'' moves => ?_
      exact (made_deciding (embeds_inl.progresses going'') moves going').mono (by omega)
    · obtain ⟨going'', moves⟩ := progresses_conjoin going
      exact (made_deciding (embeds_inl.progresses going'') moves going').mono (by omega)

theorem made_composeRequired (minOptional : Nat) (going : ∀ c ∈ required, Progresses c)
    (going' : ∀ c ∈ optional, Progresses c) (going'' : ∀ c ∈ prohibited, Progresses c) :
    Made (movesLeftInAll 1 required + movesLeftInAll 1 optional + movesLeftInAll 1 prohibited + 4)
      (composeRequired minOptional required optional prohibited) := by
  obtain ⟨conjoined, moves⟩ := progresses_conjoin going
  rw [composeRequired]
  split
  · exact .ok progresses_nothing (Nat.zero_le _)
  · split
    · have all : ∀ c ∈ required ++ optional, Progresses c :=
        List.forall_mem_append.mpr ⟨going, going'⟩
      have moves' := movesLeftInAll_mono (required ++ optional)
      rw [movesLeftInAll_append 1] at moves'
      exact (made_deciding (embeds_inl.progresses (Counted.progresses_all _ all _))
        (Nat.succ_le_succ moves') going'').mono (by omega)
    · split
      · refine (made_atLeast _ going' .enclosing).bind fun c enough moves' => ?_
        have both : ∀ p ∈ [conjoin required, c], Progresses p :=
          List.forall_mem_cons.mpr ⟨conjoined, List.forall_mem_singleton.mpr enough⟩
        have left : Cursor.movesLeft (.inr (.ofParts .fraction [conjoin required, c]) : Core σ) ≤
            movesLeftInAll 1 required + movesLeftInAll 1 optional + 3 := by
          show Cursor.movesLeft (conjoin required) + 0 + (Cursor.movesLeft c + 0 + 0) + 1 ≤ _
          omega
        exact (made_deciding (embeds_inr.progresses (Conjunction.progresses_ofParts _ both)) left
          going'').mono (by omega)
      · -- What is made of the optional clauses only adds to the scores.
        have adding : ∀ bonus : Counted σ, Progresses bonus →
            Cursor.movesLeft bonus ≤ movesLeftInAll 1 optional + 1 →
            Made (movesLeftInAll 1 required + movesLeftInAll 1 optional +
              movesLeftInAll 1 prohibited + 4)
              (do
                let guarded ← guard (.inl (conjoin required)) prohibited
                return .inr (.inr (.ofParts guarded bonus)) :
                Except Failure (Composition σ)) := by
          intro bonus going''' moves'
          have core : Progresses (.inl (conjoin required) : Core σ) :=
            embeds_inl.progresses conjoined
          refine (made_guard core going'').bind fun g guarded moves'' => .ok ?_ ?_
          · exact embeds_inr.progresses (embeds_inr.progresses
              (Bonus.progresses_ofParts guarded going'''))
          · have same : Cursor.movesLeft (.inl (conjoin required) : Core σ) =
              Cursor.movesLeft (conjoin required) := rfl
            show Cursor.movesLeft g + Cursor.movesLeft bonus ≤ _
            omega
        cases optional with
        | nil => exact (made_atLeast 1 going' .enclosing).bind adding
        | cons clause rest =>
            cases rest with
            | nil =>
                refine adding _ (Counted.progresses_one (List.forall_mem_singleton.mp going') _) ?_
                show Cursor.movesLeft clause ≤ _
                simp only [movesLeftInAll]
                omega
            | cons => exact (made_atLeast 1 going' .enclosing).bind adding

structure Going (clauses : Clauses σ) : Prop where
  required : ∀ c ∈ clauses.required, Progresses c
  optional : ∀ c ∈ clauses.optional, Progresses c
  prohibited : ∀ c ∈ clauses.prohibited, Progresses c

theorem Going.compose {clauses : Clauses σ} (h : clauses.Going) (minOptional : Nat) :
    Made (movesLeftInAll 1 (clauses.required ++ clauses.optional ++ clauses.prohibited) + 4)
      (clauses.compose minOptional) := by
  simp only [movesLeftInAll_append]
  rw [Clauses.compose]
  split
  · exact (made_composeOptional _ h.optional h.prohibited).mono (by omega)
  · exact made_composeRequired _ h.required h.optional h.prohibited

theorem going_empty : Going ({} : Clauses σ) :=
  ⟨List.forall_mem_nil _, List.forall_mem_nil _, List.forall_mem_nil _⟩

theorem Going.add {clauses : Clauses σ} (h : clauses.Going) (role : Role) {clause : σ}
    (going : Progresses clause) : (clauses.add role clause).Going := by
  have appended : ∀ {cs : List σ}, (∀ c ∈ cs, Progresses c) →
      ∀ c ∈ cs ++ [clause], Progresses c :=
    fun all => List.forall_mem_append.mpr ⟨all, List.forall_mem_singleton.mpr going⟩
  cases role with
  | required => exact ⟨appended h.required, h.optional, h.prohibited⟩
  | optional => exact ⟨h.required, appended h.optional, h.prohibited⟩
  | prohibited => exact ⟨h.required, h.optional, appended h.prohibited⟩

end Clauses

end Boolean

namespace BooleanCursor

open Boolean

variable {σ : Type} [Cursor σ] {c : BooleanCursor σ}

/-- The clauses get on, or what has been composed of them does. -/
inductive Stage.Going : Stage σ → Prop
  | collecting {clauses : Clauses σ} (going : clauses.Going) : Going (.collecting clauses)
  | composed {composition : Composition σ} (going : Progresses composition) :
      Going (.composed composition)

def Going (c : BooleanCursor σ) : Prop := Stage.Going c.stage

/-- How the composition comes about: it has been made before, or making it uses up a move. -/
structure Composed (c : BooleanCursor σ) (composition : Option (Composition σ))
    (c' : BooleanCursor σ) : Prop where
  going : c'.Going
  moves : Cursor.movesLeft c' ≤ Cursor.movesLeft c
  made : ∀ p, composition = some p → Progresses p ∧ c'.stage = .composed p ∧
    (c.stage = .composed p ∨ Cursor.movesLeft p < Cursor.movesLeft c)

theorem Composed.movesLeft_le {p : Composition σ} {c' : BooleanCursor σ}
    (h : c.Composed (some p) c') : Cursor.movesLeft p ≤ Cursor.movesLeft c := by
  have moves := h.moves
  simpa only [Cursor.movesLeft, movesLeft, (h.made p rfl).2.1] using moves

theorem Going.compose (h : c.Going) : c.compose.Ends c.Composed := by
  obtain ⟨rules, rule, coordination, stage⟩ := c
  rw [BooleanCursor.compose]
  cases h with
  | @composed composition going =>
      refine .answered ⟨.composed going, Nat.le_refl _, ?_⟩
      rintro p ⟨rfl⟩
      exact ⟨going, rfl, .inl rfl⟩
  | @collecting clauses going =>
      have made := going.compose rules.minOptional
      dsimp only
      generalize clauses.compose rules.minOptional = composition at made ⊢
      cases made with
      | ok going' moves =>
          have less := Nat.lt_succ_of_le moves
          refine .answered ⟨.composed going', Nat.le_of_lt less, ?_⟩
          rintro p ⟨rfl⟩
          exact ⟨going', rfl, .inr less⟩
      | refused proper =>
          exact .failed ⟨.collecting Clauses.going_empty, Nat.le_add_left _ _,
            fun _ => no_answer⟩ proper

omit [Cursor σ] in
/-- Taking over what a call on the composition leaves. -/
theorem resume_leaves {α : Type} {o : Outcome (Composition σ) α} {fails : Failure → Prop}
    {post : Option α → Composition σ → Prop} {post' : Option α → BooleanCursor σ → Prop}
    (leaves : Leaves fails post o)
    (seen : ∀ a p (c' : BooleanCursor σ), post a p → c'.stage = .composed p → post' a c') :
    Leaves fails post' (c.resume o) := by
  cases leaves with
  | answered h => exact .answered (seen _ _ _ h rfl)
  | failed h allowed => exact .failed (seen _ _ _ h rfl) allowed

theorem going_of_stage {p : Composition σ} (going : Progresses p) (stage : c.stage = .composed p) :
    c.Going := by
  rw [Going, stage]
  exact .composed going

theorem movesLeft_of_stage {p : Composition σ} (stage : c.stage = .composed p) :
    Cursor.movesLeft c = Cursor.movesLeft p := by
  simp only [Cursor.movesLeft, movesLeft, stage]

theorem doc_of_stage {p : Composition σ} (stage : c.stage = .composed p) :
    Cursor.doc c = Cursor.doc p := by
  simp only [Cursor.doc, doc, stage]

theorem Going.onward (h : c.Going) (move : Move) :
    (c.compose.andThen fun composition c => c.resume (move.make composition)).Ends
      fun found c' => c'.Going ∧ Uses move c found c' := by
  refine h.compose.bind (fun c' composed => ⟨composed.going, composed.moves, no_answer⟩)
    fun p c' composed => ?_
  obtain ⟨going, -, began⟩ := composed.made p rfl
  have before := composed.movesLeft_le
  refine resume_leaves (going.move move) fun found p' c'' left stage => ?_
  have after := movesLeft_of_stage stage
  refine ⟨going_of_stage left.1 stage, ?_, fun some => ?_⟩
  · rw [after]
    exact Nat.le_trans left.2.moves before
  · obtain same | less := began
    · rw [after, movesLeft_of_stage same, doc_of_stage stage, doc_of_stage same]
      exact left.2.found some
    · exact .inl (after ▸ Nat.lt_of_le_of_lt left.2.moves less)

theorem progressing_going : Progressing (Going (σ := σ)) where
  move := by
    intro c move h
    cases move with
    | next => exact h.onward .next
    | seek t =>
        show (c.seek t).Ends _
        rw [seek]
        split
        · exact .failed ⟨h, Nat.le_refl _, no_answer⟩ (by simp)
        · exact h.onward (.seek t)
  score := by
    intro c h
    show c.score.Ends _
    rw [score]
    refine h.compose.bind (fun c' composed => ⟨composed.going, composed.moves⟩)
      fun p c' composed => ?_
    obtain ⟨going, -, -⟩ := composed.made p rfl
    have scored : ∀ {c'' : BooleanCursor σ}, c''.Going ∧ Cursor.movesLeft c'' ≤ Cursor.movesLeft p →
        c''.Going ∧ Cursor.movesLeft c'' ≤ Cursor.movesLeft c :=
      fun left => ⟨left.1, Nat.le_trans left.2 composed.movesLeft_le⟩
    have scores : (({ c' with coordination := c'.coordination.enter (Cursor.doc p) }).resume
        (Cursor.score p)).Ends fun _ (c'' : BooleanCursor σ) =>
          c''.Going ∧ Cursor.movesLeft c'' ≤ Cursor.movesLeft p :=
      resume_leaves going.score fun _ p' c'' left stage =>
        ⟨going_of_stage left.1 stage, movesLeft_of_stage stage ▸ left.2⟩
    refine scores.bind (fun c'' left => scored left) fun sum c'' left => ?_
    rw [Coordination.factor]
    split
    · exact .answered (scored left)
    · exact .failed (scored left) (by simp)

theorem going_create {rule : CoordRule} {rules : ClauseRules} (made : create rule rules = .ok c) :
    c.Going := by
  rw [create, ClauseRules.validate] at made
  split at made
  · exact absurd made Outcome.error_ne_ok
  · obtain rfl := Except.ok.inj made
    exact .collecting Clauses.going_empty

theorem Going.add (h : c.Going) {role : Role} {clause : σ} (going : Progresses clause)
    {c' : BooleanCursor σ} (added : c.add role clause = .ok c') : c'.Going := by
  obtain ⟨rules, rule, coordination, stage⟩ := c
  rw [BooleanCursor.add] at added
  cases h with
  | composed => exact absurd added Outcome.error_ne_ok
  | collecting going' =>
      dsimp only at added
      split at added
      · exact absurd added Outcome.error_ne_ok
      · obtain rfl := Except.ok.inj added
        exact .collecting (going'.add role going)

end BooleanCursor

namespace Node

variable {σ : Type} [Cursor σ] {part : σ → Prop}

/-- The cursors that can be made of parts and of calls. -/
inductive Grown (part : σ → Prop) : Node σ → Prop
  | posting (list : PostingList) (boost : Score) : Grown part (.posting (list.cursor boost))
  | nothing : Grown part (.nothing {})
  | conjunction (rule : CoordRule) {parts : List σ} (grown : ∀ p ∈ parts, part p) :
      Grown part (.conjunction (.ofParts rule parts))
  | threshold {alternatives : List σ} {needed : Nat} {T : Threshold σ}
      (made : Threshold.ofAlternatives alternatives needed = .ok T)
      (grown : ∀ a ∈ alternatives, part a) : Grown part (.threshold T)
  | exclusion {required excluded : σ} (grown : part required) (grown' : part excluded) :
      Grown part (.exclusion (.ofParts required excluded))
  | bonus {required optional : σ} (grown : part required) (grown' : part optional) :
      Grown part (.bonus (.ofParts required optional))
  | one (tally : Tally) {clause : σ} (grown : part clause) :
      Grown part (.counted (.one clause tally))
  | all (rule : CoordRule) (tally : Tally) {clauses : List σ} (grown : ∀ c ∈ clauses, part c) :
      Grown part (.counted (.all rule clauses tally))
  | atLeast {needed : Nat} {clauses : List σ} {tally : Tally} {c : Counted σ}
      (made : Counted.atLeast needed clauses tally = .ok c) (grown : ∀ c ∈ clauses, part c) :
      Grown part (.counted c)
  | boolean {rule : CoordRule} {rules : ClauseRules} {c : BooleanCursor σ}
      (made : BooleanCursor.create rule rules = .ok c) : Grown part (.boolean c)
  | add {c c' : BooleanCursor σ} {role : Role} {clause : σ} (grown : Grown part (.boolean c))
      (grown' : part clause) (added : c.add role clause = .ok c') : Grown part (.boolean c')
  | faulty (plan : FaultPlan) {cursor : σ} (grown : part cursor) :
      Grown part (.faulty { cursor, plan })
  | move {n : Node σ} (move : Move) (grown : Grown part n) : Grown part (move.make n).state
  | score {n : Node σ} (grown : Grown part n) : Grown part (Cursor.score n).state

/-- A cursor that gets on. A boolean search does even if it is given further clauses that do. -/
def Going : Node σ → Prop
  | boolean c => c.Going
  | n => Progresses n

theorem Going.progresses {n : Node σ} (h : n.Going) : Progresses n := by
  cases n with
  | boolean c => exact embeds_boolean.progresses ⟨_, BooleanCursor.progressing_going, h⟩
  | _ => exact h

theorem Going.move {n : Node σ} (h : n.Going) (move : Move) : (move.make n).state.Going := by
  obtain ⟨-, kept, -⟩ := (h.progresses.move move).exists
  cases n with
  | boolean c =>
      obtain ⟨-, going, -⟩ := (BooleanCursor.progressing_going.move move h).exists
      rw [embeds_boolean.make]
      exact going
  | _ => cases move <;> exact kept

theorem Going.score {n : Node σ} (h : n.Going) : (Cursor.score n).state.Going := by
  obtain ⟨-, kept, -⟩ := h.progresses.score.exists
  cases n with
  | boolean c =>
      obtain ⟨-, going, -⟩ := (BooleanCursor.progressing_going.score h).exists
      exact going
  | _ => exact kept

theorem Grown.going {n : Node σ} (grown : Grown part n)
    (parts : ∀ {p}, part p → Progresses p) : n.Going := by
  have each : ∀ {ps : List σ}, (∀ p ∈ ps, part p) → ∀ p ∈ ps, Progresses p :=
    fun grown p inside => parts (grown p inside)
  induction grown with
  | posting list boost => exact embeds_posting.progresses (PostingCursor.progresses _)
  | nothing => exact embeds_nothing.progresses (Nothing.progresses _)
  | conjunction rule grown =>
      exact embeds_conjunction.progresses (Conjunction.progresses_ofParts rule (each grown))
  | threshold made grown =>
      exact embeds_threshold.progresses (Threshold.progresses_ofAlternatives made (each grown))
  | exclusion grown grown' =>
      exact embeds_exclusion.progresses (Exclusion.progresses_ofParts (parts grown) (parts grown'))
  | bonus grown grown' =>
      exact embeds_bonus.progresses (Bonus.progresses_ofParts (parts grown) (parts grown'))
  | one tally grown =>
      exact embeds_counted.progresses (Counted.progresses_one (parts grown) tally)
  | all rule tally grown =>
      exact embeds_counted.progresses (Counted.progresses_all rule (each grown) tally)
  | atLeast made grown =>
      exact embeds_counted.progresses (Counted.progresses_atLeast made (each grown))
  | boolean made => exact BooleanCursor.going_create made
  | add _ grown' added ih => exact BooleanCursor.Going.add ih (parts grown') added
  | faulty plan grown => exact embeds_faulty.progresses (Faulty.progresses (parts grown))
  | move move _ ih => exact ih.move move
  | score _ ih => exact ih.score

end Node

namespace Tree

/-- The trees that can be made of posting lists by nesting cursors in each other, faults being
planned for any of them, and by calls on any of them, also before they become parts. -/
def Grown : {height : Nat} → Tree height → Prop
  | 0, _ => False
  | _ + 1, n => Node.Grown Grown n

theorem Grown.progresses {height : Nat} {n : Tree height} (grown : n.Grown) : Progresses n := by
  induction height with
  | zero => exact grown.elim
  | succ height ih => exact (Node.Grown.going grown ih).progresses

/-- The moves left in a tree of cursors bound every loop in every call, whatever calls there have
been, in or out of order, and whichever of them have failed: no call runs past a bound, none gains
moves, and each move uses one up that leads to a document ahead. -/
theorem calls_end {height : Nat} {n : Tree height} (grown : n.Grown) :
    (∀ move : Move, (move.make n).answer ≠ .error .stalled ∧
      movesLeft (move.make n).state ≤ movesLeft n) ∧
    ((Cursor.next n).answer = .ok true → movesLeft (Cursor.next n).state < movesLeft n) ∧
    (∀ t, Cursor.doc n < t → (Cursor.seek n t).answer = .ok true →
      movesLeft (Cursor.seek n t).state < movesLeft n) ∧
    (Cursor.score n).answer ≠ .error .stalled ∧ movesLeft (Cursor.score n).state ≤ movesLeft n := by
  have going := grown.progresses
  refine ⟨fun move => ⟨fun stalled => ?_, ?_⟩, fun answered => ?_, fun t ahead answered => ?_,
    fun stalled => ?_, ?_⟩
  · exact (going.move move).fails_of_error stalled rfl
  · obtain ⟨_, _, uses⟩ := (going.move move).exists
    exact uses.moves
  · exact (going.next.of_ok answered).2.next_lt
  · exact ((going.seek t).of_ok answered).2.seek_lt ahead
  · exact going.score.fails_of_error stalled rfl
  · obtain ⟨_, _, fewer⟩ := going.score.exists
    exact fewer

/-- The documents common to two lists, where the first move of the second one fails. -/
def interrupted : Tree 3 :=
  Node.conjunction <| .ofParts .fraction
    [Node.posting (.ofDocs [3] 1), Node.faulty
      { cursor := Node.posting (.ofDocs [1, 3] 1)
        plan :=
          { next := fun k => if k = 1 then some ⟨.other, "unavailable"⟩ else none
            seek := fun _ => none
            score := fun _ => none } }]

/-- After the failure the two lists are out of order, and still every call ends. -/
theorem calls_end_interrupted :
    (Cursor.next interrupted).answer = .error (.reported ⟨.other, "unavailable"⟩) ∧
      ∀ move : Move, (move.make (Cursor.next interrupted).state).answer ≠ .error .stalled := by
  have parts : Grown interrupted := by
    refine Node.Grown.conjunction _ (List.forall_mem_cons.mpr
      ⟨?_, List.forall_mem_singleton.mpr ?_⟩)
    · exact Node.Grown.posting _ _
    · exact Node.Grown.faulty _ (Node.Grown.posting _ _)
  have grown : Grown (Cursor.next interrupted).state := Node.Grown.move .next parts
  exact ⟨by decide +kernel, fun move => ((calls_end grown).1 move).1⟩

end Tree

end Retrieval
