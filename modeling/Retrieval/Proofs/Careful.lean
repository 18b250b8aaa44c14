import Retrieval.Proofs.HeadCount
import Retrieval.Proofs.Termination

/-!
# No empty queue is asked for a score

Thresholds keep count of their alternatives if these are careful, and they are careful then. All
other kinds of cursors only hand calls on, so they are careful if their parts are. Hence whatever
has been nested in whatever, and called in whatever order, the count of a threshold is that of its
queue.
-/

namespace Retrieval

open Cursor Outcome

namespace Cursor

variable {σ τ : Type} [Cursor σ] [Cursor τ] {c : σ}

theorem Embeds.careful {whole : σ → τ} (embeds : Embeds whole) (h : Careful c) :
    Careful (whole c) := by
  refine ⟨fun w => ∃ c, w = whole c ∧ Careful c, ⟨?_, ?_⟩, c, rfl, h⟩
  · rintro _ move ⟨c, rfl, h⟩
    rw [embeds.make]
    exact (h.move move).within fun _ c' left => ⟨c', rfl, left⟩
  · rintro _ ⟨c, rfl, h⟩
    rw [embeds.score]
    exact h.score.within fun _ c' left => ⟨c', rfl, left⟩

/-- A cursor that may have been given up. -/
def SideCareful (side : Option σ) : Prop := ∀ c ∈ side, Careful c

theorem sideCareful_none : SideCareful (none : Option σ) := nofun

theorem sideCareful_some (h : Careful c) : SideCareful (some c) := by
  rintro _ ⟨rfl⟩
  exact h

end Cursor

theorem Nothing.careful (c : Nothing) : Careful c := by
  refine ⟨fun _ => True, ⟨fun move _ => ?_, fun _ => ?_⟩, trivial⟩
  · cases move <;> exact .answered trivial
  · exact .failed trivial (by simp)

theorem PostingCursor.careful (c : PostingCursor) : Careful c := by
  refine ⟨fun _ => True, ⟨fun {c} move _ => ?_, fun {c} _ => ?_⟩, trivial⟩
  · cases move with
    | next => exact .answered trivial
    | seek t =>
        show (c.seek t).Heeds _
        rw [seek]
        split
        · exact .failed trivial (by simp)
        · exact .answered trivial
  · show c.score.Heeds _
    rw [score]
    split
    · split
      · exact .answered trivial
      · exact .failed trivial (by simp)
    · exact .failed trivial (by simp)

/-- The failures that are planned are those of a source. -/
theorem Faulty.careful {σ : Type} [Cursor σ] {c : Faulty σ} (h : Careful c.cursor) :
    Careful c := by
  have attempt : ∀ {α : Type} (c : Faulty σ) (fault : Option Failure.Report)
      (call : σ → Outcome σ α), Careful c.cursor →
      (call c.cursor).Heeds (fun _ cursor => Careful cursor) →
      (c.attempt fault call).Heeds fun _ c' => Careful c'.cursor := by
    intro α c fault call h heeds
    obtain ⟨report, faulted⟩ | passed := c.attempt_cases fault call
    · rw [faulted]
      exact .failed h (by simp)
    · rw [passed]
      exact heeds.within fun _ _ left => left
  refine ⟨fun c => Careful c.cursor, ⟨fun {c} move h => ?_, fun {c} h => ?_⟩, h⟩
  · cases move with
    | next => exact attempt { c with nexts := c.nexts + 1 } _ _ h h.next
    | seek t => exact attempt { c with seeks := c.seeks + 1 } _ (Cursor.seek · t) h (h.seek t)
  · exact attempt { c with scores := c.scores + 1 } _ _ h h.score

namespace Counted

variable {σ : Type} [Cursor σ] {clauses : List σ}

theorem careful {c : Counted σ} (h : Careful c.group) : Careful c := by
  refine ⟨fun c => Careful c.group, ⟨fun {c} move h => ?_, fun {c} h => ?_⟩, h⟩
  · rw [make_group]
    exact (h.move move).within fun _ _ left => left
  · show c.score.Heeds _
    rw [score]
    apply Leaves.marking
    exact h.score.within fun _ _ left => left

theorem careful_one {clause : σ} (h : Careful clause) (tally : Tally) :
    Careful (one clause tally) :=
  careful (embeds_one.careful h)

end Counted

namespace Conjunction

variable {σ : Type} [Cursor σ] {c : Conjunction σ}

def Minds (c : Conjunction σ) : Prop := ∀ p ∈ c.parts, Careful p

theorem sweep_heeds {parts : List σ} (move : Move) (careful : ∀ p ∈ parts, Careful p) :
    (sweep move.make parts).Heeds fun _ parts' => ∀ p ∈ parts', Careful p := by
  induction parts with
  | nil => exact .answered careful
  | cons p rest ih =>
      obtain ⟨head, tail⟩ := List.forall_mem_cons.mp careful
      rw [sweep]
      refine (head.move move).bind (fun _ left => List.forall_mem_cons.mpr ⟨left, tail⟩)
        fun found p' left => ?_
      cases found with
      | false => exact .answered (List.forall_mem_cons.mpr ⟨left, tail⟩)
      | true => exact (ih tail).within fun _ _ left' => List.forall_mem_cons.mpr ⟨left, left'⟩

theorem moveAll_heeds (h : c.Minds) (move : Move) :
    (c.moveAll move.make).Heeds fun _ c' => c'.Minds := by
  rw [moveAll]
  split
  · refine (sweep_heeds move h).bind (fun _ left => left) fun found parts left => ?_
    cases found with
    | false => exact .answered left
    | true => exact .answered fun p inside => left p ((List.mergeSort_perm _ _).mem_iff.mp inside)
  · exact .answered h

theorem start_heeds (h : c.Minds) : c.start.Heeds fun _ c' => c'.Minds :=
  moveAll_heeds (c := { c with fresh := false, more := !c.parts.isEmpty }) h .next

theorem advanceLast_heeds (h : c.Minds) : c.advanceLast.Heeds fun _ c' => c'.Minds := by
  rw [advanceLast]
  split
  · split
    · exact .answered h
    · next last there =>
      have front : ∀ p ∈ c.parts.dropLast, Careful p :=
        fun p inside => h p (List.dropLast_subset _ inside)
      have put : ∀ {last' : σ}, Careful last' → ∀ p ∈ c.parts.dropLast ++ [last'], Careful p :=
        fun left => List.forall_mem_append.mpr ⟨front, List.forall_mem_singleton.mpr left⟩
      exact (h last (List.mem_of_getLast? there)).next.bind (fun _ left => put left)
        fun _ _ left => .answered (put left)
  · exact .answered h

theorem converge_heeds (bound : Nat) (h : c.Minds) :
    (c.converge bound).Heeds fun _ c' => c'.Minds := by
  induction bound generalizing c with
  | zero => exact .failed h (by simp)
  | succ bound ih =>
      rw [converge]
      split
      · exact .answered h
      · next first rest parts =>
        split
        · rw [Minds, parts] at h
          obtain ⟨head, tail⟩ := List.forall_mem_cons.mp h
          refine (head.seek c.lastDoc).bind (fun _ _ => tail) fun found first' left => ?_
          have minds : ∀ p ∈ rest ++ [first'], Careful p :=
            List.forall_mem_append.mpr ⟨tail, List.forall_mem_singleton.mpr left⟩
          cases found with
          | false => exact .answered minds
          | true => exact ih minds
        · exact .answered h

theorem sumScores_heeds {parts : List σ} (careful : ∀ p ∈ parts, Careful p) (total : Score) :
    (sumScores total parts).Heeds fun _ parts' => ∀ p ∈ parts', Careful p := by
  induction parts generalizing total with
  | nil => exact .answered careful
  | cons p rest ih =>
      obtain ⟨head, tail⟩ := List.forall_mem_cons.mp careful
      rw [sumScores]
      exact head.score.bind (fun _ left => List.forall_mem_cons.mpr ⟨left, tail⟩)
        fun _ _ left => (ih tail _).within fun _ _ left' => List.forall_mem_cons.mpr ⟨left, left'⟩

theorem heeding_minds : Heeding (Minds (σ := σ)) where
  move := by
    intro c move h
    have began : ∀ {o : Outcome (Conjunction σ) Unit}, o.Heeds (fun _ c' => c'.Minds) →
        (o.andThen fun _ c => c.settle).Heeds fun _ c' => c'.Minds :=
      fun heeds => heeds.bind (fun _ left => left) fun _ _ left => converge_heeds _ left
    cases move with
    | next =>
        show c.next.Heeds _
        rw [Conjunction.next]
        split
        · exact began (start_heeds h)
        · exact began (advanceLast_heeds h)
    | seek t =>
        have started : (if c.fresh then c.start else .done c ()).Heeds
            fun _ (c' : Conjunction σ) => c'.Minds := by
          split
          · exact start_heeds h
          · exact .answered h
        show (c.seek t).Heeds _
        rw [Conjunction.seek]
        exact started.bind (fun _ left => left) fun _ _ left =>
          began (moveAll_heeds left (.seek t))
  score := by
    intro c h
    show (((sumScores 0 c.parts).map (· * c.factor)).within fun parts =>
      { c with parts }).Heeds _
    have scores : ((sumScores 0 c.parts).map (· * c.factor)).Heeds
        fun _ parts => ∀ p ∈ parts, Careful p := (sumScores_heeds h 0).map fun _ _ left => left
    exact scores.within fun _ _ left => left

theorem careful_ofParts (rule : CoordRule) {parts : List σ} (careful : ∀ p ∈ parts, Careful p) :
    Careful (ofParts rule parts) :=
  ⟨_, heeding_minds, careful⟩

end Conjunction

namespace Bonus

variable {ρ ο : Type} [Cursor ρ] [Cursor ο] {c : Bonus ρ ο}

structure Minds (c : Bonus ρ ο) : Prop where
  required : Careful c.required
  optional : SideCareful c.optional

theorem catchUp_heeds (h : c.Minds) (d : DocId) : (c.catchUp d).Heeds fun _ c' => c'.Minds := by
  obtain ⟨required, optional, fresh⟩ := c
  cases optional with
  | none => exact .answered h
  | some optional =>
      simp only [catchUp]
      split
      · refine ((h.optional optional rfl).seek d).bind
          (fun _ left => ⟨h.required, sideCareful_some left⟩) fun found _ left => ?_
        cases found with
        | true => exact .answered ⟨h.required, sideCareful_some left⟩
        | false => exact .answered ⟨h.required, sideCareful_none⟩
      · exact .answered h

theorem addOptional_heeds (h : c.Minds) (d : DocId) (v : Score) :
    (c.addOptional d v).Heeds fun _ c' => c'.Minds := by
  obtain ⟨required, optional, fresh⟩ := c
  cases optional with
  | none => exact .answered h
  | some optional =>
      simp only [addOptional]
      split
      · have scores : ((Cursor.score optional).map (v + ·)).Heeds fun _ o => Careful o :=
          (h.optional optional rfl).score.map fun _ _ left => left
        exact scores.within fun _ _ left => ⟨h.required, sideCareful_some left⟩
      · exact .answered h

theorem heeding_minds : Heeding (Minds (ρ := ρ) (ο := ο)) where
  move := by
    intro c move h
    rw [make_required]
    exact (h.required.move move).within fun _ _ left => ⟨left, h.optional⟩
  score := by
    intro c h
    show c.score.Heeds _
    rw [Bonus.score]
    refine h.required.score.bind (fun _ left => ⟨left, h.optional⟩) fun v required left => ?_
    have minds : ({ c with required } : Bonus ρ ο).Minds := ⟨left, h.optional⟩
    exact (catchUp_heeds minds _).bind (fun _ left' => left') fun _ _ left' =>
      addOptional_heeds left' _ v

theorem careful_ofParts {required : ρ} {optional : ο} (h : Careful required)
    (h' : Careful optional) : Careful (ofParts required optional) :=
  ⟨_, heeding_minds, h, sideCareful_some h'⟩

end Bonus

namespace Exclusion

variable {ρ ε : Type} [Cursor ρ] [Cursor ε] {c : Exclusion ρ ε}

structure Minds (c : Exclusion ρ ε) : Prop where
  required : SideCareful c.required
  excluded : SideCareful c.excluded

theorem judge_heeds {excluded : ε} (h : Careful excluded) (d : DocId) :
    (judge excluded d).Heeds fun _ side => SideCareful side := by
  rw [judge]
  split
  · exact .answered (sideCareful_some h)
  · split
    · refine (h.seek d).bind (fun _ left => sideCareful_some left) fun found _ left => ?_
      cases found with
      | true => exact .answered (sideCareful_some left)
      | false => exact .answered sideCareful_none
    · exact .answered (sideCareful_some h)

theorem pass_heeds (bound : Nat) {required : ρ} {excluded : Option ε} (h : Careful required)
    (h' : SideCareful excluded) : (pass bound required excluded).Heeds fun _ c' => c'.Minds := by
  have minds : ∀ {required : ρ} {excluded : Option ε}, Careful required → SideCareful excluded →
      (begun (some required) excluded).Minds := fun h h' => ⟨sideCareful_some h, h'⟩
  induction bound generalizing required excluded with
  | zero =>
      cases excluded with
      | none => exact .answered (minds h h')
      | some excluded => exact .failed (minds h h') (by simp)
  | succ bound ih =>
      cases excluded with
      | none => exact .answered (minds h h')
      | some excluded =>
          rw [pass]
          refine (judge_heeds (h' excluded rfl) _).bind (fun _ left => minds h left)
            fun isExcluded side left => ?_
          cases isExcluded with
          | false => exact .answered (minds h left)
          | true =>
              rw [if_pos rfl]
              refine h.next.bind (fun _ left' => minds left' left) fun found _ left' => ?_
              cases found with
              | false => exact .answered ⟨sideCareful_none, left⟩
              | true => exact ih left' left

theorem follow_heeds {required : ρ} {excluded : Option ε} (h : Careful required)
    (h' : SideCareful excluded) (move : Move) :
    (follow excluded (move.make required)).Heeds fun _ c' => c'.Minds := by
  refine (h.move move).bind (fun _ left => ⟨sideCareful_some left, h'⟩) fun found _ left => ?_
  cases found with
  | false => exact .answered ⟨sideCareful_none, h'⟩
  | true => exact pass_heeds _ left h'

theorem start_heeds (h : c.Minds) (move : Move) :
    (c.start move.make).Heeds fun _ c' => c'.Minds := by
  obtain ⟨required, excluded, fresh⟩ := c
  rw [start]
  split
  · next excluded' _ same =>
    obtain rfl : excluded = some excluded' := same
    refine ((h.excluded excluded' rfl).move move).bind
      (fun _ left => ⟨h.required, sideCareful_some left⟩) fun found _ left => ?_
    cases found with
    | true => exact .answered ⟨h.required, sideCareful_some left⟩
    | false => exact .answered ⟨h.required, sideCareful_none⟩
  · exact .answered ⟨h.required, h.excluded⟩

theorem heeding_minds : Heeding (Minds (ρ := ρ) (ε := ε)) where
  move := by
    intro c move h
    cases move with
    | next =>
        show c.next.Heeds _
        rw [Exclusion.next]
        refine (start_heeds h .next).bind (fun _ left => left) fun _ c' left => ?_
        split
        · exact .answered left
        · next required there =>
            exact follow_heeds (left.required required there) left.excluded .next
    | seek t =>
        show (c.seek t).Heeds _
        rw [Exclusion.seek]
        refine (start_heeds h (.seek t)).bind (fun _ left => left) fun _ c' left => ?_
        split
        · exact .answered left
        · next required there _ =>
          exact ((left.required required there).seek t).within fun _ _ left' =>
            ⟨sideCareful_some left', sideCareful_none⟩
        · next required excluded there there' =>
          exact follow_heeds (left.required required there)
            (sideCareful_some (left.excluded excluded there')) (.seek t)
  score := by
    intro c h
    show c.score.Heeds _
    rw [Exclusion.score]
    split
    · exact .failed h (by simp)
    · next required there =>
      exact (h.required required there).score.within fun _ _ left =>
        ⟨sideCareful_some left, h.excluded⟩

theorem careful_ofParts {required : ρ} {excluded : ε} (h : Careful required)
    (h' : Careful excluded) : Careful (ofParts required excluded) :=
  ⟨_, heeding_minds, sideCareful_some h, sideCareful_some h'⟩

end Exclusion

namespace Counted

variable {σ : Type} [Cursor σ] {clauses : List σ}

theorem careful_all (rule : CoordRule) (careful : ∀ c ∈ clauses, Careful c) (tally : Tally) :
    Careful (all rule clauses tally) :=
  Counted.careful ((embeds_all _).careful (Conjunction.careful_ofParts rule careful))

theorem careful_ofThreshold {T : Threshold σ} (careful : Careful T) (tally : Tally) :
    Careful (ofGroup (.atLeast T) tally) :=
  Counted.careful (embeds_atLeast.careful careful)

theorem careful_atLeast {needed : Nat} {tally : Tally} {c : Counted σ}
    (made : atLeast needed clauses tally = .ok c) (careful : ∀ c ∈ clauses, Careful c) :
    Careful c := by
  rw [atLeast] at made
  cases eq : Threshold.ofAlternatives clauses needed with
  | error failure =>
      rw [eq] at made
      exact absurd made Outcome.error_ne_ok
  | ok T =>
      rw [eq] at made
      obtain rfl := Except.ok.inj made
      exact careful_ofThreshold (Threshold.minds_ofAlternatives eq careful).careful tally

end Counted

namespace Boolean

variable {σ τ : Type} [Cursor σ] [Cursor τ]

/-- Making a cursor has led to a careful one, or has been refused. -/
inductive MadeCareful : Except Failure σ → Prop
  | ok {c : σ} (careful : Careful c) : MadeCareful (.ok c)
  | refused {failure : Failure} (proper : failure ≠ .scoreOfEmptyQueue) :
      MadeCareful (.error failure)

theorem MadeCareful.bind {made : Except Failure σ} {next : σ → Except Failure τ}
    (h : MadeCareful made) (h' : ∀ c, Careful c → MadeCareful (next c)) :
    MadeCareful (made >>= next) := by
  cases h with
  | ok careful => exact h' _ careful
  | refused proper => exact .refused proper

namespace Clauses

variable {required optional prohibited clauses : List σ}

theorem madeCareful_ofAlternatives (needed : Nat) (careful : ∀ c ∈ clauses, Careful c) :
    MadeCareful (Threshold.ofAlternatives clauses needed) := by
  cases made : Threshold.ofAlternatives clauses needed with
  | ok T => exact .ok (Threshold.minds_ofAlternatives made careful).careful
  | error failure =>
      rw [Threshold.ofAlternatives] at made
      split at made
      · obtain rfl := Except.error.inj made
        exact .refused (by simp)
      · split at made
        · obtain rfl := Except.error.inj made
          exact .refused (by simp)
        · exact absurd made.symm Outcome.error_ne_ok

theorem madeCareful_atLeast (needed : Nat) (careful : ∀ c ∈ clauses, Careful c) (tally : Tally) :
    MadeCareful (Counted.atLeast needed clauses tally) :=
  (madeCareful_ofAlternatives needed careful).bind fun _ careful' =>
    .ok (Counted.careful_ofThreshold careful' tally)

theorem careful_conjoin (careful : ∀ c ∈ clauses, Careful c) : Careful (conjoin clauses) :=
  match clauses, careful with
  | [], careful => Counted.careful_all _ careful _
  | [_], careful => Counted.careful_one (List.forall_mem_singleton.mp careful) _
  | _ :: _ :: _, careful => Counted.careful_all _ careful _

/-- Prohibited clauses around the others. -/
theorem madeCareful_guard {core : Core σ} (careful : Careful core)
    (careful' : ∀ c ∈ prohibited, Careful c) : MadeCareful (guard core prohibited) := by
  match prohibited, careful' with
  | [], _ => exact .ok (embeds_inl.careful careful)
  | [clause], careful' =>
      have single := List.forall_mem_singleton.mp careful'
      exact .ok (embeds_inr.careful
        (Exclusion.careful_ofParts careful (embeds_inl.careful single)))
  | _ :: _ :: _, careful' =>
      exact (madeCareful_ofAlternatives 1 careful').bind fun _ any =>
        .ok (embeds_inr.careful (Exclusion.careful_ofParts careful (embeds_inr.careful any)))

/-- Clauses that decide alone which documents match, with prohibited clauses around them. -/
theorem madeCareful_deciding {core : Core σ} (careful : Careful core)
    (careful' : ∀ c ∈ prohibited, Careful c) : MadeCareful
      (do return .inr (.inl (← guard core prohibited)) : Except Failure (Composition σ)) :=
  (madeCareful_guard careful careful').bind fun _ guarded =>
    .ok (embeds_inr.careful (embeds_inl.careful guarded))

/-- Clauses that the others only add to, with prohibited clauses around them. -/
theorem madeCareful_adding {core : Core σ} {bonus : Counted σ} (careful : Careful core)
    (careful' : ∀ c ∈ prohibited, Careful c) (adds : Careful bonus) : MadeCareful
      (do return .inr (.inr (.ofParts (← guard core prohibited) bonus)) :
        Except Failure (Composition σ)) :=
  (madeCareful_guard careful careful').bind fun _ guarded =>
    .ok (embeds_inr.careful (embeds_inr.careful (Bonus.careful_ofParts guarded adds)))

theorem careful_nothing : Careful (.inl {} : Composition σ) :=
  embeds_inl.careful (Nothing.careful _)

theorem madeCareful_composeOptional (minOptional : Nat) (careful : ∀ c ∈ optional, Careful c)
    (careful' : ∀ c ∈ prohibited, Careful c) :
    MadeCareful (composeOptional minOptional optional prohibited) := by
  rw [composeOptional]
  split
  · exact .ok careful_nothing
  · split
    · exact (madeCareful_atLeast _ careful .enclosing).bind fun _ enough =>
        madeCareful_deciding (embeds_inl.careful enough) careful'
    · exact madeCareful_deciding (embeds_inl.careful (careful_conjoin careful)) careful'

theorem madeCareful_composeRequired (minOptional : Nat) (careful : ∀ c ∈ required, Careful c)
    (careful' : ∀ c ∈ optional, Careful c) (careful'' : ∀ c ∈ prohibited, Careful c) :
    MadeCareful (composeRequired minOptional required optional prohibited) := by
  have conjoined := careful_conjoin careful
  rw [composeRequired]
  split
  · exact .ok careful_nothing
  · split
    · have all : ∀ c ∈ required ++ optional, Careful c :=
        List.forall_mem_append.mpr ⟨careful, careful'⟩
      exact madeCareful_deciding (embeds_inl.careful (Counted.careful_all _ all _)) careful''
    · split
      · refine (madeCareful_atLeast _ careful' .enclosing).bind fun c enough => ?_
        have both : ∀ p ∈ [conjoin required, c], Careful p :=
          List.forall_mem_cons.mpr ⟨conjoined, List.forall_mem_singleton.mpr enough⟩
        exact madeCareful_deciding (embeds_inr.careful (Conjunction.careful_ofParts _ both))
          careful''
      · have adding : ∀ bonus : Counted σ, Careful bonus → _ :=
          fun _ => madeCareful_adding (embeds_inl.careful conjoined) careful''
        cases optional with
        | nil => exact (madeCareful_atLeast 1 careful' .enclosing).bind adding
        | cons clause rest =>
            cases rest with
            | nil => exact adding _ (Counted.careful_one (List.forall_mem_singleton.mp careful') _)
            | cons => exact (madeCareful_atLeast 1 careful' .enclosing).bind adding

structure Minds (clauses : Clauses σ) : Prop where
  required : ∀ c ∈ clauses.required, Careful c
  optional : ∀ c ∈ clauses.optional, Careful c
  prohibited : ∀ c ∈ clauses.prohibited, Careful c

theorem Minds.compose {clauses : Clauses σ} (h : clauses.Minds) (minOptional : Nat) :
    MadeCareful (clauses.compose minOptional) := by
  rw [Clauses.compose]
  split
  · exact madeCareful_composeOptional _ h.optional h.prohibited
  · exact madeCareful_composeRequired _ h.required h.optional h.prohibited

theorem minds_empty : Minds ({} : Clauses σ) :=
  ⟨List.forall_mem_nil _, List.forall_mem_nil _, List.forall_mem_nil _⟩

theorem Minds.add {clauses : Clauses σ} (h : clauses.Minds) (role : Role) {clause : σ}
    (careful : Careful clause) : (clauses.add role clause).Minds := by
  have appended : ∀ {cs : List σ}, (∀ c ∈ cs, Careful c) → ∀ c ∈ cs ++ [clause], Careful c :=
    fun all => List.forall_mem_append.mpr ⟨all, List.forall_mem_singleton.mpr careful⟩
  cases role with
  | required => exact ⟨appended h.required, h.optional, h.prohibited⟩
  | optional => exact ⟨h.required, appended h.optional, h.prohibited⟩
  | prohibited => exact ⟨h.required, h.optional, appended h.prohibited⟩

end Clauses

end Boolean

namespace BooleanCursor

open Boolean

variable {σ : Type} [Cursor σ] {c : BooleanCursor σ}

/-- The clauses are careful, or what has been composed of them is. -/
inductive Stage.Minds : Stage σ → Prop
  | collecting {clauses : Clauses σ} (minds : clauses.Minds) : Minds (.collecting clauses)
  | composed {composition : Composition σ} (careful : Careful composition) :
      Minds (.composed composition)

def Minds (c : BooleanCursor σ) : Prop := Stage.Minds c.stage

theorem Minds.compose (h : c.Minds) : c.compose.Heeds fun composition c' =>
    c'.Minds ∧ ∀ p, composition = some p → Careful p := by
  obtain ⟨rules, rule, coordination, stage⟩ := c
  rw [BooleanCursor.compose]
  cases h with
  | composed careful =>
      refine .answered ⟨.composed careful, ?_⟩
      rintro p ⟨rfl⟩
      exact careful
  | @collecting clauses minds =>
      have made := minds.compose rules.minOptional
      dsimp only
      generalize clauses.compose rules.minOptional = composition at made ⊢
      cases made with
      | ok careful =>
          refine .answered ⟨.composed careful, ?_⟩
          rintro p ⟨rfl⟩
          exact careful
      | refused proper =>
          exact .failed ⟨.collecting Clauses.minds_empty, fun _ => no_answer⟩ proper

/-- What a call on the composition leaves of the whole. -/
theorem resume_heeds {α : Type} {o : Outcome (Composition σ) α}
    (heeds : o.Heeds fun _ p => Careful p) : (c.resume o).Heeds fun _ c' => c'.Minds := by
  refine resume_leaves heeds fun _ p c' careful stage => ?_
  rw [Minds, stage]
  exact .composed careful

theorem Minds.onward (h : c.Minds) (move : Move) :
    (c.compose.andThen fun composition c => c.resume (move.make composition)).Heeds
      fun _ c' => c'.Minds :=
  h.compose.bind (fun _ left => left.1) fun p _ left => resume_heeds ((left.2 p rfl).move move)

theorem heeding_minds : Heeding (Minds (σ := σ)) where
  move := by
    intro c move h
    cases move with
    | next => exact h.onward .next
    | seek t =>
        show (c.seek t).Heeds _
        rw [seek]
        split
        · exact .failed h (by simp)
        · exact h.onward (.seek t)
  score := by
    intro c h
    show c.score.Heeds _
    rw [score]
    refine h.compose.bind (fun _ left => left.1) fun p c' left => ?_
    refine Leaves.bind (resume_heeds (left.2 p rfl).score) (fun _ minds => minds)
      fun sum c'' minds => ?_
    rw [Coordination.factor]
    split
    · exact .answered minds
    · exact .failed minds (by simp)

theorem minds_create {rule : CoordRule} {rules : ClauseRules} (made : create rule rules = .ok c) :
    c.Minds := by
  rw [create, ClauseRules.validate] at made
  split at made
  · exact absurd made Outcome.error_ne_ok
  · obtain rfl := Except.ok.inj made
    exact .collecting Clauses.minds_empty

theorem Minds.add (h : c.Minds) {role : Role} {clause : σ} (careful : Careful clause)
    {c' : BooleanCursor σ} (added : c.add role clause = .ok c') : c'.Minds := by
  obtain ⟨rules, rule, coordination, stage⟩ := c
  rw [BooleanCursor.add] at added
  cases h with
  | composed => exact absurd added Outcome.error_ne_ok
  | collecting minds =>
      dsimp only at added
      split at added
      · exact absurd added Outcome.error_ne_ok
      · obtain rfl := Except.ok.inj added
        exact .collecting (minds.add role careful)

end BooleanCursor

namespace Node

variable {σ : Type} [Cursor σ] {part : σ → Prop} {n : Node σ}

/-- A careful cursor. A threshold keeps count, and a boolean search stays careful if it is given
further clauses that are. -/
def Minds : Node σ → Prop
  | threshold c => c.Minds
  | boolean c => c.Minds
  | n => Careful n

theorem Minds.careful (h : n.Minds) : Careful n := by
  cases n with
  | threshold c => exact embeds_threshold.careful (Threshold.Minds.careful h)
  | boolean c => exact embeds_boolean.careful ⟨_, BooleanCursor.heeding_minds, h⟩
  | _ => exact h

theorem Minds.move (h : n.Minds) (move : Move) : (move.make n).state.Minds := by
  obtain ⟨-, kept⟩ := (h.careful.move move).exists
  cases n with
  | threshold c =>
      obtain ⟨-, minds⟩ := (Threshold.heeding_minds.move move h).exists
      rw [embeds_threshold.make]
      exact minds
  | boolean c =>
      obtain ⟨-, minds⟩ := (BooleanCursor.heeding_minds.move move h).exists
      rw [embeds_boolean.make]
      exact minds
  | _ => cases move <;> exact kept

theorem Minds.score (h : n.Minds) : (Cursor.score n).state.Minds := by
  obtain ⟨-, kept⟩ := h.careful.score.exists
  cases n with
  | threshold c =>
      obtain ⟨-, minds⟩ := (Threshold.heeding_minds.score h).exists
      exact minds
  | boolean c =>
      obtain ⟨-, minds⟩ := (BooleanCursor.heeding_minds.score h).exists
      exact minds
  | _ => exact kept

theorem Grown.minds (grown : Grown part n) (parts : ∀ {p}, part p → Careful p) : n.Minds := by
  have each : ∀ {ps : List σ}, (∀ p ∈ ps, part p) → ∀ p ∈ ps, Careful p :=
    fun grown p inside => parts (grown p inside)
  induction grown with
  | posting list boost => exact embeds_posting.careful (PostingCursor.careful _)
  | nothing => exact embeds_nothing.careful (Nothing.careful _)
  | conjunction rule grown =>
      exact embeds_conjunction.careful (Conjunction.careful_ofParts rule (each grown))
  | threshold made grown => exact Threshold.minds_ofAlternatives made (each grown)
  | exclusion grown grown' =>
      exact embeds_exclusion.careful (Exclusion.careful_ofParts (parts grown) (parts grown'))
  | bonus grown grown' =>
      exact embeds_bonus.careful (Bonus.careful_ofParts (parts grown) (parts grown'))
  | one tally grown => exact embeds_counted.careful (Counted.careful_one (parts grown) tally)
  | all rule tally grown =>
      exact embeds_counted.careful (Counted.careful_all rule (each grown) tally)
  | atLeast made grown =>
      exact embeds_counted.careful (Counted.careful_atLeast made (each grown))
  | boolean made => exact BooleanCursor.minds_create made
  | add _ grown' added ih => exact BooleanCursor.Minds.add ih (parts grown') added
  | faulty plan grown => exact embeds_faulty.careful (Faulty.careful (parts grown))
  | move move _ ih => exact ih.move move
  | score _ ih => exact ih.score

end Node

namespace Tree

theorem Grown.careful {height : Nat} {n : Tree height} (grown : n.Grown) : Careful n := by
  induction height with
  | zero => exact grown.elim
  | succ height ih => exact (Node.Grown.minds grown ih).careful

/-- The count of a threshold never drifts from its queue, whatever its alternatives are, whatever
calls there have been, in or out of order, and whichever of them have failed. So a count of zero is
never lowered, whatever would be reported then, and the empty queue is not asked for a score. -/
theorem live_eq_size {height : Nat} {T : Threshold (Tree height)}
    (grown : Node.Grown Grown (.threshold T)) :
    (∀ f, T.stage = .running f → f.live = f.queue.size) ∧
    (∀ overflow, T.nextChecked overflow = T.next ∧
      ∀ t, T.seekChecked overflow t = T.seek t) ∧
    (∀ move : Move, (move.make T).answer ≠ .error .scoreOfEmptyQueue) ∧
    (Cursor.score T).answer ≠ .error .scoreOfEmptyQueue := by
  have minds : T.Minds := Node.Grown.minds grown Grown.careful
  refine ⟨fun f running => ?_, fun overflow => ⟨minds.nextChecked_eq overflow, fun t => ?_⟩,
    fun move empty => ?_, fun empty => ?_⟩
  · obtain ⟨-, stage⟩ := minds
    rw [running] at stage
    cases stage with
    | running counts => exact (CursorQueue.Keeps.size_eq counts).symm
  · exact minds.seekChecked_eq overflow t
  · exact (minds.careful.move move).fails_of_error empty rfl
  · exact minds.careful.score.fails_of_error empty rfl

/-- One alternative has a single document, and one fails when it is moved past its first one. -/
def unsteady : List (Tree 2) :=
  [Node.posting (PostingList.cursor ⟨#[⟨10, 1⟩], by decide, by decide⟩ 1),
    Node.faulty
      { cursor := Node.posting (PostingList.cursor ⟨#[⟨10, 1⟩, ⟨12, 1⟩], by decide, by decide⟩ 1)
        plan :=
          { next := fun k => if k = 2 then some ⟨.other, "unavailable"⟩ else none
            seek := fun _ => none
            score := fun _ => none } },
    Node.posting (PostingList.cursor ⟨#[⟨12, 1⟩], by decide, by decide⟩ 1)]

/-- The failure is met when one alternative has been dropped: two are left, and counted. -/
theorem live_eq_size_unsteady : ∃ T f, Threshold.ofAlternatives unsteady 2 = .ok T ∧
    (Cursor.next T).answer = .error (.reported ⟨.other, "unavailable"⟩) ∧
    (Cursor.next T).state.stage = .running f ∧ f.live = 2 ∧ f.queue.size = 2 ∧
    (Cursor.next (Cursor.next T).state).answer ≠ .error .scoreOfEmptyQueue := by
  let T : Threshold (Tree 2) := { needed := 2, arity := 3, stage := .waiting unsteady }
  have made : Threshold.ofAlternatives unsteady 2 = .ok T := rfl
  have parts : ∀ a ∈ unsteady, Grown a :=
    List.forall_mem_cons.mpr ⟨Node.Grown.posting _ _, List.forall_mem_cons.mpr
      ⟨Node.Grown.faulty _ (Node.Grown.posting _ _),
        List.forall_mem_singleton.mpr (Node.Grown.posting _ _)⟩⟩
  have grown : Node.Grown Grown (.threshold (Cursor.next T).state) :=
    .move .next (.threshold made parts)
  obtain ⟨counts, -, heeds, -⟩ := live_eq_size grown
  have failed : (Cursor.next T).answer = .error (.reported ⟨.other, "unavailable"⟩) := by
    decide +kernel
  have two : (match (Cursor.next T).state.stage with
      | .waiting _ => 0
      | .running f => f.live) = 2 := by
    decide +kernel
  cases stage : (Cursor.next T).state.stage with
  | waiting =>
      rw [stage] at two
      contradiction
  | running f =>
      rw [stage] at two
      exact ⟨T, f, made, failed, stage, two, (counts f stage).symm.trans two, heeds .next⟩

end Tree

end Retrieval
