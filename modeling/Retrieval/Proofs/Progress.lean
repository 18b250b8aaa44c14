import Retrieval.Proofs.Finality

/-!
# Cursors that get on

Every loop over a cursor relies on its moves to get on: a move that finds a document uses up one of
the moves that are left, unless the cursor was sent to a target that it had reached already. No call
gains moves. This does not depend on what a cursor promises: it holds of all cursors in all states,
also after failures and after the last document, and it is why no loop runs past its bound.

What a call leaves is told by a condition on its answer, if it gives one, and on the state, together
with the failures that it may end in. Going on after a call needs no more than that.
-/

namespace Retrieval

namespace Outcome

variable {σ τ α β : Type} {fails : Failure → Prop} {post : Option α → σ → Prop} {o : Outcome σ α}

/-- The call leaves what `post` tells. If it fails, then by one of the given failures. -/
inductive Leaves (fails : Failure → Prop) (post : Option α → σ → Prop) : Outcome σ α → Prop
  | answered {a : α} {state : σ} {marks : Marks} (h : post (some a) state) :
      Leaves fails post ⟨.ok a, state, marks⟩
  | failed {failure : Failure} {state : σ} {marks : Marks} (h : post none state)
      (allowed : fails failure) : Leaves fails post ⟨.error failure, state, marks⟩

/-- The call ends as `post` tells, and no loop in it runs past its bound. -/
abbrev Ends (post : Option α → σ → Prop) (o : Outcome σ α) : Prop :=
  Leaves (· ≠ .stalled) post o

theorem Leaves.imp {post' : Option α → σ → Prop} (leaves : Leaves fails post o)
    (weaken : ∀ a state, post a state → post' a state) : Leaves fails post' o := by
  cases leaves with
  | answered h => exact .answered (weaken _ _ h)
  | failed h allowed => exact .failed (weaken _ _ h) allowed

theorem Leaves.marking (leaves : Leaves fails post o) (marks : Marks) :
    Leaves fails post (o.marking marks) := by
  cases leaves with
  | answered h => exact .answered h
  | failed h allowed => exact .failed h allowed

theorem Leaves.within {whole : σ → τ} {post' : Option α → τ → Prop} (leaves : Leaves fails post o)
    (seen : ∀ a state, post a state → post' a (whole state)) :
    Leaves fails post' (o.within whole) := by
  cases leaves with
  | answered h => exact .answered (seen _ _ h)
  | failed h allowed => exact .failed (seen _ _ h) allowed

/-- What is left after a failure, and what comes after an answer. -/
theorem Leaves.bind {kept : σ → τ} {next : α → σ → Outcome τ β} {post' : Option β → τ → Prop}
    (leaves : Leaves fails post o) (failed : ∀ state, post none state → post' none (kept state))
    (answered : ∀ a state, post (some a) state → Leaves fails post' (next a state)) :
    Leaves fails post' (o.bind kept next) := by
  cases leaves with
  | answered h => exact (answered _ _ h).marking _
  | failed h allowed => exact .failed (failed _ h) allowed

theorem Leaves.map {f : α → β} {post' : Option β → σ → Prop} (leaves : Leaves fails post o)
    (seen : ∀ a state, post a state → post' (a.map f) state) : Leaves fails post' (o.map f) := by
  cases leaves with
  | answered h => exact .answered (seen _ _ h)
  | failed h allowed => exact .failed (seen _ _ h) allowed

theorem Leaves.fails_of_error {failure : Failure} (leaves : Leaves fails post o)
    (failed : o.answer = .error failure) : fails failure := by
  cases leaves with
  | answered => nomatch failed
  | failed _ allowed => exact Except.error.inj failed ▸ allowed

theorem Leaves.of_ok {a : α} (leaves : Leaves fails post o) (answered : o.answer = .ok a) :
    post (some a) o.state := by
  cases leaves with
  | answered h => exact Except.ok.inj answered ▸ h
  | failed => nomatch answered

theorem Leaves.exists (leaves : Leaves fails post o) : ∃ a, post a o.state := by
  cases leaves with
  | answered h => exact ⟨_, h⟩
  | failed h => exact ⟨_, h⟩

/-- A call that failed has given no answer. -/
theorem no_answer {a : α} {p : Prop} (answered : none = some a) : p := nomatch answered

/-- A move that answered `false` has found no document. -/
theorem not_found {p : Prop} (found : some false = some true) : p := nomatch found

end Outcome

open Outcome

namespace Cursor

/-- The move is a seek to a target that is at or before the document. -/
def Move.Reached : Move → DocId → Prop
  | next, _ => False
  | seek target, d => target ≤ d

variable {σ τ : Type} [Cursor σ] [Cursor τ] {c c' : σ}

/-- How a move gets on from one cursor to another. -/
structure Uses (move : Move) (c : σ) (found : Option Bool) (c' : σ) : Prop where
  moves : movesLeft c' ≤ movesLeft c
  found : found = some true →
    movesLeft c' < movesLeft c ∨ move.Reached (doc c) ∧ move.Reached (doc c')

/-- Cursors whose moves get on, whatever calls there are. -/
structure Progressing (good : σ → Prop) : Prop where
  move : ∀ {c} (move : Move), good c →
    (move.make c).Ends fun found c' => good c' ∧ Uses move c found c'
  score : ∀ {c}, good c → (Cursor.score c).Ends fun _ c' => good c' ∧ movesLeft c' ≤ movesLeft c

/-- A cursor whose moves get on, now and after any calls. -/
def Progresses (c : σ) : Prop := ∃ good : σ → Prop, Progressing good ∧ good c

theorem progressing_progresses : Progressing (Progresses (σ := σ)) where
  move := fun move ⟨_, kept, h⟩ =>
    (kept.move move h).imp fun _ _ left => ⟨⟨_, kept, left.1⟩, left.2⟩
  score := fun ⟨_, kept, h⟩ => (kept.score h).imp fun _ _ left => ⟨⟨_, kept, left.1⟩, left.2⟩

theorem Progresses.move (h : Progresses c) (move : Move) :
    (move.make c).Ends fun found c' => Progresses c' ∧ Uses move c found c' :=
  progressing_progresses.move move h

theorem Progresses.next (h : Progresses c) :
    (Cursor.next c).Ends fun found c' => Progresses c' ∧ Uses .next c found c' :=
  h.move .next

theorem Progresses.seek (h : Progresses c) (t : DocId) :
    (Cursor.seek c t).Ends fun found c' => Progresses c' ∧ Uses (.seek t) c found c' :=
  h.move (.seek t)

theorem Progresses.score (h : Progresses c) :
    (Cursor.score c).Ends fun _ c' => Progresses c' ∧ movesLeft c' ≤ movesLeft c :=
  progressing_progresses.score h

/-- A move to the next document uses up a move if it finds one. -/
theorem Uses.next_lt (uses : Uses .next c (some true) c') : movesLeft c' < movesLeft c :=
  (uses.found rfl).resolve_right fun reached => reached.1

/-- So does a seek to a target ahead. -/
theorem Uses.seek_lt {t : DocId} (uses : Uses (.seek t) c (some true) c') (ahead : doc c < t) :
    movesLeft c' < movesLeft c :=
  (uses.found rfl).resolve_right fun reached => Int32.not_le.mpr ahead reached.1

/-- What holds of a part that answers for the whole. -/
theorem Embeds.progresses {whole : σ → τ} (embeds : Embeds whole) (h : Progresses c) :
    Progresses (whole c) := by
  refine ⟨fun w => ∃ c, w = whole c ∧ Progresses c, ⟨?_, ?_⟩, c, rfl, h⟩
  · rintro _ move ⟨c, rfl, h⟩
    rw [embeds.make]
    refine (h.move move).within fun found c' left => ⟨⟨c', rfl, left.1⟩, ?_, fun some => ?_⟩
    · rw [embeds.movesLeft, embeds.movesLeft]
      exact left.2.moves
    · rw [embeds.movesLeft, embeds.movesLeft, embeds.doc, embeds.doc]
      exact left.2.found some
  · rintro _ ⟨c, rfl, h⟩
    rw [embeds.score]
    refine h.score.within fun _ c' left => ⟨⟨c', rfl, left.1⟩, ?_⟩
    rw [embeds.movesLeft, embeds.movesLeft]
    exact left.2

/-- A cursor that may have been given up. -/
def SideProgresses (side : Option σ) : Prop := ∀ c ∈ side, Progresses c

theorem sideProgresses_none : SideProgresses (none : Option σ) := nofun

theorem sideProgresses_some (h : Progresses c) : SideProgresses (some c) := by
  rintro _ ⟨rfl⟩
  exact h

end Cursor

open Cursor

theorem Nothing.progresses (c : Nothing) : Progresses c := by
  refine ⟨fun _ => True, ⟨fun move _ => ?_, fun _ => ?_⟩, trivial⟩
  · cases move <;> exact .answered ⟨trivial, Nat.le_refl _, not_found⟩
  · exact .failed ⟨trivial, Nat.le_refl _⟩ (by simp)

namespace PostingCursor

variable {c : PostingCursor}

theorem step_uses (c : PostingCursor) : Uses .next c (some (!c.step.isExhausted)) c.step := by
  have step : c.step.movesLeft ≤ c.movesLeft ∧
      (c.step.isExhausted = false → c.step.movesLeft < c.movesLeft) := by
    simp only [PostingCursor.step, PostingCursor.movesLeft, isExhausted]
    split
    · split
      · simp_all
        omega
      · simp_all
    · simp_all
  refine ⟨step.1, fun found => .inl (step.2 ?_)⟩
  simpa using Option.some.inj found

theorem jump_uses (c : PostingCursor) (t : DocId) :
    Uses (.seek t) c (some (!(c.jump t).isExhausted)) (c.jump t) := by
  by_cases inside : c.place < c.list.size
  · obtain ⟨⟨le, bounded⟩, -, after⟩ := c.list.findFrom_spec t (Nat.le_of_lt inside)
    have jumped : c.jump t = .atPlace c.list c.boost (c.list.findFrom c.place t) := by
      rw [jump, if_pos inside, atPlace]
    have left : Cursor.movesLeft (c.jump t) = c.list.size - c.list.findFrom c.place t := by
      rw [jumped, movesLeft_atPlace, PostingList.size]
    have before : Cursor.movesLeft c = c.list.size - c.place + if c.started then 0 else 1 := rfl
    refine ⟨by omega, fun found => ?_⟩
    have there : c.list.findFrom c.place t < c.list.postings.size := by
      rw [jumped, isExhausted_atPlace] at found
      simpa using found
    by_cases stays : c.started = true ∧ c.list.findFrom c.place t = c.place
    · have same : c.jump t = c := by
        rw [jumped, stays.2, atPlace, ← stays.1]
      have reached : t ≤ Cursor.doc (c.jump t) := by
        rw [jumped]
        show t ≤ (atPlace c.list c.boost _).doc
        rw [doc_atPlace there]
        exact after _ there (Nat.le_refl _)
      exact .inr ⟨same ▸ reached, reached⟩
    · refine .inl ?_
      rw [left, before]
      split
      · next started =>
        have moved : c.list.findFrom c.place t ≠ c.place := fun same => stays ⟨started, same⟩
        omega
      · omega
  · have jumped : c.jump t = { c with started := true } := by rw [jump, if_neg inside]
    rw [jumped]
    refine ⟨by simp [Cursor.movesLeft, PostingCursor.movesLeft], fun found => ?_⟩
    simp [isExhausted, Nat.not_lt.mp inside] at found

/-- A place in a list gets on, wherever it is. -/
theorem progresses (c : PostingCursor) : Progresses c := by
  refine ⟨fun _ => True, ⟨fun {c} move _ => ?_, fun {c} _ => ?_⟩, trivial⟩
  · cases move with
    | next => exact .answered ⟨trivial, c.step_uses⟩
    | seek t =>
        show (c.seek t).Ends _
        rw [seek]
        split
        · exact .failed ⟨trivial, Nat.le_refl _, no_answer⟩ (by simp)
        · exact .answered ⟨trivial, c.jump_uses t⟩
  · show (c.score).Ends _
    rw [score]
    split
    · split
      · exact .answered ⟨trivial, Nat.le_refl _⟩
      · exact .failed ⟨trivial, Nat.le_refl _⟩ (by simp)
    · exact .failed ⟨trivial, Nat.le_refl _⟩ (by simp)

end PostingCursor

/-- A cursor that fails on purpose gets on as the one below it does. -/
theorem Faulty.progresses {σ : Type} [Cursor σ] {c : Faulty σ} (h : Progresses c.cursor) :
    Progresses c := by
  refine ⟨fun c => Progresses c.cursor, ⟨fun {c} move h => ?_, fun {c} h => ?_⟩, h⟩
  · have attempt : ∀ (c' : Faulty σ) (fault : Option Failure.Report), c'.cursor = c.cursor →
        (c'.attempt fault move.make).Ends fun found c' =>
          Progresses c'.cursor ∧ Uses move c found c' := by
      intro c' fault same
      obtain ⟨report, faulted⟩ | passed := c'.attempt_cases fault move.make
      · rw [faulted]
        refine .failed ⟨same ▸ h, ?_, no_answer⟩ (by simp)
        exact Nat.le_of_eq (congrArg (Cursor.movesLeft (σ := σ)) same)
      · rw [passed, same]
        exact (h.move move).within fun _ _ left => ⟨left.1, left.2.moves, left.2.found⟩
    cases move with
    | next => exact attempt { c with nexts := c.nexts + 1 } _ rfl
    | seek t => exact attempt { c with seeks := c.seeks + 1 } _ rfl
  · obtain ⟨report, faulted⟩ | passed :=
      { c with scores := c.scores + 1 }.attempt_cases (c.plan.score (c.scores + 1)) Cursor.score
    · rw [show Cursor.score c = _ from faulted]
      exact .failed ⟨h, Nat.le_refl _⟩ (by simp)
    · rw [show Cursor.score c = _ from passed]
      exact h.score.within fun _ _ left => left

namespace Counted

variable {σ : Type} [Cursor σ]

theorem make_group (c : Counted σ) (move : Move) :
    move.make c = (move.make c.group).within fun group => { c with group } := by
  cases move <;> rfl

/-- Counting does not move the group. -/
theorem progresses {c : Counted σ} (h : Progresses c.group) : Progresses c := by
  refine ⟨fun c => Progresses c.group, ⟨fun {c} move h => ?_, fun {c} h => ?_⟩, h⟩
  · rw [make_group]
    exact (h.move move).within fun _ _ left => ⟨left.1, left.2.moves, left.2.found⟩
  · show (score c).Ends _
    rw [score]
    exact (h.score.within fun _ _ left => left).marking _

theorem progresses_one {c : σ} (h : Progresses c) (tally : Tally) : Progresses (one c tally) :=
  progresses (embeds_one.progresses h)

end Counted

namespace Bonus

variable {ρ ο : Type} [Cursor ρ] [Cursor ο] {c : Bonus ρ ο}

structure Going (c : Bonus ρ ο) : Prop where
  required : Progresses c.required
  optional : SideProgresses c.optional

omit [Cursor ρ] in
theorem make_required [Cursor ρ] (c : Bonus ρ ο) (move : Move) :
    move.make c = (move.make c.required).within fun required => { c with required } := by
  cases move <;> rfl

theorem Going.catchUp (h : c.Going) (d : DocId) : (c.catchUp d).Ends fun _ c' =>
    c'.Going ∧ Cursor.movesLeft c' ≤ Cursor.movesLeft c := by
  obtain ⟨required, optional, fresh⟩ := c
  cases optional with
  | none => exact .answered ⟨h, Nat.le_refl _⟩
  | some optional =>
      simp only [Bonus.catchUp]
      split
      · have seeks := (h.optional optional rfl).seek d
        refine seeks.bind (fun optional left => ?_) fun found optional left => ?_
        · exact ⟨⟨h.required, sideProgresses_some left.1⟩, Nat.add_le_add_left left.2.moves _⟩
        · cases found with
          | true =>
              exact .answered
                ⟨⟨h.required, sideProgresses_some left.1⟩, Nat.add_le_add_left left.2.moves _⟩
          | false =>
              exact .answered
                ⟨⟨h.required, sideProgresses_none⟩, Nat.add_le_add_left (Nat.zero_le _) _⟩
      · exact .answered ⟨h, Nat.le_refl _⟩

theorem Going.addOptional (h : c.Going) (d : DocId) (v : Score) :
    (c.addOptional d v).Ends fun _ c' => c'.Going ∧ Cursor.movesLeft c' ≤ Cursor.movesLeft c := by
  obtain ⟨required, optional, fresh⟩ := c
  cases optional with
  | none => exact .answered ⟨h, Nat.le_refl _⟩
  | some optional =>
      simp only [Bonus.addOptional]
      split
      · have scores : ((Cursor.score optional).map (v + ·)).Ends fun _ o =>
            Progresses o ∧ Cursor.movesLeft o ≤ Cursor.movesLeft optional :=
          (h.optional optional rfl).score.map fun _ _ left => left
        exact scores.within fun _ optional left =>
          ⟨⟨h.required, sideProgresses_some left.1⟩, Nat.add_le_add_left left.2 _⟩
      · exact .answered ⟨h, Nat.le_refl _⟩

theorem progressing_going : Progressing (Going (ρ := ρ) (ο := ο)) where
  move := by
    intro c move h
    rw [make_required]
    refine (h.required.move move).within fun found required left =>
      ⟨⟨left.1, h.optional⟩, Nat.add_le_add_right left.2.moves _, fun some => ?_⟩
    exact (left.2.found some).imp_left fun fewer => Nat.add_lt_add_right fewer _
  score := by
    intro c h
    show (Bonus.score c).Ends _
    rw [Bonus.score]
    have scored : ∀ {required : ρ}, Progresses required →
        Cursor.movesLeft required ≤ Cursor.movesLeft c.required →
        ({ c with required } : Bonus ρ ο).Going ∧
          Cursor.movesLeft ({ c with required } : Bonus ρ ο) ≤ Cursor.movesLeft c :=
      fun going fewer => ⟨⟨going, h.optional⟩, Nat.add_le_add_right fewer _⟩
    refine h.required.score.bind (fun required left => scored left.1 left.2)
      fun v required left => ?_
    obtain ⟨going, fewer⟩ := scored left.1 left.2
    refine (going.catchUp _).bind (fun c' left' => ⟨left'.1, Nat.le_trans left'.2 fewer⟩)
      fun _ c' left' => ?_
    exact (left'.1.addOptional _ v).imp fun _ _ left'' =>
      ⟨left''.1, Nat.le_trans left''.2 (Nat.le_trans left'.2 fewer)⟩

theorem progresses_ofParts {required : ρ} {optional : ο} (going : Progresses required)
    (going' : Progresses optional) : Progresses (ofParts required optional) :=
  ⟨Going, progressing_going, going, sideProgresses_some going'⟩

end Bonus

namespace Exclusion

variable {ρ ε : Type} [Cursor ρ] [Cursor ε]

structure Going (c : Exclusion ρ ε) : Prop where
  required : SideProgresses c.required
  excluded : SideProgresses c.excluded

/-- Looking whether a document is excluded moves the excluded side at most. -/
theorem judge_ends {excluded : ε} (h : Progresses excluded) (d : DocId) :
    (judge excluded d).Ends fun _ side =>
      SideProgresses side ∧ sideMoves side ≤ Cursor.movesLeft excluded := by
  rw [judge]
  split
  · exact .answered ⟨sideProgresses_some h, Nat.le_refl _⟩
  · split
    · refine (h.seek d).bind (fun excluded left => ⟨sideProgresses_some left.1, left.2.moves⟩)
        fun found excluded left => ?_
      cases found with
      | true => exact .answered ⟨sideProgresses_some left.1, left.2.moves⟩
      | false => exact .answered ⟨sideProgresses_none, Nat.zero_le _⟩
    · exact .answered ⟨sideProgresses_some h, Nat.le_refl _⟩

/-- Stepping over excluded documents uses up a move of the required side each time. -/
theorem pass_ends (bound : Nat) {required : ρ} {excluded : Option ε} (h : Progresses required)
    (h' : SideProgresses excluded) (enough : Cursor.movesLeft required < bound) :
    (pass bound required excluded).Ends fun found c' => c'.Going ∧
      Cursor.movesLeft c' ≤ Cursor.movesLeft required + sideMoves excluded ∧
      (found = some true → Cursor.movesLeft c' < Cursor.movesLeft required + sideMoves excluded ∨
        Cursor.doc c' = Cursor.doc required) := by
  induction bound generalizing required excluded with
  | zero => exact absurd enough (Nat.not_lt_zero _)
  | succ bound ih =>
      cases excluded with
      | none =>
          exact .answered ⟨⟨sideProgresses_some h, h'⟩, Nat.le_refl _, fun _ => .inr rfl⟩
      | some excluded =>
          rw [pass]
          refine (judge_ends (h' excluded rfl) _).bind (fun side left => ?_)
            fun isExcluded side left => ?_
          · exact ⟨⟨sideProgresses_some h, left.1⟩, Nat.add_le_add_left left.2 _, no_answer⟩
          cases isExcluded with
          | false =>
              exact .answered ⟨⟨sideProgresses_some h, left.1⟩, Nat.add_le_add_left left.2 _,
                fun _ => .inr rfl⟩
          | true =>
              rw [if_pos rfl]
              refine h.next.bind (fun required' left' => ?_) fun found required' left' => ?_
              · exact ⟨⟨sideProgresses_some left'.1, left.1⟩,
                  Nat.add_le_add left'.2.moves left.2, no_answer⟩
              cases found with
              | false =>
                  refine .answered ⟨⟨sideProgresses_none, left.1⟩, ?_, not_found⟩
                  exact Nat.add_le_add (Nat.zero_le _) left.2
              | true =>
                  have used := left'.2.next_lt
                  have spent := left.2
                  refine (ih left'.1 left.1 (by omega)).imp fun found c' left'' => ?_
                  obtain ⟨going, fewer, -⟩ := left''
                  have total : Cursor.movesLeft c' <
                      Cursor.movesLeft required + sideMoves (some excluded) := by
                    show _ < _ + Cursor.movesLeft excluded
                    omega
                  exact ⟨going, Nat.le_of_lt total, fun _ => .inl total⟩

/-- What a move from one place of an exclusion leaves. -/
def Onward (move : Move) (required : Option ρ) (excluded : Option ε) (found : Option Bool)
    (c' : Exclusion ρ ε) : Prop :=
  c'.Going ∧ Uses move (begun required excluded) found c'

theorem follow_ends {required : ρ} {excluded : Option ε} (h : Progresses required)
    (h' : SideProgresses excluded) (move : Move) :
    (follow excluded (move.make required)).Ends (Onward move (some required) excluded) := by
  refine (h.move move).bind (fun required' left => ?_) fun found required' left => ?_
  · exact ⟨⟨sideProgresses_some left.1, h'⟩, Nat.add_le_add_right left.2.moves _, no_answer⟩
  cases found with
  | false =>
      refine .answered ⟨⟨sideProgresses_none, h'⟩, ?_, not_found⟩
      exact Nat.add_le_add_right (Nat.zero_le _) _
  | true =>
      have moves := left.2.moves
      have found' := left.2.found rfl
      refine (pass_ends _ left.1 h' (Nat.lt_succ_self _)).imp fun found c' left' => ?_
      obtain ⟨going, fewer, stays⟩ := left'
      have total : Cursor.movesLeft (begun (some required) excluded) =
        Cursor.movesLeft required + sideMoves excluded := rfl
      refine ⟨going, by omega, fun some => ?_⟩
      obtain less | same := stays some
      · exact .inl (by omega)
      · obtain less | ⟨reached, reached'⟩ := found'
        · exact .inl (by omega)
        · exact .inr ⟨reached, same ▸ reached'⟩

theorem begun_ends {required : Option ρ} {excluded : Option ε} (h : SideProgresses required)
    (h' : SideProgresses excluded) (move : Move) :
    (move.make (begun required excluded)).Ends (Onward move required excluded) := by
  cases required with
  | none =>
      have stays : move.make (begun none excluded) =
          .done (begun (none : Option ρ) excluded) false := by
        cases move <;> cases excluded <;> rfl
      rw [stays]
      exact .answered ⟨⟨h, h'⟩, Nat.le_refl _, not_found⟩
  | some required =>
      have going := h required rfl
      cases move with
      | next =>
          rw [Move.make, next_begun]
          exact follow_ends going h' .next
      | seek t =>
          cases excluded with
          | some excluded =>
              rw [Move.make, seek_begun_some]
              exact follow_ends going h' (.seek t)
          | none =>
              rw [Move.make, seek_begun_none]
              refine (going.seek t).within fun found required' left => ⟨⟨?_, h'⟩, ?_, ?_⟩
              · exact sideProgresses_some left.1
              · exact left.2.moves
              · exact left.2.found

omit [Cursor ρ] in
/-- The first move of the excluded side leaves the required side alone. -/
theorem start_ends [Cursor ρ] {c : Exclusion ρ ε} (h : c.Going) (move : Move) :
    (c.start move.make).Ends fun _ c' => ∃ excluded, c' = begun c.required excluded ∧
      SideProgresses excluded ∧ sideMoves excluded ≤ sideMoves c.excluded := by
  obtain ⟨required, excluded, fresh⟩ := c
  rw [start]
  split
  · next excluded' _ same =>
    obtain rfl : excluded = some excluded' := same
    refine ((h.excluded excluded' rfl).move move).bind (fun excluded left => ?_)
      fun found excluded left => ?_
    · exact ⟨_, rfl, sideProgresses_some left.1, left.2.moves⟩
    · cases found with
      | true => exact .answered ⟨_, rfl, sideProgresses_some left.1, left.2.moves⟩
      | false => exact .answered ⟨_, rfl, sideProgresses_none, Nat.zero_le _⟩
  · exact .answered ⟨_, rfl, h.excluded, Nat.le_refl _⟩

theorem progressing_going : Progressing (Going (ρ := ρ) (ε := ε)) where
  move := by
    intro c move h
    -- What comes after the start is the same move, now of an exclusion that has begun.
    have onward : ∀ {excluded : Option ε}, SideProgresses excluded →
        sideMoves excluded ≤ sideMoves c.excluded → (move.make (begun c.required excluded)).Ends
          fun found c' => c'.Going ∧ Uses move c found c' := by
      intro excluded h' fewer
      refine (begun_ends h.required h' move).imp fun found c' left => ⟨left.1, ?_, fun some => ?_⟩
      · exact Nat.le_trans left.2.moves (Nat.add_le_add_left fewer _)
      · exact (left.2.found some).imp_left fun less =>
          Nat.lt_of_lt_of_le less (Nat.add_le_add_left fewer _)
    cases move with
    | next =>
        show (Exclusion.next c).Ends _
        rw [Exclusion.next]
        refine (start_ends h .next).bind ?_ ?_
        · rintro _ ⟨excluded, rfl, h', fewer⟩
          exact ⟨⟨h.required, h'⟩, Nat.add_le_add_left fewer _, no_answer⟩
        · rintro _ _ ⟨excluded, rfl, h', fewer⟩
          have ends := onward h' fewer
          change (Exclusion.next (begun c.required excluded)).Ends _ at ends
          rwa [Exclusion.next, start_begun, Outcome.andThen_done] at ends
    | seek t =>
        show (Exclusion.seek c t).Ends _
        rw [Exclusion.seek]
        refine (start_ends h (.seek t)).bind ?_ ?_
        · rintro _ ⟨excluded, rfl, h', fewer⟩
          exact ⟨⟨h.required, h'⟩, Nat.add_le_add_left fewer _, no_answer⟩
        · rintro _ _ ⟨excluded, rfl, h', fewer⟩
          have ends := onward h' fewer
          change (Exclusion.seek (begun c.required excluded) t).Ends _ at ends
          rwa [Exclusion.seek, start_begun, Outcome.andThen_done] at ends
  score := by
    intro c h
    obtain ⟨required, excluded, fresh⟩ := c
    cases required with
    | none => exact .failed ⟨h, Nat.le_refl _⟩ (by simp)
    | some required =>
        show ((Cursor.score required).within fun required =>
          (⟨some required, excluded, fresh⟩ : Exclusion ρ ε)).Ends _
        refine (h.required required rfl).score.within fun _ required left => ?_
        exact ⟨⟨sideProgresses_some left.1, h.excluded⟩, Nat.add_le_add_right left.2 _⟩

theorem progresses_ofParts {required : ρ} {excluded : ε} (going : Progresses required)
    (going' : Progresses excluded) : Progresses (ofParts required excluded) :=
  ⟨Going, progressing_going, sideProgresses_some going, sideProgresses_some going'⟩

end Exclusion

end Retrieval
