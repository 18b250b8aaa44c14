import Retrieval.Proofs.Faults
import Retrieval.Proofs.Terms

/-!
# A posting list behind faults

A call on a source either fails and has not reached the posting list, or it is the call on the list.
So whatever has been called and has failed, the place in the list is where the answered calls have
led it, and what is known of posting cursors is known of sources.
-/

namespace Retrieval

open Cursor Outcome

def FaultPlan.failingNext (number : Nat) : FaultPlan where
  next k := if k = number then some ⟨.other, "unavailable"⟩ else none
  seek _ := none
  score _ := none

/-- A term to be searched for, and the plan by which calls fail, if they do. -/
structure Source where
  term : TermQuery
  plan : Option FaultPlan

namespace Source

def cursor : Source → PostingCursor ⊕ Faulty PostingCursor
  | ⟨term, none⟩ => .inl term.cursor
  | ⟨term, some plan⟩ => .inr { cursor := term.cursor, plan }

def prospect (s : Source) : Prospect := s.term.prospect

/-- No seek is planned to fail. -/
def Seekable (s : Source) : Prop := ∀ plan ∈ s.plan, ∀ k, plan.seek k = none

theorem ready_cursor (s : Source) : Ready (¬ s.Seekable) s.prospect.docs s.cursor := by
  obtain ⟨term, none | plan⟩ := s
  · have tracks := term.list.tracks_cursor term.boost
    exact ⟨embeds_inl.tracks (tracks.mono False.elim), rfl⟩
  · have tracks : Tracks _ term.prospect.docs ({ cursor := term.cursor, plan } : Faulty _) :=
      Faulty.tracks (term.list.tracks_cursor term.boost)
    refine ⟨embeds_inr.tracks (tracks.mono ?_), rfl⟩
    rintro (never | ⟨k, faulted⟩) seekable
    · exact never
    · rw [seekable plan rfl k] at faulted
      exact Bool.false_ne_true faulted

theorem idle_cursor {s : Source} (unplanned : s.plan = none) : Idle s.prospect s.cursor := by
  obtain ⟨term, plan⟩ := s
  obtain rfl : plan = none := unplanned
  exact embeds_inl.idle term.idle_cursor

variable {x : PostingCursor ⊕ Faulty PostingCursor} {s : Source} {d : DocId}

/-- The place in the list, which only calls that reach the list can change. -/
def inner : PostingCursor ⊕ Faulty PostingCursor → PostingCursor
  | .inl c => c
  | .inr c => c.cursor

theorem inner_cursor (s : Source) : inner s.cursor = s.term.cursor := by
  obtain ⟨term, none | plan⟩ := s <;> rfl

theorem doc_inner (x : PostingCursor ⊕ Faulty PostingCursor) :
    Cursor.doc (inner x) = Cursor.doc x := by
  cases x <;> rfl

/-- A call that a fault may keep from the list. -/
theorem attempt_tries {α : Type} {c : Faulty PostingCursor} {fault : Option Failure.Report}
    {call : PostingCursor → Outcome PostingCursor α} {post : Option α → PostingCursor → Prop}
    (kept : post none c.cursor) (tries : (call c.cursor).Tries post) :
    (c.attempt fault call).Tries fun a c' => post a c'.cursor := by
  obtain ⟨report, faulted⟩ | passed := c.attempt_cases fault call
  · rw [faulted]
    exact .failed kept trivial
  · rw [passed]
    exact tries.within fun _ _ left => left

/-- A move of a source does to the list what the move of the list does, or nothing. -/
theorem make_tries {P : Option Bool → PostingCursor → Prop} (move : Move)
    (kept : P none (inner x)) (tries : (move.make (inner x)).Tries P) :
    (move.make x).Tries fun found x' => P found (inner x') := by
  cases x with
  | inl c =>
      rw [embeds_inl.make]
      exact tries.within fun _ _ left => left
  | inr c =>
      rw [embeds_inr.make]
      cases move with
      | next =>
          exact (attempt_tries (c := { c with nexts := c.nexts + 1 }) kept tries).within
            fun _ _ left => left
      | seek t =>
          exact (attempt_tries (c := { c with seeks := c.seeks + 1 }) kept tries).within
            fun _ _ left => left

/-- The same holds of asking for a score. -/
theorem score_tries {P : Option Score → PostingCursor → Prop} (kept : P none (inner x))
    (tries : (Cursor.score (inner x)).Tries P) :
    (Cursor.score x).Tries fun v x' => P v (inner x') := by
  cases x with
  | inl c => exact tries.within fun _ _ left => left
  | inr c =>
      exact (attempt_tries (c := { c with scores := c.scores + 1 }) kept tries).within
        fun _ _ left => left

/-- A posting cursor that stands on a document of the source. -/
def At (s : Source) (d : DocId) (c : PostingCursor) : Prop :=
  PostingCursor.At s.term.list s.term.boost d none c

def On (s : Source) (d : DocId) (x : PostingCursor ⊕ Faulty PostingCursor) : Prop :=
  s.At d (inner x)

theorem On.doc_eq (h : s.On d x) : Cursor.doc x = d :=
  (doc_inner x).symm.trans (PostingCursor.faithful_at.doc h)

theorem On.isMatch (h : s.On d x) : s.term.isMatch d = true :=
  TermQuery.mem_prospect.mp (PostingCursor.faithful_at.mem h)

theorem On.beforeFirst_lt (h : s.On d x) : DocId.beforeFirst < d :=
  DocId.beforeFirst_lt (PostingCursor.faithful_at.nonneg h)

/-- What a move from a document to the next one leaves: a document is found further on. -/
inductive Steps (s : Source) (d : DocId) : Option Bool → PostingCursor → Prop
  | failed {c : PostingCursor} (stays : s.At d c) : Steps s d none c
  | found {c : PostingCursor} {d' : DocId} (stands : s.At d' c) (later : d < d') :
      Steps s d (some true) c
  | missed {c : PostingCursor} : Steps s d (some false) c

theorem On.next (h : s.On d x) :
    (Cursor.next x).Tries fun found x' => Steps s d found (inner x') :=
  make_tries .next (.failed h) <|
    (PostingCursor.faithful_at.next h).leaves (fun _ _ least left => .found left.1 least.1.2)
      fun _ _ => .missed

/-- The score is the one in the list, however often asking for it has failed. -/
theorem On.score (h : s.On d x) : (Cursor.score x).Tries fun v x' =>
    s.On d x' ∧ ∀ w, v = some w → s.term.score? d = some w := by
  apply score_tries (P := fun v c => s.At d c ∧ ∀ w, v = some w → s.term.score? d = some w)
  · exact ⟨h, fun _ => no_answer⟩
  · obtain ⟨v, n, c, eq, scored, -⟩ := PostingCursor.faithful_at.score h
    obtain rfl : n = 0 := scored.1
    obtain rfl : c = inner x :=
      (congrArg Outcome.state eq).symm.trans (inner x).state_score
    rw [eq]
    refine .answered ⟨h, ?_⟩
    rintro _ ⟨rfl⟩
    exact TermQuery.scores_prospect.mp scored

/-- The first move of a source puts it on a document, if it finds one. -/
theorem next_cursor (s : Source) : (Cursor.next s.cursor).Tries fun found x =>
    found = some true → ∃ d, s.On d x := by
  have moved : Cursor.next (inner s.cursor) =
      .done (.atPlace s.term.list s.term.boost 0)
        (!(PostingCursor.atPlace s.term.list s.term.boost 0).isExhausted) := by
    rw [inner_cursor]
    rfl
  apply make_tries .next (P := fun found c => found = some true → ∃ d, s.At d c)
  · exact no_answer
  · rw [Move.make, moved, PostingCursor.isExhausted_atPlace]
    refine .answered fun found => ?_
    have inside : 0 < s.term.list.postings.size := by
      simpa [Array.size_pos_iff] using found
    exact ⟨_, 0, inside, rfl, rfl, by simp⟩

theorem doc_cursor (s : Source) : Cursor.doc s.cursor = .beforeFirst :=
  s.ready_cursor.fresh

end Source

end Retrieval
