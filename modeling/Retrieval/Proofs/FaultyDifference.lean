import Retrieval.Proofs.Soundness

/-!
# One list without another, with faults in front of them

When both sides of an exclusion are posting lists, failures leave the sides where they are. So
whatever fails, and wherever the exclusion is sent, also back or before all documents, it stands
before no excluded document that it has not looked at, and what it finds is right.

There is one exception. A first move that is a seek sends the excluded side to the target before the
required side. If only the required side fails, the exclusion goes on as begun, and the excluded
documents before the target are forgotten, though the required side may still come to them.
-/

namespace Retrieval

open Cursor Outcome

/-- The answer that an outcome is known by is the one that it has. -/
theorem Outcome.Leaves.telling {σ α : Type} {fails : Failure → Prop} {post : Option α → σ → Prop}
    {o : Outcome σ α} (leaves : Leaves fails post o) :
    Leaves fails (fun a state => post a state ∧ (a = none → ∃ failure, o.answer = .error failure) ∧
      ∀ b, a = some b → o.answer = .ok b) o := by
  cases leaves with
  | answered h =>
      refine .answered ⟨h, nofun, ?_⟩
      rintro _ ⟨rfl⟩
      rfl
  | failed h allowed => exact .failed ⟨h, fun _ => ⟨_, rfl⟩, fun _ => no_answer⟩ allowed

/-- A move of a list, also to a target before all documents, which is refused. -/
theorem PostingCursor.takes {D : Set DocId} {c : PostingCursor} (h : Tracks False D c)
    (move : Move) : (move.make c).Tries
      (Takes D (Tracks False D) (Cursor.doc c) (move.window (Cursor.doc c))) := by
  cases move with
  | next => exact (h.move .next trivial).tries
  | seek t =>
      by_cases negative : t < 0
      · show (PostingCursor.seek c t).Tries _
        rw [PostingCursor.seek, if_pos negative]
        exact .failed (.failed h rfl) trivial
      · exact (h.move (.seek t) (Int32.not_lt.mp negative)).tries

namespace Source

variable {D X : Set DocId} {x : PostingCursor ⊕ Faulty PostingCursor}

/-- The list of the source goes through `D`. -/
def Tracked (D : Set DocId) (x : PostingCursor ⊕ Faulty PostingCursor) : Prop :=
  Tracks False D (inner x)

theorem tracked_cursor (s : Source) : Tracked s.prospect.docs s.cursor := by
  rw [Tracked, inner_cursor]
  exact s.term.list.tracks_cursor s.term.boost

theorem Tracked.tracks (h : Tracked D x) : Tracks True D x := by
  cases x with
  | inl c => exact embeds_inl.tracks (Tracks.mono h False.elim)
  | inr c =>
      have tracks : Tracks _ D c := Faulty.tracks h
      exact embeds_inr.tracks (tracks.mono fun _ => trivial)

theorem Tracked.takes (h : Tracked D x) (move : Move) : (move.make x).Tries
    (Takes D (Tracked D) (Cursor.doc x) (move.window (Cursor.doc x))) := by
  rw [← doc_inner x]
  refine (make_tries move (.failed h rfl) (PostingCursor.takes h move)).imp fun found x' takes => ?_
  cases takes with
  | failed kept stays => exact .failed kept ((doc_inner x').symm.trans stays)
  | found kept least => exact .found kept (doc_inner x' ▸ least)
  | missed empty => exact .missed empty

end Source

namespace Exclusion

open Source

/-- One source without another, on the way. -/
abbrev OfSources := Exclusion (PostingCursor ⊕ Faulty PostingCursor)
  (PostingCursor ⊕ Faulty PostingCursor)

variable {D X Y : Set DocId} {d t : DocId} {first : Move} {moves : List Move}
variable {x y : PostingCursor ⊕ Faulty PostingCursor}
variable {side : Option (PostingCursor ⊕ Faulty PostingCursor)} {c : OfSources}

/-- An exclusion past its first move. No document of `X` has been passed over from where the
required side stands. -/
inductive Abides (D X : Set DocId) : OfSources → Prop
  | intro {x : PostingCursor ⊕ Faulty PostingCursor}
      {side : Option (PostingCursor ⊕ Faulty PostingCursor)} (tracked : Tracked D x)
      (lookout : Lookout X (Cursor.doc x) side) : Abides D X (begun (some x) side)

/-- Documents are stepped over until one is judged not to be excluded. The induction is on the
bound; what happens when it is reached does not matter here. -/
theorem pass_behaves (bound : Nat) (tracked : Tracked D x) (mem : Cursor.doc x ∈ D)
    (lookout : Lookout X (Cursor.doc x) side) :
    (pass bound x side).Tries (Behaves (D \ X) (Abides D X)) := by
  induction bound generalizing x side with
  | zero =>
      cases side with
      | none => exact .answered (.found ⟨tracked, lookout⟩ ⟨mem, lookout.notMem⟩)
      | some excluded => exact .failed (.failed ⟨tracked, lookout⟩) trivial
  | succ bound ih =>
      cases side with
      | none => exact .answered (.found ⟨tracked, lookout⟩ ⟨mem, lookout.notMem⟩)
      | some excluded =>
          have nonneg := tracked.tracks.nonneg _ mem
          rw [pass]
          refine (judge_tries lookout.watches nonneg).bind
            (fun excluded' left => .failed ⟨tracked, left.1⟩) fun isExcluded excluded' left => ?_
          cases isExcluded with
          | false => exact .answered (.found ⟨tracked, left.1⟩ ⟨mem, left.2 rfl⟩)
          | true =>
              rw [if_pos rfl]
              refine (tracked.takes .next).bind (fun x' takes => ?_) fun found x' takes => ?_
              · cases takes with
                | failed kept stays => exact .failed ⟨kept, stays ▸ left.1⟩
              · cases takes with
                | missed => exact .answered .missed
                | found kept least =>
                    exact ih kept least.1.1 (left.1.mono (Int32.le_of_lt least.1.2))

/-- What a move leaves that starts with a move of the required side, the outcome of which is
`moved`. If that one fails, no document of `Y` has been passed over. -/
inductive Proceeds (D X Y : Set DocId)
    (moved : Outcome (PostingCursor ⊕ Faulty PostingCursor) Bool) :
    Option Bool → OfSources → Prop
  | going {found : Option Bool} {c : OfSources}
      (behaves : Behaves (D \ X) (Abides D X) found c) : Proceeds D X Y moved found c
  | failed {failure : Failure} {c : OfSources} (eq : moved.answer = .error failure)
      (abides : Abides D Y c) : Proceeds D X Y moved none c

/-- A move of an exclusion that has begun. -/
theorem begun_proceeds (move : Move) (tracked : Tracked D x)
    (still : Lookout Y (Cursor.doc x) side)
    (ahead : ∀ d ∈ move.window (Cursor.doc x), Lookout X d side) :
    (move.make (begun (some x) side)).Tries (Proceeds D X Y (move.make x)) := by
  have moved := (tracked.takes move).telling
  have failed : ∀ {x' : PostingCursor ⊕ Faulty PostingCursor} {failure : Failure},
      Takes D (Tracked D) (Cursor.doc x) (move.window (Cursor.doc x)) none x' →
        (move.make x).answer = .error failure →
          Proceeds D X Y (move.make x) none (begun (some x') side) := by
    intro x' failure takes eq
    cases takes with
    | failed kept stays => exact .failed eq ⟨kept, stays ▸ still⟩
  have follows : (follow side (move.make x)).Tries (Proceeds D X Y (move.make x)) := by
    refine moved.bind (fun x' ⟨takes, told, _⟩ => ?_) fun found x' ⟨takes, _, _⟩ => ?_
    · obtain ⟨failure, eq⟩ := told rfl
      exact failed takes eq
    · cases takes with
      | missed => exact .answered (.going .missed)
      | found kept least =>
          exact (pass_behaves _ kept least.1.1 (ahead _ least.1.2)).imp fun _ _ => .going
  cases move with
  | next =>
      show (Cursor.next (begun (some x) side)).Tries _
      rw [next_begun]
      exact follows
  | seek t =>
      show (Cursor.seek (begun (some x) side) t).Tries _
      cases side with
      | some excluded =>
          rw [seek_begun_some]
          exact follows
      | none =>
          rw [seek_begun_none]
          refine moved.within fun found x' ⟨takes, told, _⟩ => ?_
          obtain _ | _ | _ := found
          · obtain ⟨failure, eq⟩ := told rfl
            exact failed takes eq
          · exact .going .missed
          · cases takes with
            | found kept least =>
                have lookout := ahead _ least.1.2
                exact .going (.found ⟨kept, lookout⟩ ⟨least.1.1, lookout.notMem⟩)

theorem Abides.make (h : Abides D X c) (move : Move) :
    (move.make c).Tries (Behaves (D \ X) (Abides D X)) := by
  obtain @⟨x, side, tracked, lookout⟩ := h
  have ahead : ∀ d ∈ move.window (Cursor.doc x), Lookout X d side :=
    fun _ inside => lookout.mono (move.window_subset _ inside)
  refine (begun_proceeds move tracked lookout ahead).imp fun found c proceeds => ?_
  cases proceeds with
  | going behaves => exact behaves
  | failed _ abides => exact .failed abides

theorem mem_of_abides (h : Abides D X c ∨ Spent c) (found : (.ok true, d) ∈ answers c moves) :
    d ∈ D \ X := by
  have behaves : ∀ {c : OfSources} (move : Move), Abides D X c → True →
      (move.make c).Tries (Behaves (D \ X) (Abides D X)) :=
    fun move abides _ => abides.make move
  exact mem_of_answers behaves h (fun _ _ => trivial) found

/-- What the first move of the excluded side, the outcome of which is `moved`, leaves of an
exclusion. If it has not failed, only the documents that it leads to are watched over. -/
inductive Opened (X : Set DocId) (first : Move) (x : PostingCursor ⊕ Faulty PostingCursor)
    (moved : Outcome (PostingCursor ⊕ Faulty PostingCursor) Bool) :
    Option Unit → OfSources → Prop
  | failed {side : Option (PostingCursor ⊕ Faulty PostingCursor)}
      (still : Lookout X .beforeFirst side) : Opened X first x moved none (begun (some x) side)
  | opened {side : Option (PostingCursor ⊕ Faulty PostingCursor)} {found : Bool}
      (eq : moved.answer = .ok found) (ahead : ∀ d, first.Allows d → Lookout X d side)
      (still : Lookout {d ∈ X | first.Allows d} .beforeFirst side) :
      Opened X first x moved (some ()) (begun (some x) side)

theorem start_opened (first : Move) (tracked : Tracked X y) (fresh : Cursor.doc y = .beforeFirst) :
    ((ofParts x y).start first.make).Tries (Opened X first x (first.make y)) := by
  have window : ∀ {d}, d ∈ X → first.Allows d → d ∈ X ∩ first.window (Cursor.doc y) := by
    intro d inside allowed
    rw [fresh]
    exact ⟨inside, (first.window_beforeFirst (tracked.tracks.nonneg _ inside)).mpr allowed⟩
  rw [start, ofParts]
  refine (tracked.takes first).telling.bind (fun y' left => ?_)
    fun found y' left => .answered ?_
  · cases left.1 with
    | failed kept stays =>
        refine .failed (.watching (kept.tracks.watches fun d _ later => ?_))
        exact stays.trans fresh ▸ later
  · obtain ⟨takes, -, told⟩ := left
    cases takes with
    | found kept least =>
        refine .opened (told _ rfl) (fun d allowed => .watching ?_) (.watching ?_)
        · exact kept.tracks.watches fun z inside later =>
            least.2 (window inside (Move.allows_of_le allowed later))
        · exact kept.tracks.watches_of_subset (fun _ inside => inside.1) fun z inside _ =>
            least.2 (window inside.1 inside.2)
    | missed empty =>
        have none : ∀ z ∈ X, ¬ first.Allows z := fun z inside allowed =>
          Set.eq_empty_iff_forall_notMem.mp empty z (window inside allowed)
        refine .opened (told _ rfl) (fun d allowed => .out fun z inside => ?_)
          (.out fun z inside => absurd inside.2 (none z inside.1))
        exact Int32.not_le.mp fun later => none z inside (Move.allows_of_le allowed later)

/-- A first seek fails on the required side, when the excluded side has been sent ahead already. -/
structure Forgets (x y : PostingCursor ⊕ Faulty PostingCursor) (t : DocId) : Prop where
  fails : ∃ failure, (Cursor.seek x t).answer = .error failure
  leads : ∃ found, (Cursor.seek y t).answer = .ok found

/-- What the first move of an exclusion leaves. -/
inductive Enters (D X : Set DocId) (x y : PostingCursor ⊕ Faulty PostingCursor) :
    Move → Option Bool → OfSources → Prop
  | going {first : Move} {found : Option Bool} {c : OfSources}
      (behaves : Behaves (D \ X) (Abides D X) found c) : Enters D X x y first found c
  | forgetting {t : DocId} {c : OfSources} (forgets : Forgets x y t)
      (abides : Abides D {d ∈ X | t ≤ d} c) : Enters D X x y (.seek t) none c

theorem ofParts_enters (first : Move) (tracked : Tracked D x) (fresh : Cursor.doc x = .beforeFirst)
    (tracked' : Tracked X y) (fresh' : Cursor.doc y = .beforeFirst) :
    (first.make (ofParts x y)).Tries (Enters D X x y first) := by
  have starts := start_opened (x := x) first tracked' fresh'
  -- once the excluded side has been moved, the exclusion has begun
  have onward : ∀ {side : Option (PostingCursor ⊕ Faulty PostingCursor)} {found : Bool},
      (first.make y).answer = .ok found → (∀ d, first.Allows d → Lookout X d side) →
        Lookout {d ∈ X | first.Allows d} .beforeFirst side →
          (first.make (begun (some x) side)).Tries (Enters D X x y first) := by
    intro side found eq ahead still
    have proceeds := begun_proceeds first tracked (fresh ▸ still)
      fun d inside => ahead d (Move.allows_of_window inside)
    refine proceeds.imp fun found c proceeds => ?_
    cases proceeds with
    | going behaves => exact .going behaves
    | failed failed abides =>
        cases first with
        | next =>
            have same : {d ∈ X | Move.next.Allows d} = X := Set.sep_eq_self_iff_mem_true.mpr
              fun _ _ => trivial
            exact .going (.failed (same ▸ abides))
        | seek t => exact .forgetting ⟨⟨_, failed⟩, ⟨_, eq⟩⟩ abides
  cases first with
  | next =>
      show (Exclusion.next _).Tries _
      rw [Exclusion.next]
      refine starts.bind (fun c opened => ?_) fun _ c opened => ?_
      · cases opened with
        | failed still => exact .going (.failed ⟨tracked, fresh.symm ▸ still⟩)
      · cases opened with
        | opened eq ahead still =>
            have left := onward eq ahead still
            rwa [Move.make, next_begun] at left
  | seek t =>
      show (Exclusion.seek _ t).Tries _
      rw [Exclusion.seek]
      refine starts.bind (fun c opened => ?_) fun _ c opened => ?_
      · cases opened with
        | failed still => exact .going (.failed ⟨tracked, fresh.symm ▸ still⟩)
      · cases opened with
        | @opened side _ eq ahead still =>
            have left := onward eq ahead still
            cases side with
            | none => rwa [Move.make, seek_begun_none] at left
            | some excluded => rwa [Move.make, seek_begun_some] at left

/-- What is found is in `D`, and it is in `X` only if that has been forgotten. -/
theorem mem_of_answers_ofParts (tracked : Tracked D x) (fresh : Cursor.doc x = .beforeFirst)
    (tracked' : Tracked X y) (fresh' : Cursor.doc y = .beforeFirst)
    (found : (.ok true, d) ∈ answers (ofParts x y) (first :: moves)) :
    d ∈ D ∧ (d ∈ X → ∃ t, first = .seek t ∧ d < t ∧ Forgets x y t) := by
  have enters : (first.make (ofParts x y)).Tries (Behaves (D \ X) (Abides D X)) ∨
      ∃ t, first = .seek t ∧ Forgets x y t ∧ (first.make (ofParts x y)).answer ≠ .ok true ∧
        Abides D {d ∈ X | t ≤ d} (first.make (ofParts x y)).state := by
    have left := ofParts_enters first tracked fresh tracked' fresh'
    generalize first.make (ofParts x y) = o at left ⊢
    cases left with
    | answered enters =>
        cases enters with
        | going behaves => exact .inl (.answered behaves)
    | failed enters allowed =>
        cases enters with
        | going behaves => exact .inl (.failed behaves allowed)
        | forgetting forgets abides => exact .inr ⟨_, rfl, forgets, error_ne_ok, abides⟩
  obtain behaves | ⟨t, seeks, forgets, failed, abides⟩ := enters
  · have right : d ∈ D \ X := by
      obtain here | later := List.mem_cons.mp found
      · obtain ⟨answered, rfl⟩ := Prod.mk.inj here
        exact (Behaves.step behaves).1 answered.symm
      · exact mem_of_abides (Behaves.step behaves).2 later
    exact ⟨right.1, fun inside => absurd inside right.2⟩
  · obtain here | later := List.mem_cons.mp found
    · exact absurd (Prod.mk.inj here).1.symm failed
    · have right := mem_of_abides (.inl abides) later
      refine ⟨right.1, fun inside => ⟨t, seeks, Int32.not_le.mp fun le => ?_, forgets⟩⟩
      exact right.2 ⟨inside, le⟩

/-- Whatever moves are made, and whichever of them fail: every document found is in the required
list, and it is not in the excluded one, unless it comes before the target of a first seek that has
failed when the excluded side was ahead already. -/
theorem isMatch_of_answers (required excluded : Source) (first : Move) (moves : List Move)
    (d : DocId) (found : (.ok true, d) ∈
      answers (ofParts required.cursor excluded.cursor) (first :: moves)) :
    required.term.isMatch d = true ∧ (excluded.term.isMatch d = true →
      ∃ t, first = .seek t ∧ d < t ∧ Forgets required.cursor excluded.cursor t) := by
  obtain ⟨listed, forgotten⟩ := mem_of_answers_ofParts required.tracked_cursor required.doc_cursor
    excluded.tracked_cursor excluded.doc_cursor found
  refine ⟨TermQuery.mem_prospect.mp listed, fun isExcluded => forgotten ?_⟩
  exact TermQuery.mem_prospect.mpr isExcluded

def failingSeek (number : Nat) : FaultPlan where
  next _ := none
  seek k := if k = number then some ⟨.other, "unavailable"⟩ else none
  score _ := none

/-- A required source that fails when it is to leave the document that is excluded, and an excluded
one the first seek of which fails. -/
def wholeWithoutSome : Source × Source :=
  (⟨⟨"whole", ⟨#[⟨2, 1⟩, ⟨5, 1⟩, ⟨8, 1⟩], by decide, by decide⟩, 1⟩,
      some (.failingNext 3)⟩,
    ⟨⟨"some", ⟨#[⟨5, 1⟩, ⟨9, 1⟩], by decide, by decide⟩, 1⟩, some (failingSeek 1)⟩)

/-- A first seek that fails on the excluded side leaves both sides where they were. Later a move
stops on the excluded document, which is stepped over when the exclusion is sent there again. -/
theorem isMatch_of_answers_wholeWithoutSome :
    answers (ofParts wholeWithoutSome.1.cursor wholeWithoutSome.2.cursor)
        [.seek 3, .next, .next, .seek 5, .seek (-1)] =
      [(.error (.reported ⟨.other, "unavailable"⟩), -1), (.ok true, 2),
        (.error (.reported ⟨.other, "unavailable"⟩), 5), (.ok true, 8),
        (.error (.negativeTarget (-1)), 8)] ∧
      wholeWithoutSome.1.term.isMatch 8 = true ∧ (wholeWithoutSome.2.term.isMatch 8 = true →
        ∃ t, Move.seek 3 = .seek t ∧ 8 < t ∧
          Forgets wholeWithoutSome.1.cursor wholeWithoutSome.2.cursor t) := by
  have run : answers (ofParts wholeWithoutSome.1.cursor wholeWithoutSome.2.cursor)
      [.seek 3, .next, .next, .seek 5, .seek (-1)] =
        [(.error (.reported ⟨.other, "unavailable"⟩), -1), (.ok true, 2),
          (.error (.reported ⟨.other, "unavailable"⟩), 5), (.ok true, 8),
          (.error (.negativeTarget (-1)), 8)] := by
    decide +kernel
  have found : (.ok true, 8) ∈ answers (ofParts wholeWithoutSome.1.cursor wholeWithoutSome.2.cursor)
      [.seek 3, .next, .next, .seek 5, .seek (-1)] := by
    rw [run]
    simp
  exact ⟨run, isMatch_of_answers _ _ _ _ 8 found⟩

/-- A required source the first seek of which fails. -/
def eightBehindFault : Source :=
  ⟨⟨"eight", ⟨#[⟨8, 1⟩], by decide, by decide⟩, 1⟩, some (failingSeek 1)⟩

/-- An excluded source with documents before the target and beyond it. -/
def eightAndTwenty : Source :=
  ⟨⟨"eight and twenty", ⟨#[⟨8, 1⟩, ⟨20, 1⟩], by decide, by decide⟩, 1⟩, none⟩

/-- When a first seek has failed on the required side, a document is found that is excluded: the
other side has passed it over on its way to the target. -/
theorem forgets_excluded : ¬ ∀ (required excluded : Source) (moves : List Move) (d : DocId),
    (.ok true, d) ∈ answers (ofParts required.cursor excluded.cursor) moves →
      required.term.isMatch d = true ∧ excluded.term.isMatch d = false := by
  intro clean
  have run : answers (ofParts eightBehindFault.cursor eightAndTwenty.cursor) [.seek 10, .next] =
      [(.error (.reported ⟨.other, "unavailable"⟩), -1), (.ok true, 8)] := by
    decide +kernel
  have found : (.ok true, 8) ∈ answers (ofParts eightBehindFault.cursor eightAndTwenty.cursor)
      [.seek 10, .next] := by
    rw [run]
    simp
  have outside := (clean eightBehindFault eightAndTwenty _ 8 found).2
  have inside : eightAndTwenty.term.isMatch 8 = true := by decide +kernel
  exact Bool.false_ne_true (outside.symm.trans inside)

end Exclusion

end Retrieval
