import Mathlib.Logic.Function.Iterate
import Retrieval.Proofs.Contract

/-!
# Runs

A run begins with a move to the next document and is over when a move finds none. In between, the
cursor may be sent on in any way and asked for scores any number of times. A run that only ever
moves to the next document visits all of them, in ascending order.

What a run can lead to is stated of every cursor it reaches, so it holds whatever the calls were.
-/

namespace Retrieval

/-- The documents after a place; all of them if there is no place yet. -/
def after : Option DocId → Set DocId
  | none => Set.univ
  | some d => beyond d

/-- A move that finds a document leads to where the cursor then stands. -/
theorem Outcome.Finds.of_found {σ : Type} {W : Set DocId} {stands : DocId → σ → Prop}
    {o : Outcome σ Bool} (finds : o.Finds W stands) (found : o.answer = .ok true) :
    ∃ e, IsLeast W e ∧ stands e o.state := by
  cases finds with
  | found e c eq least stood =>
      subst eq
      exact ⟨e, least, stood⟩
  | missed c eq _ =>
      subst eq
      exact absurd (Except.ok.inj found) Bool.false_ne_true

namespace Cursor

variable {σ : Type} [Cursor σ]

/-- A cursor after it has been asked for a score, whatever it answered. -/
def afterScore (c : σ) : σ := (Cursor.score c).state

/-- The cursors that a run can reach from a fresh one, each with the place of the last move. -/
inductive Run (fresh : σ) : Option DocId → σ → Prop
  | start : Run fresh none fresh
  | next {place : Option DocId} {c : σ} (run : Run fresh place c)
      (found : (Cursor.next c).answer = .ok true) :
      Run fresh (some (Cursor.doc (Cursor.next c).state)) (Cursor.next c).state
  | seek {d t : DocId} {c : σ} (run : Run fresh (some d) c) (later : Cursor.doc c < t)
      (found : (Cursor.seek c t).answer = .ok true) :
      Run fresh (some (Cursor.doc (Cursor.seek c t).state)) (Cursor.seek c t).state
  | score {d : DocId} {c : σ} (run : Run fresh (some d) c) : Run fresh (some d) (afterScore c)

/-- The cursors that a run from document to document can reach, each with the documents visited. On
each of them the score is asked for at least `least` times. -/
inductive Walk (least : Nat) (fresh : σ) : List DocId → σ → Prop
  | start : Walk least fresh [] fresh
  | visit {visited : List DocId} {c : σ} {times : Nat} (walk : Walk least fresh visited c)
      (found : (Cursor.next c).answer = .ok true) (often : least ≤ times) :
      Walk least fresh (visited ++ [Cursor.doc (Cursor.next c).state])
        (afterScore^[times] (Cursor.next c).state)

variable {P : Prospect} {D : Set DocId} {fresh c : σ} {place : Option DocId} {d t : DocId}
variable {v : Option Score}

section Scoring

variable {stands : DocId → Option Score → σ → Prop}

theorem Faithful.afterScore (kept : Faithful P D stands) (h : stands d v c) :
    ∃ w, (Cursor.score c).answer = .ok w ∧ stands d (some w) (afterScore c) ∧
      movesLeft (afterScore c) ≤ movesLeft c := by
  cases v with
  | none =>
      obtain ⟨w, n, c', eq, -, stood, fewer⟩ := kept.score h
      have same : Cursor.afterScore c = c' := congrArg Outcome.state eq
      exact ⟨w, congrArg Outcome.answer eq, same ▸ stood, same ▸ fewer⟩
  | some w =>
      have eq := kept.again h
      have same : Cursor.afterScore c = c := congrArg Outcome.state eq
      exact ⟨w, congrArg Outcome.answer eq, same.symm ▸ h,
        Nat.le_of_eq (congrArg movesLeft same)⟩

/-- Asking for the score any number of times leaves a cursor where it stands. -/
theorem Faithful.afterScores (kept : Faithful P D stands) (times : Nat) (h : stands d v c) :
    ∃ w, stands d w (Cursor.afterScore^[times] c) ∧ (v.isSome ∨ 0 < times → w.isSome) ∧
      movesLeft (Cursor.afterScore^[times] c) ≤ movesLeft c := by
  induction times generalizing v c with
  | zero => exact ⟨v, h, by simp, Nat.le_refl _⟩
  | succ times ih =>
      obtain ⟨w, -, stood, fewer⟩ := kept.afterScore h
      obtain ⟨w', stood', given, fewer'⟩ := ih stood
      rw [Function.iterate_succ_apply]
      exact ⟨w', stood', fun _ => given (.inl rfl), Nat.le_trans fewer' fewer⟩

end Scoring

/-- Where the last move of a run has led. -/
def Reached (P : Prospect) (fresh : σ) (place : Option DocId) (c : σ) : Prop :=
  match place with
  | none => c = fresh
  | some d => ∃ v, Stands P P.docs d v c

theorem Reached.next (begins : Begins P fresh) (reached : Reached P fresh place c) :
    (Cursor.next c).Finds (P.docs ∩ after place) fun d c' => Stands P P.docs d none c' := by
  cases place with
  | none =>
      obtain rfl := reached
      rw [after, Set.inter_univ]
      exact begins.next.imp fun _ _ _ stood => stood.1
  | some d =>
      obtain ⟨v, stands⟩ := reached
      exact (faithful_stands.next stands).imp fun _ _ _ stood => stood.1

theorem Reached.seek (reached : Reached P fresh (some d) c) (later : Cursor.doc c < t) :
    (Cursor.seek c t).Finds (P.docs ∩ since t) fun e c' => Stands P P.docs e none c' := by
  obtain ⟨v, stands⟩ := reached
  rw [faithful_stands.doc stands] at later
  exact (faithful_stands.ahead stands later).imp fun _ _ _ stood => stood.1

theorem Reached.of_finds {W : Set DocId} {o : Outcome σ Bool}
    (finds : o.Finds W fun d c => Stands P P.docs d none c) (found : o.answer = .ok true) :
    Reached P fresh (some (Cursor.doc o.state)) o.state := by
  obtain ⟨d, -, stands⟩ := finds.of_found found
  rw [faithful_stands.doc stands]
  exact ⟨none, stands⟩

/-- Whatever the calls were, a run leads to where the last move has found a document. -/
theorem Run.reached (begins : Begins P fresh) (run : Run fresh place c) :
    Reached P fresh place c := by
  induction run with
  | start => rfl
  | next _ found ih => exact .of_finds (ih.next begins) found
  | seek _ later found ih => exact .of_finds (ih.seek later) found
  | score _ ih =>
      obtain ⟨v, stands⟩ := ih
      obtain ⟨w, -, stood, -⟩ := faithful_stands.afterScore stands
      exact ⟨some w, stood⟩

/-- At any time in a run, the next document is the first one after the last place. -/
theorem Run.next_finds (begins : Begins P fresh) (run : Run fresh place c) :
    (Cursor.next c).Finds (P.docs ∩ after place) fun d c' => Cursor.doc c' = d :=
  ((run.reached begins).next begins).imp fun _ _ _ stood => faithful_stands.doc stood

/-- At any time in a run, a target that lies ahead leads to the first document from there on. -/
theorem Run.seek_finds (begins : Begins P fresh) (run : Run fresh (some d) c)
    (later : Cursor.doc c < t) :
    (Cursor.seek c t).Finds (P.docs ∩ since t) fun e c' => Cursor.doc c' = e :=
  ((run.reached begins).seek later).imp fun _ _ _ stood => faithful_stands.doc stood

/-- Whether a cursor goes through the document `d` if its first move is a seek to `t`: this seek
finds it, or stops before it and a second seek finds it. -/
def GoesThrough (c : σ) (t d : DocId) : Prop :=
  (Cursor.seek c t).answer = .ok true ∧
    (Cursor.doc (Cursor.seek c t).state = d ∨ Cursor.doc (Cursor.seek c t).state < d ∧
      (Cursor.seek (Cursor.seek c t).state d).answer = .ok true ∧
      Cursor.doc (Cursor.seek (Cursor.seek c t).state d).state = d)

theorem goesThrough_of_found {c' : σ} (eq : Cursor.seek c t = .done c' true) :
    GoesThrough c t d ↔ Cursor.doc c' = d ∨ Cursor.doc c' < d ∧
      (Cursor.seek c' d).answer = .ok true ∧ Cursor.doc (Cursor.seek c' d).state = d := by
  rw [GoesThrough, eq]
  exact and_iff_right rfl

/-- The documents that a cursor goes through are those that are expected after a first seek. -/
theorem Starts.goesThrough_iff (begins : Begins P c) (nonneg : 0 ≤ t) :
    GoesThrough c t d ↔ d ∈ P.docsFrom t := by
  cases begins.seek nonneg with
  | missed c' eq empty =>
      rw [GoesThrough, eq, empty]
      exact iff_of_false (fun h => Bool.false_ne_true (Except.ok.inj h.1)) (Set.notMem_empty d)
  | found e c' eq least stood =>
      rw [goesThrough_of_found eq, faithful_stands.doc stood.1]
      constructor
      · rintro (rfl | ⟨later, found, there⟩)
        · exact least.1
        · obtain ⟨e', least', stood'⟩ := (faithful_stands.ahead stood.1 later).of_found found
          rw [← there, faithful_stands.doc stood'.1]
          exact least'.1.1
      · intro inside
        by_cases same : e = d
        · exact .inl same
        have later : e < d := Int32.lt_of_le_of_ne (least.2 inside) same
        refine .inr ⟨later, ?_⟩
        have window : d ∈ P.docsFrom t ∩ since d := ⟨inside, Int32.le_refl d⟩
        cases faithful_stands.ahead stood.1 later with
        | missed c'' _ empty =>
            exact absurd window (Set.eq_empty_iff_forall_notMem.mp empty d)
        | found e' c'' eq' least' stood' =>
            obtain rfl : e' = d := Int32.le_antisymm (least'.2 window) least'.1.2
            rw [eq']
            exact ⟨rfl, faithful_stands.doc stood'.1⟩

variable {stands : DocId → DocId → Option Score → σ → Prop} {least : Nat} {visited : List DocId}
variable {Q : DocId → Prospect} {first : DocId}

/-- The first visit of a run. It leads to where the cursor stands if that document was the first. -/
def SetsOut (D : Set DocId) (stands : DocId → DocId → Option Score → σ → Prop) (least : Nat)
    (fresh : σ) : Prop :=
  (Cursor.next fresh).Finds D fun d c =>
    Cursor.doc c = d ∧ movesLeft c < movesLeft fresh ∧ ∀ times, least ≤ times →
      ∃ v, stands d d v (afterScore^[times] c) ∧ (0 < least → v.isSome) ∧
        movesLeft (afterScore^[times] c) ≤ movesLeft c

/-- Where a run stands on the last of the documents it has visited. What it can expect there may
depend on which one was the first. -/
structure Visited (D : Set DocId) (stands : DocId → DocId → Option Score → σ → Prop) (least : Nat)
    (fresh : σ) (visited : List DocId) (first d : DocId) (c : σ) : Prop where
  head : visited.head? = some first
  start : IsLeast D first
  nonneg : 0 ≤ first
  last : visited.getLast? = some d
  ascending : visited.Pairwise (· < ·)
  all : ∀ x, x ∈ visited ↔ x ∈ D ∧ x ≤ d
  stood : ∃ v, stands first d v c ∧ (0 < least → v.isSome)
  moves : visited.length + movesLeft c ≤ movesLeft fresh

theorem Visited.next (kept : ∀ first, Faithful (Q first) D (stands first))
    (h : Visited D stands least fresh visited first d c) :
    (Cursor.next c).Finds (D ∩ beyond d) fun e c' =>
      stands first e none c' ∧ movesLeft c' < movesLeft c := by
  obtain ⟨v, stood, -⟩ := h.stood
  exact (kept first).next stood

/-- The first visit. -/
theorem SetsOut.visit {times : Nat} (setsOut : SetsOut D stands least fresh)
    (kept : ∀ first, Faithful (Q first) D (stands first))
    (found : (Cursor.next fresh).answer = .ok true) (often : least ≤ times) :
    Visited D stands least fresh [Cursor.doc (Cursor.next fresh).state]
      (Cursor.doc (Cursor.next fresh).state) (Cursor.doc (Cursor.next fresh).state)
      (afterScore^[times] (Cursor.next fresh).state) := by
  obtain ⟨d, leastOf, place, fewer, scored⟩ := setsOut.of_found found
  obtain ⟨v, stood, given, fewer'⟩ := scored times often
  rw [place]
  refine ⟨rfl, leastOf, (kept d).nonneg stood, rfl, List.pairwise_singleton _ d, fun x => ?_,
    ⟨v, stood, given⟩, ?_⟩
  · rw [List.mem_singleton]
    constructor
    · rintro rfl
      exact ⟨leastOf.1, Int32.le_refl x⟩
    · exact fun inside => Int32.le_antisymm inside.2 (leastOf.2 inside.1)
  · simp only [List.length_singleton]
    omega

/-- One visit more. -/
theorem Visited.visit {times : Nat} (kept : ∀ first, Faithful (Q first) D (stands first))
    (h : Visited D stands least fresh visited first d c)
    (found : (Cursor.next c).answer = .ok true) (often : least ≤ times) :
    Visited D stands least fresh (visited ++ [Cursor.doc (Cursor.next c).state]) first
      (Cursor.doc (Cursor.next c).state) (afterScore^[times] (Cursor.next c).state) := by
  obtain ⟨e, leastOf, stood, fewer⟩ := (h.next kept).of_found found
  obtain ⟨w, stood', given, fewer'⟩ := (kept first).afterScores times stood
  rw [(kept first).doc stood]
  refine ⟨?_, h.start, h.nonneg, List.getLast?_concat, ?_, fun x => ?_,
    ⟨w, stood', fun some => ?_⟩, ?_⟩
  · rw [List.head?_append, h.head]
    rfl
  · refine List.pairwise_append.mpr ⟨h.ascending, List.pairwise_singleton _ e, ?_⟩
    intro x inside y same
    rw [List.mem_singleton.mp same]
    exact Int32.lt_of_le_of_lt ((h.all x).mp inside).2 leastOf.1.2
  · rw [List.mem_append, List.mem_singleton, h.all]
    constructor
    · intro inside
      cases inside with
      | inl before => exact ⟨before.1, Int32.le_trans before.2 (Int32.le_of_lt leastOf.1.2)⟩
      | inr same =>
          rw [same]
          exact ⟨leastOf.1.1, Int32.le_refl e⟩
    · intro inside
      cases Int32.lt_or_le d x with
      | inl later => exact .inr (Int32.le_antisymm inside.2 (leastOf.2 ⟨inside.1, later⟩))
      | inr notLater => exact .inl ⟨inside.1, notLater⟩
  · exact given (.inr (Nat.lt_of_lt_of_le some often))
  · have moves := h.moves
    simp only [List.length_append, List.length_singleton]
    omega

/-- A run that only ever moves to the next document has not begun, or stands on the last document
visited. -/
theorem Walk.stood (setsOut : SetsOut D stands least fresh)
    (kept : ∀ first, Faithful (Q first) D (stands first)) (walk : Walk least fresh visited c) :
    (visited = [] ∧ c = fresh) ∨ ∃ first d, Visited D stands least fresh visited first d c := by
  induction walk with
  | start => exact .inl ⟨rfl, rfl⟩
  | visit _ found often ih =>
      obtain ⟨rfl, rfl⟩ | ⟨first, d, h⟩ := ih
      · exact .inr ⟨_, _, setsOut.visit kept found often⟩
      · exact .inr ⟨_, _, h.visit kept found often⟩

/-- The documents are visited in ascending order, each move answers, and none is left out when no
more is found. -/
theorem Walk.visits (setsOut : SetsOut D stands least fresh)
    (kept : ∀ first, Faithful (Q first) D (stands first)) (walk : Walk least fresh visited c) :
    visited.Pairwise (· < ·) ∧ (∀ d ∈ visited, d ∈ D) ∧ visited.length ≤ movesLeft fresh ∧
      ((Cursor.next c).answer = .ok true ∨
        (Cursor.next c).answer = .ok false ∧ ∀ d ∈ D, d ∈ visited) := by
  obtain ⟨rfl, rfl⟩ | ⟨first, d, h⟩ := walk.stood setsOut kept
  · refine ⟨.nil, by simp, Nat.zero_le _, ?_⟩
    cases setsOut with
    | found d c' eq _ _ => exact .inl (by rw [eq]; rfl)
    | missed c' eq empty => exact .inr ⟨by rw [eq]; rfl, by simp [empty]⟩
  · have moves := h.moves
    refine ⟨h.ascending, fun x inside => ((h.all x).mp inside).1, by omega, ?_⟩
    cases h.next kept with
    | found d c' eq _ _ => exact .inl (by rw [eq]; rfl)
    | missed c' eq empty =>
        refine .inr ⟨by rw [eq]; rfl, fun x inside => (h.all x).mpr ⟨inside, ?_⟩⟩
        apply Int32.not_lt.mp
        intro later
        exact Set.eq_empty_iff_forall_notMem.mp empty x ⟨inside, later⟩

end Cursor

end Retrieval
