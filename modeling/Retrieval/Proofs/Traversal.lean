import Retrieval.Proofs.Calls
import Retrieval.Proofs.FirstSeek

/-!
# Going through a set of documents

A cursor that leaves out no document when it is started by a seek goes through the same documents
however it is started. Whatever has been asked of it since then, the effect of the next call depends
only on where it stands: a move leads to the first of the documents beyond, or from the target on.

The relation in which such a cursor stands to a document is left open, so that each kind of cursor
can use its own, which may tell more than the promise does.
-/

namespace Retrieval

open Prospect

theorem DocId.nonneg_of_beforeFirst_lt {t : DocId} (after : DocId.beforeFirst < t) : 0 ≤ t := by
  rw [Int32.lt_iff_toInt_lt] at after
  rw [Int32.le_iff_toInt_le]
  exact after

namespace Cursor

variable {σ : Type} [Cursor σ]

/-- A cursor goes through the documents `D`, and `given` tells the scores that they may be given.
The answer of the last move is `last`, if there has been a move. -/
structure Traverses (D : Set DocId) (given : DocId → Score → Prop)
    (last : Option (Except Failure Bool)) (c : σ) : Prop where
  unmoved : last = none → Cursor.doc c = .beforeFirst
  next : (Cursor.next c).Finds (D ∩ beyond (Cursor.doc c)) fun d c' => Cursor.doc c' = d
  ahead : ∀ t, Cursor.doc c < t →
    (Cursor.seek c t).Finds (D ∩ since t) fun d c' => Cursor.doc c' = d
  score : last = some (.ok true) → ∃ v, (Cursor.score c).answer = .ok v ∧
    given (Cursor.doc c) v ∧ Cursor.doc (afterScore c) = Cursor.doc c

theorem Traverses.imp {D : Set DocId} {given given' : DocId → Score → Prop}
    {last : Option (Except Failure Bool)} {c : σ} (h : Traverses D given last c)
    (weaken : ∀ d v, given d v → given' d v) : Traverses D given' last c where
  unmoved := h.unmoved
  next := h.next
  ahead := h.ahead
  score := fun found => by
    obtain ⟨v, answered, allowed, stays⟩ := h.score found
    exact ⟨v, answered, weaken _ _ allowed, stays⟩

/-- Only a cursor that stands on a document can be sent back. -/
theorem Traverses.moved {D : Set DocId} {given : DocId → Score → Prop}
    {last : Option (Except Failure Bool)} {c : σ} {t : DocId} (h : Traverses D given last c)
    (going : last = none ∨ last = some (.ok true)) (nonneg : 0 ≤ t) (back : t ≤ Cursor.doc c) :
    last = some (.ok true) := by
  refine going.resolve_left fun none => ?_
  rw [h.unmoved none] at back
  exact absurd (Int32.le_trans nonneg back) (by decide)

variable {P : Prospect} {D : Set DocId} {stands : DocId → Option Score → σ → Prop}
variable {unmoved : σ → Prop} {last : Option (Except Failure Bool)} {fresh c : σ}

/-- A relation that keeps the promise can also tell that a score given before is one to expect. -/
theorem Faithful.scored (kept : Faithful P D stands) :
    Faithful P D fun d v c => stands d v c ∧ ∀ s, v = some s → ∃ n, P.scores d s n where
  doc := fun h => kept.doc h.1
  mem := fun h => kept.mem h.1
  nonneg := fun h => kept.nonneg h.1
  next := fun h => (kept.next h.1).imp fun _ _ _ stood => ⟨⟨stood.1, nofun⟩, stood.2⟩
  ahead := fun h later =>
    (kept.ahead h.1 later).imp fun _ _ _ stood => ⟨⟨stood.1, nofun⟩, stood.2⟩
  held := fun h nonneg back inside => by
    obtain ⟨c', eq, stood, fewer⟩ := kept.held h.1 nonneg back inside
    exact ⟨c', eq, ⟨stood, h.2⟩, fewer⟩
  lost := fun h => kept.lost h.1
  score := fun h => by
    obtain ⟨v, n, c', eq, scored, stood, fewer⟩ := kept.score h.1
    refine ⟨v, n, c', eq, scored, ⟨stood, fun s same => ?_⟩, fewer⟩
    obtain rfl : v = s := Option.some.inj same
    exact ⟨n, scored⟩
  again := fun h => kept.again h.1

/-- A cursor stands on the document `d`, where only the documents of `D` are expected from there on,
and these are all that `P` has there. A score given before is one to expect. -/
def OnCourse (P : Prospect) (stands : DocId → Option Score → σ → Prop) (D : Set DocId)
    (d : DocId) (v : Option Score) (c : σ) : Prop :=
  (stands d v c ∧ ∀ x, d ≤ x → (x ∈ P.docs ↔ x ∈ D)) ∧ ∀ s, v = some s → ∃ n, P.scores d s n

theorem Faithful.onCourse (kept : Faithful P P.docs stands) (D : Set DocId) :
    Faithful P D (OnCourse P stands D) :=
  kept.narrow.scored

/-- If the first move is a seek, the documents of `P` from the target on are those to go through. -/
theorem Starts.onCourse (prompt : P.Prompt) (starts : Starts P (fun _ => stands) c) :
    Starts P (OnCourse P stands) c where
  next := starts.next.imp fun _ _ _ stood => ⟨⟨⟨stood.1, fun _ _ => Iff.rfl⟩, nofun⟩, stood.2⟩
  seek := fun {t} nonneg => (starts.seek nonneg).imp fun d _ least stood => by
    refine ⟨⟨⟨stood.1, fun x le => ?_⟩, nofun⟩, stood.2⟩
    have notBefore : t ≤ x := Int32.le_trans (P.later t least.1) le
    rw [prompt t]
    exact (and_iff_left notBefore).symm

/-- A cursor that promises to go through the documents of its first move goes through all those of
`P` from there on. -/
theorem Starts.prompt (prompt : P.Prompt) (begins : Begins P c) :
    Starts P (fun _ => Stands P P.docs) c where
  next := begins.next
  seek := fun {t} nonneg => (begins.seek nonneg).imp fun d _ least stood => by
    refine ⟨stood.1.narrow fun x le => ?_, stood.2⟩
    have notBefore : t ≤ x := Int32.le_trans (P.later t least.1) le
    rw [prompt t]
    exact and_iff_left notBefore

theorem Starts.docs_nonneg (kept : Faithful P P.docs stands)
    (starts : Starts P (OnCourse P stands) c) : ∀ x ∈ P.docs, 0 ≤ x := by
  intro x inside
  cases starts.next with
  | found d c' _ least stood =>
      have nonneg : 0 ≤ d := (kept.onCourse P.docs).nonneg stood.1
      exact Int32.le_trans nonneg (least.2 inside)
  | missed c' _ empty => exact absurd inside (empty ▸ Set.notMem_empty x)

theorem Phase.rests {stands : Set DocId → DocId → Option Score → σ → Prop}
    (phase : Phase stands unmoved none c) : unmoved c := by
  cases phase with
  | before rests => exact rests

/-- Whatever the calls were, a cursor whose last move has found a document stands there. -/
theorem Calls.stood [Conclusive σ] (kept : Faithful P P.docs stands)
    (resting : Resting P (OnCourse P stands) unmoved) (rests : unmoved fresh)
    (calls : Calls fresh (some (.ok true)) c) :
    ∃ d v, stands d v c ∧ ∀ s, v = some s → ∃ n, P.scores d s n := by
  obtain ⟨D, d, v, ⟨stood, -⟩, scored⟩ := (calls.phase resting kept.onCourse rests).stood
  exact ⟨d, v, stood, scored⟩

/-- Before its first move a cursor goes through all documents of `P`. -/
theorem traverses_unmoved (kept : Faithful P P.docs stands) (prompt : P.Prompt)
    (starts : Starts P (OnCourse P stands) c) (before : Cursor.doc c = .beforeFirst)
    {given : DocId → Score → Prop} : Traverses P.docs given none c where
  unmoved := fun _ => before
  next := by
    rw [before, inter_beyond_beforeFirst (starts.docs_nonneg kept)]
    exact starts.next.imp fun _ _ _ stood => (kept.onCourse _).doc stood.1
  ahead := fun t later => by
    rw [before] at later
    have nonneg : 0 ≤ t := DocId.nonneg_of_beforeFirst_lt later
    rw [← prompt t]
    exact (starts.seek nonneg).imp fun _ _ _ stood => (kept.onCourse _).doc stood.1
  score := nofun

/-- From a document on, it goes through those that are still to come. -/
theorem Faithful.traverses (kept : Faithful P P.docs stands) {d : DocId} {v : Option Score}
    (stood : stands d v c) (scored : ∀ s, v = some s → ∃ n, P.scores d s n) :
    Traverses P.docs (fun d v => ∃ n, P.scores d v n) (some (.ok true)) c where
  unmoved := nofun
  next := by
    rw [kept.doc stood]
    exact (kept.next stood).imp fun _ _ _ stood' => kept.doc stood'.1
  ahead := fun t later => by
    rw [kept.doc stood] at later
    exact (kept.ahead stood later).imp fun _ _ _ stood' => kept.doc stood'.1
  score := fun _ => by
    obtain ⟨w, answered, stood', -⟩ := kept.scored.afterScore ⟨stood, scored⟩
    have place : Cursor.doc c = d := kept.doc stood
    have place' : Cursor.doc (Cursor.afterScore c) = d := kept.doc stood'.1
    exact ⟨w, answered, place ▸ stood'.2 w rfl, place'.trans place.symm⟩

/-- As long as a cursor has not run out, it goes through all documents of `P`, whatever the calls
were. -/
theorem Calls.traverses [Conclusive σ] (kept : Faithful P P.docs stands) (prompt : P.Prompt)
    (resting : Resting P (OnCourse P stands) unmoved)
    (before : ∀ {c}, unmoved c → Cursor.doc c = .beforeFirst) (rests : unmoved fresh)
    (calls : Calls fresh last c) (going : last = none ∨ last = some (.ok true)) :
    Traverses P.docs (fun d v => ∃ n, P.scores d v n) last c := by
  obtain rfl | rfl := going
  · have rests' := (calls.phase resting kept.onCourse rests).rests
    exact traverses_unmoved kept prompt (resting.starts rests') (before rests')
  · obtain ⟨d, v, stood, scored⟩ := calls.stood kept resting rests
    exact kept.traverses stood scored

/-- Cursors that do not change if they are sent back and answer that they stay. -/
def Steadfast (σ : Type) [Cursor σ] : Prop :=
  ∀ {c c' : σ} {t : DocId}, 0 ≤ t → t ≤ Cursor.doc c → Cursor.seek c t = .done c' true → c' = c

end Cursor

open Cursor

namespace PostingCursor

variable {c : PostingCursor} {t : DocId}

/-- A target that is not negative is not refused. -/
theorem seek_of_nonneg (c : PostingCursor) (nonneg : 0 ≤ t) :
    Cursor.seek c t = .done (c.jump t) (!(c.jump t).isExhausted) :=
  if_neg (Int32.not_lt.mpr nonneg)

theorem jump_of_le (nonneg : 0 ≤ t) (back : t ≤ c.doc) : c.jump t = c := by
  have started : c.started = true := by
    by_contra fresh
    rw [doc, if_neg fresh] at back
    exact absurd (Int32.le_trans nonneg back) (by decide)
  have stays : (if c.place < c.list.size then c.list.findFrom c.place t else c.place) =
      c.place := by
    split
    · rename_i inside
      obtain ⟨⟨le, -⟩, before, -⟩ := c.list.findFrom_spec t (Nat.le_of_lt inside)
      by_contra moved
      have earlier := before c.place inside (Nat.le_refl _) (by omega)
      rw [doc, if_pos started, posting?, Array.getElem?_eq_getElem inside] at back
      exact Int32.not_le.mpr earlier back
    · rfl
  rw [jump, stays, ← started]

/-- Sent back, a posting cursor stays as it is. -/
theorem steadfast : Steadfast PostingCursor := by
  intro c c' t nonneg back eq
  rw [c.seek_of_nonneg nonneg, jump_of_le nonneg back] at eq
  exact (congrArg Outcome.state eq).symm

end PostingCursor

end Retrieval
