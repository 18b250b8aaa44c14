import Retrieval.Proofs.Contract

/-!
# Cursors that are asked for scores too early

Before its first move a cursor has no document to score. Asking for a score nevertheless may fail,
or answer something without meaning, but it does not start the cursor: what its moves will find is
still as expected. The cursors below may have been composed by such a call, so they are not always
left as they were.
-/

namespace Retrieval

/-- A document that a cursor goes through if it is started in some way. -/
def Prospect.Reaches (P : Prospect) (d : DocId) : Prop :=
  d ∈ P.docs ∨ ∃ t, d ∈ P.docsFrom t

namespace Cursor

variable {σ : Type} [Cursor σ] {P : Prospect}
variable {stands : Set DocId → DocId → Option Score → σ → Prop} {unmoved : σ → Prop}

/-- Cursors that have not been moved, and that asking for a score does not move. They stand before
all documents, unless there is no document that they could be moved to. -/
structure Resting (P : Prospect) (stands : Set DocId → DocId → Option Score → σ → Prop)
    (unmoved : σ → Prop) : Prop where
  starts : ∀ {c}, unmoved c → Starts P stands c
  doc : ∀ {c d}, unmoved c → P.Reaches d → Cursor.doc c = .beforeFirst
  score : ∀ {c}, unmoved c → unmoved (Cursor.score c).state

def Rests (P : Prospect) (c : σ) : Prop :=
  ∃ unmoved, Resting P (Stands P) unmoved ∧ unmoved c

theorem resting_rests : Resting P (Stands P) (Rests (σ := σ) P) where
  starts := fun ⟨_, kept, h⟩ => kept.starts h
  doc := fun ⟨_, kept, h⟩ => kept.doc h
  score := fun ⟨_, kept, h⟩ => ⟨_, kept, kept.score h⟩

theorem Rests.begins {c : σ} (h : Rests P c) : Begins P c := resting_rests.starts h

/-- What rests by a relation that keeps the promise, rests by the weakest one. -/
theorem Resting.rests {c : σ} (rests : Resting P stands unmoved)
    (kept : ∀ D, Faithful P D (stands D)) (h : unmoved c) : Rests P c := by
  refine ⟨unmoved, ⟨fun h => (rests.starts h).begins kept, rests.doc, rests.score⟩, h⟩

/-- Cursors that asking for a score leaves as they are. -/
theorem Starts.resting {c : σ} (starts : Starts P stands c) (before : Cursor.doc c = .beforeFirst)
    (stays : (Cursor.score c).state = c) : Resting P stands (· = c) where
  starts := fun same => same ▸ starts
  doc := fun same _ => same ▸ before
  score := fun same => by rw [same, stays]

/-- A cursor that can be a clause: it waits to be started, rests until then, and refuses targets
before all documents. -/
structure Idle (P : Prospect) (c : σ) : Prop extends Waits P c where
  rests : Rests P c
  refuses : ∀ {t}, t < 0 → ∃ failure, Cursor.seek c t = .fail c failure

namespace Embeds

variable {τ : Type} [Cursor τ] {whole : σ → τ} {c : σ}

theorem resting (embeds : Embeds whole) (kept : Resting P stands unmoved) :
    Resting P (fun D d v w => ∃ c, w = whole c ∧ stands D d v c)
      fun w => ∃ c, w = whole c ∧ unmoved c where
  starts := by
    rintro _ ⟨c, rfl, h⟩
    exact embeds.starts (kept.starts h)
  doc := by
    rintro _ d ⟨c, rfl, h⟩ reaches
    rw [embeds.doc, kept.doc h reaches]
  score := by
    rintro _ ⟨c, rfl, h⟩
    rw [embeds.score]
    exact ⟨_, rfl, kept.score h⟩

theorem rests (embeds : Embeds whole) (h : Rests P c) : Rests P (whole c) :=
  (embeds.resting resting_rests).rests (fun _ => embeds.faithful faithful_stands) ⟨c, rfl, h⟩

theorem idle (embeds : Embeds whole) (h : Idle P c) : Idle P (whole c) where
  toWaits := embeds.waits h.toWaits
  rests := embeds.rests h.rests
  refuses := fun negative => by
    obtain ⟨failure, eq⟩ := h.refuses negative
    exact ⟨failure, by rw [embeds.seek, eq, Outcome.within_fail]⟩

end Embeds

end Cursor

end Retrieval
