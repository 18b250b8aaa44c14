import Retrieval.Proofs.AnyOf

/-!
# Documents of one list that are not in others

An exclusion goes through the documents of its required side that the excluded one does not have.
If it is started by a seek, each side goes through the documents that it has after that seek; for
lists these are all documents from the target on, so it does not matter how an exclusion is started.
-/

namespace Retrieval

open Cursor Prospect

namespace Exclusion

variable {ρ ε : Type} [Cursor ρ] [Cursor ε] {P X : Prospect} {D D' E E' : Set DocId}
variable {d t : DocId} {v : Option Score} {c : Exclusion ρ ε} {required : ρ} {excluded : ε}

/-- Only the documents from where an exclusion stands matter to it. -/
theorem Standing.narrow (h : Standing P X D E d v c) (same : ∀ x, d ≤ x → (x ∈ D ↔ x ∈ D'))
    (same' : ∀ x, d ≤ x → (x ∈ E ↔ x ∈ E')) : Standing P X D' E' d v c := by
  cases h with
  | intro stands clear => exact .intro (stands.narrow same) (clear.narrow same')

/-- If the required side does not change when it is sent back, the exclusion does not either: the
excluded side, which is clear of the document, is not moved. -/
theorem Standing.stays (steadfast : Steadfast ρ) (h : Standing P X D E d v c) (nonneg : 0 ≤ t)
    (back : t ≤ d) (inside : d ∈ P.holds) : Cursor.seek c t = .done c true := by
  cases h with
  | @intro required excluded stands clear =>
      obtain ⟨required', eq, -⟩ := faithful_stands.held stands nonneg back inside
      have place : Cursor.doc required = d := faithful_stands.doc stands
      obtain rfl : required' = required := steadfast nonneg (place.symm ▸ back) eq
      cases clear with
      | out empty => rw [seek_begun_none, eq, Outcome.within_done]
      | beyond stands' least after =>
          rw [seek_begun_some, eq, follow_done, if_pos rfl, pass, judge, place,
            faithful_stands.doc stands', if_pos after, Outcome.bind_done]
          rfl

/-- If neither side leaves out documents when it is started by a seek, the exclusion does not. -/
theorem starts_ofParts (prompt : P.Prompt) (prompt' : X.Prompt) (begins : Begins P required)
    (begins' : Begins X excluded) :
    Starts (P.without X) (fun _ => Standing P X P.docs X.docs) (ofParts required excluded) where
  next := next_finds begins begins'
  seek := fun {t} nonneg => (seek_finds begins begins' nonneg).imp fun d _ least stood => by
    have same : ∀ {Q : Prospect}, Q.Prompt → ∀ x, d ≤ x → (x ∈ Q.docsFrom t ↔ x ∈ Q.docs) := by
      intro Q prompt x le
      have notBefore : t ≤ x := Int32.le_trans ((P.without X).later t least.1) le
      rw [prompt t]
      exact and_iff_left notBefore
    exact ⟨stood.1.narrow (same prompt) (same prompt'), stood.2⟩

/-- What to expect of a term without the documents of others. -/
theorem docs_without (required : TermQuery) (excluded : List TermQuery) :
    (required.prospect.without (Prospect.anyOf (excluded.map TermQuery.prospect))).docs =
      {d | required.isMatch d = true ∧ ¬ ∃ q ∈ excluded, q.isMatch d = true} := by
  ext d
  refine and_congr TermQuery.mem_prospect (not_congr ?_)
  exact TermQuery.mem_docs_anyOf.trans List.any_eq_true

/-- An exclusion of terms goes through the documents that the required one has and none of the
excluded ones, whatever the calls are. Sent back from a document, it stays as it is. The score on a
document is that of the required term. -/
theorem traverses_difference (required : TermQuery) {excluded : List TermQuery}
    (nonempty : excluded ≠ []) :
    ∃ e, TermQuery.anyOf excluded = .ok e ∧ ∀ {last c},
      Calls (ofParts required.cursor e) last c → last = none ∨ last = some (.ok true) →
        Traverses {d | required.isMatch d = true ∧ ¬ ∃ q ∈ excluded, q.isMatch d = true}
          (fun d v => required.score? d = some v) last c ∧
        ∀ t, 0 ≤ t → t ≤ Cursor.doc c → Cursor.seek c t = .done c true := by
  obtain ⟨e, made, begins', -⟩ := TermQuery.exists_anyOf nonempty
  refine ⟨e, made, fun {last c} calls going => ?_⟩
  have steady := required.steady_prospect
  have prompt' := TermQuery.prompt_anyOf excluded
  have starts := starts_ofParts steady.prompt prompt' required.idle_cursor.toStarts begins'
  have prompt := steady.prompt.guarded (List.forall_mem_singleton.mpr prompt')
  have before : Cursor.doc (ofParts required.cursor e) = .beforeFirst := required.idle_cursor.doc
  have resting := (starts.onCourse prompt).resting before rfl
  have traverses := calls.traverses faithful_standing prompt resting
    (fun same => same ▸ before) rfl going
  rw [docs_without] at traverses
  refine ⟨traverses.imp fun d v ⟨n, scored⟩ => ?_, fun t nonneg back => ?_⟩
  · obtain rfl := required.silent_prospect d v n scored
    exact TermQuery.scores_prospect.mp scored
  · obtain rfl := traverses.moved going nonneg back
    obtain ⟨d, v, stood, -⟩ := calls.stood faithful_standing resting rfl
    rw [faithful_standing.doc stood] at back
    exact stood.stays PostingCursor.steadfast nonneg back (steady.holds ▸ Set.mem_univ d)

def whole : TermQuery :=
  ⟨"whole", ⟨#[⟨1, 1⟩, ⟨3, 1⟩, ⟨5, 1⟩, ⟨8, 1⟩], by decide, by decide⟩, 1⟩

def pieces : List TermQuery :=
  [⟨"first", ⟨#[⟨3, 1⟩, ⟨7, 1⟩], by decide, by decide⟩, 1⟩,
    ⟨"second", ⟨#[⟨4, 1⟩, ⟨5, 1⟩], by decide, by decide⟩, 1⟩]

/-- Sent past the excluded documents, and then sent back. -/
theorem traverses_difference_pieces : pieces ≠ [] ∧ ∃ e c, TermQuery.anyOf pieces = .ok e ∧
    Calls (ofParts whole.cursor e) (some (.ok true)) c ∧ (0 : DocId) ≤ 4 ∧
    (4 : DocId) ≤ Cursor.doc c ∧ Cursor.seek c 4 = .done c true := by
  have nonempty : pieces ≠ [] := by decide
  obtain ⟨e, made, through⟩ := traverses_difference whole nonempty
  have moved : (TermQuery.anyOf pieces).map (fun e =>
      ((Cursor.seek (ofParts whole.cursor e) 2).answer,
        Cursor.doc (Cursor.seek (ofParts whole.cursor e) 2).state)) = .ok (.ok true, 8) := by
    decide +kernel
  rw [made] at moved
  obtain ⟨found, place⟩ : _ ∧ _ := by simpa using Except.ok.inj moved
  have admissible : (Move.seek 2).Admissible := show (0 : DocId) ≤ 2 by decide
  have calls : Calls (ofParts whole.cursor e) _ _ := .move .start (.seek 2) admissible
  rw [show ((Move.seek 2).make (ofParts whole.cursor e)).answer = .ok true from found] at calls
  have nonneg : (0 : DocId) ≤ 4 := by decide
  have back : (4 : DocId) ≤ Cursor.doc (Cursor.seek (ofParts whole.cursor e) 2).state := by
    rw [place]
    decide
  exact ⟨nonempty, e, _, made, calls, nonneg, back, (through calls (.inr rfl)).2 4 nonneg back⟩

end Exclusion

end Retrieval
