import Retrieval.Proofs.Explained
import Retrieval.Proofs.Nested

/-!
# Searching and explaining agree on what matches

A search finds documents by moving through them; an explanation looks at one document alone. Moving
to the next document until there is none left delivers exactly the documents that are explained as
matches.
-/

namespace Retrieval

namespace Cursor

variable {σ : Type} [Cursor σ]

/-- The documents found by moving to the next one until there is none left. -/
inductive Lists : σ → List DocId → Prop
  | nil {c : σ} (ended : (Cursor.next c).answer = .ok false) : Lists c []
  | cons {c : σ} {docs : List DocId} (found : (Cursor.next c).answer = .ok true)
      (rest : Lists (Cursor.next c).state docs) :
      Lists c (Cursor.doc (Cursor.next c).state :: docs)

/-- The documents of a set are listed in ascending order. -/
def Delivers (W : Set DocId) (c : σ) : Prop :=
  ∃ docs, Lists c docs ∧ docs.Pairwise (· < ·) ∧ ∀ d, d ∈ docs ↔ d ∈ W

variable {P : Prospect} {D W : Set DocId} {c : σ}

/-- The first document is listed before those that are delivered from there. -/
theorem delivers_of_finds (finds : (Cursor.next c).Finds W fun d c' =>
    Cursor.doc c' = d ∧ Delivers (W ∩ beyond d) c') : Delivers W c := by
  cases finds with
  | missed c' eq empty =>
      refine ⟨[], .nil (by rw [eq]; rfl), .nil, fun d => ?_⟩
      rw [empty]
      exact iff_of_false List.not_mem_nil (Set.notMem_empty d)
  | found e c' eq least stood =>
      obtain ⟨place, docs, lists, ascending, listed⟩ := stood
      refine ⟨e :: docs, ?_, List.pairwise_cons.mpr ⟨fun x inside => ?_, ascending⟩, fun x => ?_⟩
      · have listed : Lists c (Cursor.doc (Cursor.next c).state :: docs) :=
          .cons (by rw [eq]; rfl) (by rw [eq]; exact lists)
        rw [eq] at listed
        exact place ▸ listed
      · exact ((listed x).mp inside).2
      · rw [List.mem_cons, listed]
        constructor
        · rintro (rfl | inside)
          · exact least.1
          · exact inside.1
        · intro inside
          by_cases same : x = e
          · exact .inl same
          · exact .inr ⟨inside, Int32.lt_of_le_of_ne (least.2 inside) (Ne.symm same)⟩

/-- What is delivered from a document on; each move uses up one of those that are left. -/
theorem Stands.delivers {d : DocId} {v : Option Score} (h : Stands P D d v c) :
    Delivers (D ∩ beyond d) c := by
  induction moves : movesLeft c using Nat.strong_induction_on generalizing d v c with
  | _ moves ih =>
      refine delivers_of_finds ((faithful_stands.next h).imp fun e c' least stood => ?_)
      refine ⟨faithful_stands.doc stood.1, ?_⟩
      have after : D ∩ beyond d ∩ beyond e = D ∩ beyond e := by
        ext x
        exact ⟨fun inside => ⟨inside.1.1, inside.2⟩,
          fun inside => ⟨⟨inside.1, Int32.lt_trans least.1.2 inside.2⟩, inside.2⟩⟩
      rw [after]
      exact ih _ (moves ▸ stood.2) stood.1 rfl

theorem Starts.delivers (begins : Begins P c) : Delivers P.docs c :=
  delivers_of_finds (begins.next.imp fun _ _ _ stood =>
    ⟨faithful_stands.doc stood.1, stood.1.delivers⟩)

end Cursor

open Cursor

/-- A document is explained as a match exactly if it is among those found by moving a query's cursor
to the next document until there is none left. -/
theorem Query.matched_explain_iff_listed {height : Nat} (q : Query height) :
    ∃ fresh docs, q.cursor = .ok fresh ∧ Lists fresh docs ∧ docs.Pairwise (· < ·) ∧
      ∀ d, (q.explain d).matched = true ↔ d ∈ docs := by
  obtain ⟨fresh, made, idle⟩ := q.exists_cursor
  obtain ⟨docs, lists, ascending, listed⟩ := idle.toStarts.delivers
  refine ⟨fresh, docs, made, lists, ascending, fun d => ?_⟩
  rw [q.matched_explain, listed, q.mem_prospect]

end Retrieval
