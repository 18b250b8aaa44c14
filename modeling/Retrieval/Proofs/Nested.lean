import Retrieval.Proofs.Terms

/-!
# Searching for nested queries

Which documents a query matches is defined by recursion over the query. So is what to expect of its
cursor, and both agree: a query's cursor can always be made, waits to be started, and then goes
through the documents that the query matches, however it is moved on and whenever it is asked for
scores.
-/

namespace Retrieval

namespace Cursor

variable {σ : Type} [Cursor σ]

theorem embeds_posting : Embeds (Node.posting : PostingCursor → Node σ) :=
  ⟨fun _ => rfl, fun _ => rfl, fun _ _ => rfl, fun _ => rfl, fun _ => rfl⟩

theorem embeds_boolean : Embeds (Node.boolean : BooleanCursor σ → Node σ) :=
  ⟨fun _ => rfl, fun _ => rfl, fun _ _ => rfl, fun _ => rfl, fun _ => rfl⟩

end Cursor

open Boolean Cursor

namespace Query

/-- Whether a query matches a document. -/
def isMatch : {height : Nat} → Query height → DocId → Bool
  | 0, q, _ => nomatch q
  | _ + 1, .term q, doc => q.isMatch doc
  | _ + 1, .boolean q, doc => accepts q.rules q.clauses fun clause => clause.isMatch doc

/-- What to expect of a cursor for a query. -/
noncomputable def prospect : {height : Nat} → Query height → Prospect
  | 0, q => nomatch q
  | _ + 1, .term q => q.prospect
  | _ + 1, .boolean q =>
    (Prospect.ofRoles q.rules (q.clauses.map fun x => (x.1, x.2.prospect)) Set.univ).coordinated
      q.rule (counting q.clauses).length

theorem silent_prospect : {height : Nat} → (q : Query height) → q.prospect.Silent
  | 0, q => nomatch q
  | _ + 1, .term q => q.silent_prospect
  | _ + 1, .boolean _ => Prospect.silent_coordinated

/-- The documents expected are those that the query matches. -/
theorem mem_prospect {height : Nat} {d : DocId} (q : Query height) :
    d ∈ q.prospect.docs ↔ q.isMatch d = true := by
  induction height with
  | zero => exact nomatch q
  | succ height ih =>
      cases q with
      | term q => exact TermQuery.mem_prospect
      | boolean q => exact Prospect.mem_ofRoles fun x _ => ih x.2

end Query

namespace BooleanQuery

variable {κ σ : Type} {q : BooleanQuery κ}

/-- Adding the cursors of clauses while they are made is adding them once they have been made. -/
theorem foldlM_cursor {clauses : List (Role × κ)} {added : List (Role × σ)}
    {cursor : κ → Except Failure σ} (search : BooleanCursor σ)
    (cursors : List.Forall₂ (fun x c => x.1 = c.1 ∧ cursor x.2 = .ok c.2) clauses added) :
    clauses.foldlM (fun search (role, clause) => do search.add role (← cursor clause)) search =
      added.foldlM (fun search (role, clause) => search.add role clause) search := by
  induction cursors generalizing search with
  | nil => rfl
  | @cons x c clauses added made _ ih =>
      obtain ⟨role, clause⟩ := x
      obtain ⟨role', made'⟩ := c
      obtain ⟨rfl, eq⟩ := made
      rw [List.foldlM_cons, List.foldlM_cons]
      dsimp only at eq ⊢
      rw [eq]
      exact congrArg _ (funext ih)

theorem cursor_eq_build {added : List (Role × σ)} {cursor : κ → Except Failure σ}
    (cursors : List.Forall₂ (fun x c => x.1 = c.1 ∧ cursor x.2 = .ok c.2) q.clauses added) :
    q.cursor cursor = BooleanCursor.build q.rule q.rules added := by
  rw [BooleanQuery.cursor, BooleanCursor.build]
  exact congrArg _ (funext fun search => foldlM_cursor search cursors)

/-- A search for a query is built from idle cursors for its clauses, if these can be made. -/
theorem exists_build {height : Nat} {q : BooleanQuery (Query height)}
    (cursors : ∀ clause : Query height, ∃ c, clause.cursor = .ok c ∧ Idle clause.prospect c) :
    ∃ added search, BooleanCursor.build q.rule q.rules added = .ok search ∧
      q.cursor Query.cursor = .ok search ∧
      List.Forall₂ (fun x c => x.1 = c.1 ∧ Idle x.2 c.2)
        (q.clauses.map fun x => (x.1, x.2.prospect)) added := by
  choose cursor made idle using cursors
  let added : List (Role × Tree height) := q.clauses.map fun x => (x.1, cursor x.2)
  have room : added.length ≤ q.rules.maxClauses := by
    rw [List.length_map]
    exact q.bounded
  have each : List.Forall₂ (fun x c => x.1 = c.1 ∧ x.2.cursor = .ok c.2) q.clauses added := by
    rw [List.forall₂_map_right_iff, List.forall₂_same]
    exact fun x _ => ⟨rfl, made x.2⟩
  have built : BooleanCursor.build q.rule q.rules added = .ok _ :=
    BooleanCursor.build_eq_ok.mpr ⟨q.usable, room, rfl⟩
  refine ⟨added, _, built, (cursor_eq_build each).trans built, ?_⟩
  rw [List.forall₂_map_left_iff, List.forall₂_map_right_iff, List.forall₂_same]
  exact fun x _ => ⟨rfl, idle x.2⟩

end BooleanQuery

namespace Query

/-- A query always has a cursor, and it waits to be started. -/
theorem exists_cursor {height : Nat} (q : Query height) :
    ∃ c, q.cursor = .ok c ∧ Idle q.prospect c := by
  induction height with
  | zero => exact nomatch q
  | succ height ih =>
      cases q with
      | term q => exact ⟨_, rfl, embeds_posting.idle q.idle_cursor⟩
      | boolean q =>
          obtain ⟨added, search, built, made, idle⟩ := BooleanQuery.exists_build (q := q) ih
          have silent : ∀ x ∈ q.clauses.map fun x => (x.1, x.2.prospect), x.2.Silent :=
            List.forall_mem_map.mpr fun x _ => x.2.silent_prospect
          have whole := BooleanCursor.idle_build silent idle built
          rw [counting_map (fun clause : Query height => clause.prospect),
            List.length_map] at whole
          refine ⟨.boolean search, ?_, embeds_boolean.idle whole⟩
          rw [Query.cursor, made]
          rfl

/-- Started by a seek, a query's cursor goes through the documents expected after it. -/
theorem goesThrough_iff {height : Nat} {q : Query height} {c : Tree height} {t d : DocId}
    (made : q.cursor = .ok c) (nonneg : 0 ≤ t) : GoesThrough c t d ↔ d ∈ q.prospect.docsFrom t := by
  obtain ⟨c', made', idle⟩ := q.exists_cursor
  obtain rfl : c' = c := Except.ok.inj (made'.symm.trans made)
  exact idle.toStarts.goesThrough_iff nonneg

/-- Any query has a cursor. It goes through the documents that the query matches, whenever it is
moved to the next one or sent to a target that lies ahead, and whenever it is asked for scores. -/
theorem run_finds {height : Nat} (q : Query height) : ∃ fresh, q.cursor = .ok fresh ∧
    ∀ {place c}, Run fresh place c →
      (Cursor.next c).Finds ({d | q.isMatch d = true} ∩ after place)
        (fun d c => Cursor.doc c = d) ∧
      ∀ {d t}, place = some d → Cursor.doc c < t →
        (Cursor.seek c t).Finds ({d | q.isMatch d = true} ∩ since t)
          fun d c => Cursor.doc c = d := by
  obtain ⟨fresh, made, idle⟩ := q.exists_cursor
  have docs : {d | q.isMatch d = true} = q.prospect.docs := Set.ext fun d => q.mem_prospect.symm
  refine ⟨fresh, made, fun {place c} run => ?_⟩
  rw [docs]
  refine ⟨run.next_finds idle.toStarts, fun {d t} placed later => ?_⟩
  subst placed
  exact run.seek_finds idle.toStarts later

theorem usable_default : ({} : ClauseRules).maxClauses ≠ 0 := by decide

/-- A query nested in another one, with two documents. -/
def nested : Query 3 :=
  .boolean {
    rules := {}
    rule := .constant
    clauses := [(.required, .boolean {
      rules := { minOptional := 1 }
      rule := .fraction
      clauses := [(.optional, .term ⟨"both", ⟨#[⟨1, 1⟩, ⟨5, 1⟩], by decide, by decide⟩, 1⟩)]
      usable := usable_default
      bounded := by decide })]
    usable := usable_default
    bounded := by decide }

/-- On the first document of the nested query, after a score, a seek to a target ahead. -/
theorem run_finds_nested : ∃ fresh c, nested.cursor = .ok fresh ∧ Run fresh (some 1) c ∧
    Cursor.doc c < 3 ∧
    (Cursor.seek c 3).Finds ({d | nested.isMatch d = true} ∩ since 3)
      fun d c => Cursor.doc c = d := by
  obtain ⟨fresh, made, finds⟩ := run_finds nested
  have moved : nested.cursor.map (fun fresh => ((Cursor.next fresh).answer,
      Cursor.doc (Cursor.next fresh).state, Cursor.doc (afterScore (Cursor.next fresh).state))) =
        .ok (.ok true, 1, 1) := by
    decide +kernel
  rw [made] at moved
  obtain ⟨found, place, stays⟩ : _ ∧ _ ∧ _ := by simpa using Except.ok.inj moved
  have run : Run fresh (some (Cursor.doc (Cursor.next fresh).state))
      (afterScore (Cursor.next fresh).state) := (Run.start.next found).score
  rw [place] at run
  have ahead : Cursor.doc (afterScore (Cursor.next fresh).state) < 3 := stays ▸ by decide
  exact ⟨fresh, _, made, run, ahead, (finds run).2 rfl ahead⟩

end Query

end Retrieval
