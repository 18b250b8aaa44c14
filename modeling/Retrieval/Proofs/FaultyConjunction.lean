import Retrieval.Proofs.Faults
import Retrieval.Proofs.Rounds

/-!
# Conjunctions of parts that may fail

A conjunction loses a part whose seek fails while the parts are brought together, and is left with
its parts in disorder if one of several fails to be sent to a target. So if there are several parts,
their seeks must not fail. Their moves to the next document may: the part in the last place then
stays on the document that all stand on.

For each set of documents there has to be a part that stands for it. Which part that is does not
matter, so nothing is lost when the parts change places.
-/

namespace Retrieval

open Cursor Outcome

namespace Conjunction

variable {σ : Type} [Cursor σ] {seeks : Prop} {Ds : List (Set DocId)} {W : Set DocId}
variable {parts parts' : List σ} {p p' : σ} {c c' : Conjunction σ} {d t : DocId}

omit [Cursor σ] in
/-- Parts that have become others, each one another, in whatever order they are now. -/
structure Become (R : σ → σ → Prop) (parts parts' : List σ) : Prop where
  size : parts'.length = parts.length
  back : ∀ p' ∈ parts', ∃ p ∈ parts, R p p'
  forth : ∀ p ∈ parts, ∃ p' ∈ parts', R p p'

omit [Cursor σ] in
theorem Become.cons {R : σ → σ → Prop} (first : R p p') (rest : Become R parts parts') :
    Become R (p :: parts) (p' :: parts') where
  size := congrArg Nat.succ rest.size
  back := List.forall_mem_cons.mpr ⟨⟨p, List.mem_cons_self, first⟩, fun q' inside => by
    obtain ⟨q, there, became⟩ := rest.back q' inside
    exact ⟨q, List.mem_cons_of_mem p there, became⟩⟩
  forth := List.forall_mem_cons.mpr ⟨⟨p', List.mem_cons_self, first⟩, fun q inside => by
    obtain ⟨q', there, became⟩ := rest.forth q inside
    exact ⟨q', List.mem_cons_of_mem p' there, became⟩⟩

omit [Cursor σ] in
theorem Become.perm {R : σ → σ → Prop} {parts'' : List σ} (become : Become R parts parts')
    (perm : parts''.Perm parts') : Become R parts parts'' where
  size := perm.length_eq.trans become.size
  back := fun p' inside => become.back p' (perm.mem_iff.mp inside)
  forth := fun p inside => by
    obtain ⟨p', there, became⟩ := become.forth p inside
    exact ⟨p', perm.mem_iff.mpr there, became⟩

/-- There are parts, and one of them stands for each of the sets. -/
structure Row (holds : Set DocId → σ → Prop) (Ds : List (Set DocId)) (parts : List σ) : Prop where
  nonempty : parts ≠ []
  each : ∀ p ∈ parts, holds Set.univ p
  some : ∀ D ∈ Ds, ∃ p ∈ parts, holds D p

omit [Cursor σ] in
theorem Row.become {holds holds' : Set DocId → σ → Prop} {R : σ → σ → Prop}
    (row : Row holds Ds parts) (become : Become R parts parts')
    (inherit : ∀ p p', R p p' → ∀ D, holds D p → holds' D p') : Row holds' Ds parts' where
  nonempty := by
    rintro rfl
    exact row.nonempty (List.length_eq_zero_iff.mp become.size.symm)
  each := fun p' inside => by
    obtain ⟨p, there, became⟩ := become.back p' inside
    exact inherit p p' became _ (row.each p there)
  some := fun D inside => by
    obtain ⟨p, there, stands⟩ := row.some D inside
    obtain ⟨p', there', became⟩ := become.forth p there
    exact ⟨p', there', inherit p p' became D stands⟩

omit [Cursor σ] in
/-- One part is replaced by one that stands for as much. -/
theorem Row.replace {holds : Set DocId → σ → Prop} {rest : List σ} (row : Row holds Ds parts)
    (before : parts.Perm (p :: rest)) (after : parts'.Perm (p' :: rest))
    (inherit : ∀ D, holds D p → holds D p') : Row holds Ds parts' where
  nonempty := by
    rintro rfl
    exact List.cons_ne_nil _ _ after.nil_eq.symm
  each := fun q inside => by
    obtain rfl | there := List.mem_cons.mp (after.mem_iff.mp inside)
    · exact inherit _ (row.each p (before.mem_iff.mpr List.mem_cons_self))
    · exact row.each q (before.mem_iff.mpr (List.mem_cons_of_mem p there))
  some := fun D inside => by
    obtain ⟨q, there, stands⟩ := row.some D inside
    obtain rfl | there := List.mem_cons.mp (before.mem_iff.mp there)
    · exact ⟨p', after.mem_iff.mpr List.mem_cons_self, inherit D stands⟩
    · exact ⟨q, after.mem_iff.mpr (List.mem_cons_of_mem p' there), stands⟩

omit [Cursor σ] in
theorem row_of_forall₂ {holds : Set DocId → σ → Prop} (nonempty : Ds ≠ [])
    (all : List.Forall₂ holds Ds parts) (weaken : ∀ D p, holds D p → holds Set.univ p) :
    Row holds Ds parts where
  nonempty := by
    rintro rfl
    exact nonempty (List.forall₂_nil_right_iff.mp all)
  each := by
    clear nonempty
    induction all with
    | nil => exact List.forall_mem_nil _
    | cons first _ ih => exact List.forall_mem_cons.mpr ⟨weaken _ _ first, ih⟩
  some := by
    clear nonempty
    induction all with
    | nil => exact List.forall_mem_nil _
    | @cons D p Ds parts first _ ih =>
        refine List.forall_mem_cons.mpr ⟨⟨p, List.mem_cons_self, first⟩, fun D inside => ?_⟩
        obtain ⟨q, there, stands⟩ := ih D inside
        exact ⟨q, List.mem_cons_of_mem p there, stands⟩

/-- A part stands for all that the other one stood for. -/
def Inherits (seeks : Prop) (p p' : σ) : Prop := ∀ D, Upholds seeks D p → Upholds seeks D p'

theorem lands_inherits (move : Move) (h : Upholds seeks Set.univ p) (admissible : move.Admissible) :
    Leaves (fun _ => move.Fallible seeks)
      (Lands (Inherits seeks p) (Cursor.doc p) (move.window (Cursor.doc p))) (move.make p) := by
  have : Nonempty { D // Upholds seeks D p } := ⟨⟨Set.univ, h⟩⟩
  have leaves := Leaves.forall fun D : { D // Upholds seeks D p } =>
    upholding_upholds.move move D.2 admissible
  apply leaves.imp
  intro found p' all
  have lands : ∀ D, Upholds seeks D p →
      Lands (Upholds seeks D) (Cursor.doc p) (move.window (Cursor.doc p)) found p' :=
    fun D h => all ⟨D, h⟩
  cases lands Set.univ h with
  | failed _ stays =>
      refine .failed (fun D h => ?_) stays
      cases lands D h with
      | failed kept => exact kept
  | found _ inside =>
      refine .found (fun D h => ?_) inside
      cases lands D h with
      | found kept => exact kept
  | missed => exact .missed

/-- The parts stand together. If seeks may fail, there is only one part. -/
structure Joint (seeks : Prop) (Ds : List (Set DocId)) (c : Conjunction σ) : Prop where
  started : c.fresh = false
  more : c.more = true
  row : Row (Upholds seeks) Ds c.parts
  alone : seeks → c.parts.length ≤ 1
  agree : ∀ p ∈ c.parts, Cursor.doc p = c.doc

/-- The parts are in order, and the last one has reached the window. -/
structure Lined (seeks : Prop) (Ds : List (Set DocId)) (W : Set DocId) (c : Conjunction σ) :
    Prop where
  started : c.fresh = false
  more : c.more = true
  row : Row (Upholds seeks) Ds c.parts
  alone : seeks → c.parts.length ≤ 1
  ascending : c.parts.Pairwise fun p q => Cursor.doc p ≤ Cursor.doc q
  reached : c.lastDoc ∈ W

/-- If a document has been found, the parts stand together on one in the window. -/
def Meets (seeks : Prop) (Ds : List (Set DocId)) (W : Set DocId) (found : Option Bool)
    (c : Conjunction σ) : Prop :=
  found = some true → Joint seeks Ds c ∧ c.doc ∈ W

theorem Row.going (row : Row (Upholds seeks) Ds c.parts) : c.Going where
  parts := fun p inside => upholding_upholds.progresses (row.each p inside)
  nonempty := fun _ _ => row.nonempty

/-- In order, no part stands beyond the last one. -/
theorem Lined.le_last (h : Lined seeks Ds W c) : ∀ p ∈ c.parts, Cursor.doc p ≤ c.lastDoc := by
  obtain ⟨front, last, split⟩ := (List.eq_nil_or_concat' c.parts).resolve_left h.row.nonempty
  rw [c.lastDoc_append split]
  have ascending := h.ascending
  rw [split] at ascending ⊢
  refine List.forall_mem_append.mpr ⟨fun p inside => ?_, ?_⟩
  · exact (List.pairwise_append.mp ascending).2.2 p inside last List.mem_cons_self
  · exact List.forall_mem_singleton.mpr (Int32.le_refl _)

/-- If the first part does not stand before the last one, all stand together. -/
theorem Lined.meets (h : Lined seeks Ds W c) (agree : ¬ c.doc < c.lastDoc) :
    Meets seeks Ds W (some true) c := by
  have first : ∀ p ∈ c.parts, c.doc ≤ Cursor.doc p := by
    obtain ⟨x, rest, parts⟩ := List.exists_cons_of_ne_nil h.row.nonempty
    have ascending := h.ascending
    rw [c.doc_cons parts]
    rw [parts] at ascending ⊢
    exact List.forall_mem_cons.mpr ⟨Int32.le_refl _, (List.pairwise_cons.mp ascending).1⟩
  have together : ∀ p ∈ c.parts, Cursor.doc p = c.doc := fun p inside =>
    Int32.le_antisymm (Int32.le_trans (h.le_last p inside) (Int32.not_lt.mp agree))
      (first p inside)
  refine fun _ => ⟨⟨h.started, h.more, h.row, h.alone, together⟩, ?_⟩
  obtain ⟨front, last, split⟩ := (List.eq_nil_or_concat' c.parts).resolve_left h.row.nonempty
  rw [← together last (by simp [split]), ← c.lastDoc_append split]
  exact h.reached

/-- Sending the first part to where the last one stands keeps the parts in order. -/
theorem Lined.rotate (h : Lined seeks Ds W c) (upper : IsUpperSet W) {rest : List σ}
    (split : c.parts = p :: rest) (inherits : Inherits seeks p p')
    (later : c.lastDoc ≤ Cursor.doc p') (several : ¬ seeks) :
    Lined seeks Ds W { c with parts := rest ++ [p'], more := true } where
  started := h.started
  more := rfl
  row := h.row.replace (.of_eq split) (List.perm_append_singleton p' rest) inherits
  alone := fun fallible => absurd fallible several
  ascending := by
    have ascending := List.pairwise_cons.mp (split ▸ h.ascending)
    refine List.pairwise_append.mpr ⟨ascending.2, List.pairwise_singleton _ _, ?_⟩
    intro q inside _ same
    rw [List.mem_singleton.mp same]
    exact Int32.le_trans (h.le_last q (split ▸ List.mem_cons_of_mem p inside)) later
  reached := by
    rw [lastDoc_append _ rfl]
    exact upper later h.reached

/-- The parts are brought together, unless the bound on the rounds is too low. -/
theorem Lined.converge (upper : IsUpperSet W) (bound : Nat) (h : Lined seeks Ds W c) :
    Leaves (· = .stalled) (Meets seeks Ds W) (c.converge bound) := by
  induction bound generalizing c with
  | zero => exact .failed no_answer rfl
  | succ bound ih =>
      obtain ⟨first, rest, parts⟩ := List.exists_cons_of_ne_nil h.row.nonempty
      obtain ⟨front, last, split⟩ := (List.eq_nil_or_concat' c.parts).resolve_left h.row.nonempty
      rw [c.converge_cons bound h.more parts split, ← c.doc_cons parts, ← c.lastDoc_append split]
      split
      · next behind =>
        have several : ¬ seeks := fun fallible => by
          have rest' := List.length_pos_iff.mpr (ne_nil_of_doc_lt parts behind)
          have alone := h.alone fallible
          rw [parts, List.length_cons] at alone
          omega
        have nonneg : 0 ≤ c.lastDoc := by
          rw [c.lastDoc_append split]
          exact upholding_upholds.nonneg (h.row.each last (by simp [split]))
        have lands := lands_inherits (.seek c.lastDoc)
          (h.row.each first (by simp [parts])) nonneg
        refine (lands.mono fun _ fallible => absurd fallible several).bind
          (fun _ _ => no_answer) fun found first' left => ?_
        cases left with
        | missed => exact .answered not_found
        | found inherits inside =>
            exact ih (h.rotate upper parts inherits inside.2 several)
      · next agree => exact .answered (h.meets agree)

/-- Nothing fails while the parts are brought together. -/
theorem Lined.settle (h : Lined seeks Ds W c) (upper : IsUpperSet W) :
    Leaves (fun _ => False) (Lands (Joint seeks Ds) d W) c.settle := by
  have leaves := ((settle_ends h.row.going h.started).and (h.converge upper _)).mono
    fun _ both => both.1 both.2
  apply leaves.noting.imp
  intro found c' left
  obtain ⟨⟨-, meets⟩, sure⟩ := left
  match found, meets, sure with
  | none, _, sure => exact (sure rfl).elim fun _ never => never.elim
  | some true, meets, _ => exact .found (meets rfl).1 (meets rfl).2
  | some false, _, _ => exact .missed

/-- What a move of each part in turn leaves, `R` telling what one may leave. If it has failed, then
at some part, which is the only one if there is one at most. -/
structure EachMoved (R : σ → Option Bool → σ → Prop) (parts : List σ) (found : Option Bool)
    (parts' : List σ) : Prop where
  all : found = some true → Become (R · (some true) ·) parts parts'
  failed : found = none → parts ≠ [] ∧ (parts.length ≤ 1 → Become (R · none ·) parts parts')

omit [Cursor σ] in
theorem become_nil {R : σ → σ → Prop} : Become R [] [] :=
  ⟨rfl, List.forall_mem_nil _, List.forall_mem_nil _⟩

omit [Cursor σ] in
theorem sweep_leaves {R : σ → Option Bool → σ → Prop} {fails : Failure → Prop}
    {move : σ → Outcome σ Bool} (each : ∀ p ∈ parts, Leaves fails (R p) (move p)) :
    Leaves fails (EachMoved R parts) (sweep move parts) := by
  induction parts with
  | nil =>
      refine .answered ⟨fun _ => become_nil, fun failed => ?_⟩
      exact absurd failed (Option.some_ne_none _)
  | cons p rest ih =>
      obtain ⟨head, tail⟩ := List.forall_mem_cons.mp each
      rw [sweep]
      refine head.bind (fun p' left => ⟨no_answer, fun _ => ⟨List.cons_ne_nil _ _, ?_⟩⟩)
        fun found p' left => ?_
      · intro alone
        obtain rfl := List.length_eq_zero_iff.mp (Nat.le_zero.mp (Nat.succ_le_succ_iff.mp alone))
        exact become_nil.cons left
      cases found with
      | false =>
          rw [if_neg Bool.false_ne_true]
          exact .answered ⟨not_found, fun failed => absurd failed (Option.some_ne_none _)⟩
      | true =>
          rw [if_pos rfl]
          refine (ih tail).within fun found rest' swept => ⟨fun some => ?_, fun none => ?_⟩
          · obtain rfl := some
            exact (swept.all rfl).cons left
          · refine ⟨List.cons_ne_nil _ _, fun alone => absurd ?_ (swept.failed none).1⟩
            exact List.length_eq_zero_iff.mp (Nat.le_zero.mp (Nat.succ_le_succ_iff.mp alone))

/-- What a move of all parts leaves of a conjunction: the parts in order, or the note that one has
run out. If it has failed, only one part is known of. -/
inductive Regrouped (R : σ → Option Bool → σ → Prop) (c : Conjunction σ) :
    Option Unit → Conjunction σ → Prop
  | failed {parts : List σ} (all : c.parts.length ≤ 1 → Become (R · none ·) c.parts parts) :
      Regrouped R c none { c with parts }
  | found {parts : List σ} (all : Become (R · (some true) ·) c.parts parts)
      (ascending : parts.Pairwise fun p q => Cursor.doc p ≤ Cursor.doc q) :
      Regrouped R c (some ()) { c with parts, more := true }
  | missed {parts : List σ} : Regrouped R c (some ()) { c with parts, more := false }

theorem moveAll_leaves {R : σ → Option Bool → σ → Prop} {fails : Failure → Prop}
    {move : σ → Outcome σ Bool} (more : c.more = true)
    (each : ∀ p ∈ c.parts, Leaves fails (R p) (move p)) :
    Leaves fails (Regrouped R c) (c.moveAll move) := by
  rw [moveAll, if_pos more]
  refine (sweep_leaves each).bind (fun parts swept => .failed (swept.failed rfl).2)
    fun found parts swept => ?_
  cases found with
  | false => exact .answered .missed
  | true =>
      have sorted : (parts.mergeSort fun p q => Cursor.doc p ≤ Cursor.doc q).Pairwise
          fun p q => decide (Cursor.doc p ≤ Cursor.doc q) = true := by
        refine List.pairwise_mergeSort ?_ ?_ parts
        · intro p q r le le'
          exact decide_eq_true (Int32.le_trans (of_decide_eq_true le) (of_decide_eq_true le'))
        · intro p q
          simp only [Bool.or_eq_true, decide_eq_true_eq]
          exact Int32.le_total _ _
      exact .answered (.found ((swept.all rfl).perm (parts.mergeSort_perm _))
        (sorted.imp of_decide_eq_true))

/-- If all parts stand on one document, so does the conjunction. -/
theorem doc_of_agree (nonempty : c.parts ≠ []) (agree : ∀ p ∈ c.parts, Cursor.doc p = d) :
    c.doc = d := by
  obtain ⟨p, rest, parts⟩ := List.exists_cons_of_ne_nil nonempty
  rw [c.doc_cons parts]
  exact agree p (by simp [parts])

/-- Parts that have failed to move still stand together. -/
theorem Joint.stays (h : Joint seeks Ds c) (row : Row (Upholds seeks) Ds parts)
    (size : parts.length = c.parts.length) (stay : ∀ p ∈ parts, Cursor.doc p = c.doc) :
    Lands (Joint seeks Ds) c.doc W none { c with parts } := by
  have same : doc { c with parts } = c.doc := doc_of_agree row.nonempty stay
  exact .failed ⟨h.started, h.more, row, fun fallible => size ▸ h.alone fallible,
    fun p inside => (stay p inside).trans same.symm⟩ same

/-- Moving on only the part in the last place. -/
theorem Joint.next (h : Joint seeks Ds c) :
    c.next.Tries (Lands (Joint seeks Ds) c.doc (beyond c.doc)) := by
  obtain ⟨front, last, split⟩ := (List.eq_nil_or_concat' c.parts).resolve_left h.row.nonempty
  have unfolded : c.next = (Cursor.next last).bind (fun last => { c with parts := front ++ [last] })
      fun found last => { c with parts := front ++ [last], more := found }.settle := by
    rw [Conjunction.next, if_neg (by simp [h.started]), advanceLast, if_pos h.more, split]
    simp only [List.getLast?_concat, List.dropLast_concat, Outcome.bind_andThen,
      Outcome.andThen_done]
  obtain ⟨before, inside⟩ := List.forall_mem_append.mp (split ▸ h.agree)
  have place : Cursor.doc last = c.doc := inside last List.mem_cons_self
  have row : ∀ {last'}, Inherits seeks last last' →
      Row (Upholds seeks) Ds (front ++ [last']) := by
    intro last' inherits
    refine h.row.replace ?_ (List.perm_append_singleton last' front) inherits
    rw [split]
    exact List.perm_append_singleton last front
  have size : ∀ {last'}, (front ++ [last']).length = c.parts.length := by
    simp [split]
  rw [unfolded]
  have lands := lands_inherits .next (h.row.each last (by simp [split])) trivial
  rw [place] at lands
  refine lands.tries.bind (fun last' left => ?_) fun found last' left => ?_
  · cases left with
    | failed inherits stays =>
        exact h.stays (row inherits) size (List.forall_mem_append.mpr
          ⟨before, List.forall_mem_singleton.mpr stays⟩)
  · cases left with
    | missed =>
        rw [settle_of_not_more rfl]
        exact .answered .missed
    | found inherits inside =>
        have lined : Lined seeks Ds (beyond c.doc)
            { c with parts := front ++ [last'], more := true } := by
          refine ⟨h.started, rfl, row inherits, fun fallible => size ▸ h.alone fallible, ?_, ?_⟩
          · refine List.pairwise_append.mpr ⟨?_, List.pairwise_singleton _ _, ?_⟩
            · apply List.pairwise_of_forall_mem_list
              intro p hp q hq
              rw [before p hp, before q hq]
              exact Int32.le_refl _
            · intro p hp q hq
              rw [before p hp, List.mem_singleton.mp hq]
              exact Int32.le_of_lt inside
          · rw [lastDoc_append _ rfl]
            exact inside
        exact (lined.settle (isUpperSet_beyond _)).tries

/-- What is left of a part that has been sent to a target. -/
abbrev Sent (seeks : Prop) (t : DocId) (p : σ) (found : Option Bool) (p' : σ) : Prop :=
  Lands (Inherits seeks p) (Cursor.doc p) (since (Cursor.doc p) ∩ since t) found p'

theorem sent_of_row (row : Row (Upholds seeks) Ds parts) (nonneg : 0 ≤ t) :
    ∀ p ∈ parts, Leaves (fun _ => seeks) (Sent seeks t p) (Cursor.seek p t) :=
  fun p inside => lands_inherits (.seek t) (row.each p inside) nonneg

theorem Lands.of_found {good : σ → Prop} (lands : Lands good d W (some true) p) :
    good p ∧ Cursor.doc p ∈ W := by
  cases lands with
  | found kept inside => exact ⟨kept, inside⟩

/-- After a seek of all parts, each has found a document in the window. -/
theorem lined_of_sent (started : c.fresh = false) (row : Row (Upholds seeks) Ds c.parts)
    (alone : seeks → c.parts.length ≤ 1)
    (within : ∀ p ∈ c.parts, since (Cursor.doc p) ∩ since t ⊆ W)
    (all : Become (Sent seeks t · (some true) ·) c.parts parts)
    (ascending : parts.Pairwise fun p q => Cursor.doc p ≤ Cursor.doc q) :
    Lined seeks Ds W { c with parts, more := true } := by
  have row' : Row (Upholds seeks) Ds parts :=
    row.become all fun p p' sent => (Lands.of_found sent).1
  refine ⟨started, rfl, row', fun fallible => all.size ▸ alone fallible, ascending, ?_⟩
  obtain ⟨front, last, split⟩ := (List.eq_nil_or_concat' parts).resolve_left row'.nonempty
  obtain ⟨p, inside, sent⟩ := all.back last (by simp [split])
  rw [lastDoc_append _ split]
  exact within p inside (Lands.of_found sent).2

/-- Sending every part to a target. -/
theorem Joint.seek (h : Joint seeks Ds c) (nonneg : 0 ≤ t) :
    Leaves (fun _ => seeks) (Lands (Joint seeks Ds) c.doc (since c.doc ∩ since t)) (c.seek t) := by
  have upper : IsUpperSet (since c.doc ∩ since t) :=
    (isUpperSet_since _).inter (isUpperSet_since _)
  have within : ∀ p ∈ c.parts, since (Cursor.doc p) ∩ since t ⊆ since c.doc ∩ since t := by
    intro p inside
    rw [h.agree p inside]
  rw [Conjunction.seek, if_neg (by simp [h.started]), andThen_done]
  have moves := moveAll_leaves h.more (sent_of_row h.row nonneg)
  refine moves.noting.bind (fun c' left => ?_) fun _ c' left => ?_
  · obtain ⟨regrouped, fallible⟩ := left
    obtain ⟨-, fallible⟩ := fallible rfl
    cases regrouped with
    | failed all =>
        have become := all (h.alone fallible)
        have stays : ∀ {p p' : σ}, Sent seeks t p none p' →
            Inherits seeks p p' ∧ Cursor.doc p' = Cursor.doc p := by
          intro p p' sent
          cases sent with
          | failed inherits stays => exact ⟨inherits, stays⟩
        refine h.stays (h.row.become become fun p p' sent => (stays sent).1) become.size ?_
        intro p' there
        obtain ⟨p, inside, sent⟩ := become.back p' there
        exact (stays sent).2.trans (h.agree p inside)
  · cases left.1 with
    | missed =>
        rw [settle_of_not_more rfl]
        exact .answered .missed
    | found all ascending =>
        have lined := lined_of_sent h.started h.row h.alone within all ascending
        exact (lined.settle upper).mono fun _ never => never.elim

def common (Ds : List (Set DocId)) : Set DocId := {d | ∀ D ∈ Ds, d ∈ D}

theorem upholding_joint : Upholding seeks (common Ds) (Joint (σ := σ) seeks Ds) where
  progresses := fun h => ⟨Going, progressing_going, h.row.going⟩
  mem := by
    intro c h D inside
    obtain ⟨p, there, upholds⟩ := h.row.some D inside
    have place : Cursor.doc p = Cursor.doc c := h.agree p there
    exact place ▸ upholding_upholds.mem upholds
  nonneg := by
    intro c h
    obtain ⟨p, rest, parts⟩ := List.exists_cons_of_ne_nil h.row.nonempty
    have there : p ∈ c.parts := by simp [parts]
    have place : Cursor.doc p = Cursor.doc c := h.agree p there
    exact place ▸ upholding_upholds.nonneg (h.row.each p there)
  move := by
    intro c move h admissible
    cases move with
    | next => exact h.next
    | seek t => exact h.seek admissible

/-- What the first move of a part leads to. -/
def Brings (seeks : Prop) (p : σ) (found : Option Bool) (p' : σ) : Prop :=
  found = some true → ∀ D, Launches (Upholds seeks D) p → Upholds seeks D p'

theorem brings_of_row (row : Row (fun D => Launches (Upholds seeks D)) Ds parts) :
    ∀ p ∈ parts, (Cursor.next p).Tries (Brings seeks p) := by
  intro p inside
  have : Nonempty { D // Launches (Upholds seeks D) p } := ⟨⟨Set.univ, row.each p inside⟩⟩
  have leaves := Leaves.forall fun D : { D // Launches (Upholds seeks D) p } =>
    D.2 .next trivial
  exact leaves.imp fun _ _ all some D h => (all ⟨D, h⟩ some).1

/-- The first move puts every part on a document. -/
theorem start_lined (row : Row (fun D => Launches (Upholds seeks D)) Ds c.parts)
    (alone : seeks → c.parts.length ≤ 1) : c.start.Tries fun answer c' =>
      answer = some () → c'.more = true → Lined seeks Ds Set.univ c' := by
  have more : (!c.parts.isEmpty) = true := by simpa using row.nonempty
  rw [start]
  have moves := moveAll_leaves (c := { c with fresh := false, more := !c.parts.isEmpty }) more
    (brings_of_row row)
  apply moves.imp
  intro answer c' regrouped
  cases regrouped with
  | failed => exact no_answer
  | missed => exact fun _ out => absurd out Bool.false_ne_true
  | found all ascending =>
      intro _ _
      exact ⟨rfl, rfl, row.become all fun p p' brings D h => brings rfl D h,
        fun fallible => all.size ▸ alone fallible, ascending, Set.mem_univ _⟩

theorem moveAll_of_not_more {move : σ → Outcome σ Bool} (out : c.more = false) :
    c.moveAll move = .done c () := by
  rw [moveAll, if_neg (by simp [out])]

/-- A conjunction of parts that can be started. -/
theorem launches_ofParts (rule : CoordRule)
    (row : Row (fun D => Launches (Upholds seeks D)) Ds parts)
    (alone : seeks → parts.length ≤ 1) :
    Launches (Upholds seeks (common Ds)) (ofParts rule parts) := by
  have settled : ∀ {c : Conjunction σ} {W : Set DocId} {move : Move},
      Lined seeks Ds W c → IsUpperSet W → (∀ d ∈ W, move.Allows d) → c.settle.Tries fun found c' =>
        found = some true → Upholds seeks (common Ds) c' ∧ move.Allows (Cursor.doc c') := by
    intro c W move lined upper allows
    apply (lined.settle (d := c.doc) upper).tries.imp
    intro found c' lands some
    obtain ⟨joint, inside⟩ := Lands.of_found (some ▸ lands)
    exact ⟨⟨_, upholding_joint, joint⟩, allows _ inside⟩
  have starts := start_lined (c := ofParts rule parts) row alone
  have fresh : (ofParts rule parts).fresh = true := rfl
  intro move admissible
  cases move with
  | next =>
      show (Conjunction.next _).Tries _
      rw [Conjunction.next, if_pos fresh]
      refine starts.bind (fun _ _ => no_answer) fun _ c' lined => ?_
      cases more : c'.more with
      | false =>
          rw [settle_of_not_more more]
          exact .answered not_found
      | true => exact settled (lined rfl more) isUpperSet_univ fun _ _ => trivial
  | seek t =>
      show (Conjunction.seek _ t).Tries _
      rw [Conjunction.seek, if_pos fresh]
      refine starts.bind (fun _ _ => no_answer) fun _ c' lined => ?_
      cases more : c'.more with
      | false =>
          rw [moveAll_of_not_more more, andThen_done, settle_of_not_more more]
          exact .answered not_found
      | true =>
          have lined := lined rfl more
          have moves := moveAll_leaves more (sent_of_row lined.row admissible)
          refine moves.tries.bind (fun _ _ => no_answer) fun _ c'' regrouped => ?_
          cases regrouped with
          | missed =>
              rw [settle_of_not_more rfl]
              exact .answered not_found
          | found all ascending =>
              exact settled (lined_of_sent (W := since t) lined.started lined.row lined.alone
                (fun _ _ _ inside => inside.2) all ascending) (isUpperSet_since t) fun _ => id

variable {targets : Prop} {D : Set DocId} {r : DocId} {move : σ → Outcome σ Bool}

/-- A conjunction of a single part, which has not run out. Such a conjunction may fail from its
first move on. -/
structure Single (targets : Prop) (D : Set DocId) (r : DocId) (c : Conjunction σ) : Prop where
  more : c.more = true
  part : ∃ p, c.parts = [p] ∧ Vouches targets D r p

theorem Single.earlier (h : Single targets D t c) (le : r ≤ t) : Single targets D r c := by
  obtain ⟨more, p, alone, vouches⟩ := h
  exact ⟨more, p, alone, vouches.earlier le⟩

/-- The single part has been moved. If it has found no document, the conjunction has run out. -/
structure Passed (targets : Prop) (D : Set DocId) (r : DocId) (answer : Option Unit)
    (c : Conjunction σ) : Prop where
  failed : answer = none → Single targets D r c
  found : answer = some () → c.more = true → Single targets D c.doc c ∧ c.doc ∈ D ∧ r ≤ c.doc

omit [Cursor σ] in
theorem become_single {R : σ → σ → Prop} (become : Become R [p] parts) :
    ∃ p', parts = [p'] ∧ R p p' := by
  obtain ⟨p', rfl⟩ := List.length_eq_one_iff.mp become.size
  obtain ⟨q, inside, became⟩ := become.back p' (List.mem_singleton.mpr rfl)
  obtain rfl := List.mem_singleton.mp inside
  exact ⟨p', rfl, became⟩

theorem passed_of_found (more : c.more = true) (alone : c.parts = [p])
    (tells : Tells D (Vouches targets D) r (some true) p) : Passed targets D r (some ()) c := by
  refine ⟨nofun, fun _ _ => ?_⟩
  rw [c.doc_cons alone]
  cases tells with
  | found kept inside later => exact ⟨⟨more, p, alone, kept⟩, inside, later⟩

theorem passed_of_failed (more : c.more = true) (alone : c.parts = [p])
    (tells : Tells D (Vouches targets D) r none p) : Passed targets D r none c := by
  cases tells with
  | failed kept => exact ⟨fun _ => ⟨more, p, alone, kept⟩, nofun⟩

theorem passed_of_missed (out : c.more = false) : Passed targets D r (some ()) c :=
  ⟨nofun, fun _ more => absurd (out.symm.trans more) Bool.false_ne_true⟩

theorem Single.moveAll (h : Single targets D r c)
    (moves : ∀ p, Vouches targets D r p → (move p).Tries (Tells D (Vouches targets D) r)) :
    (c.moveAll move).Tries (Passed targets D r) := by
  obtain ⟨more, p, alone, vouches⟩ := h
  have each : ∀ q ∈ c.parts, (move q).Tries (Tells D (Vouches targets D) r) := by
    rw [alone]
    exact List.forall_mem_singleton.mpr (moves p vouches)
  refine (moveAll_leaves (R := fun _ => Tells D (Vouches targets D) r) more each).imp ?_
  rintro _ _ (all | ⟨all, -⟩ | _)
  · obtain ⟨p', rfl, tells⟩ := become_single (alone ▸ all (by simp [alone]))
    exact passed_of_failed more rfl tells
  · obtain ⟨p', rfl, tells⟩ := become_single (alone ▸ all)
    exact passed_of_found rfl rfl tells
  · exact passed_of_missed rfl

theorem Single.advanceLast (h : Single targets D r c) :
    c.advanceLast.Tries (Passed targets D r) := by
  obtain ⟨more, p, alone, vouches⟩ := h
  rw [Conjunction.advanceLast, if_pos more, alone]
  simp only [List.getLast?_singleton, List.dropLast_singleton, List.nil_append]
  refine (vouching_vouches.move .next vouches trivial).bind (fun p' tells => ?_)
    fun found p' tells => .answered ?_
  · exact passed_of_failed more rfl tells
  · cases found with
    | false => exact passed_of_missed rfl
    | true => exact passed_of_found rfl rfl tells

/-- A single part has nobody to wait for. -/
theorem Single.settle (h : Single targets D r c) : c.settle = .done c true := by
  obtain ⟨more, p, alone, -⟩ := h
  have same : c.parts = [] ++ [p] := alone
  rw [Conjunction.settle, c.converge_cons c.movesLeft more alone same, if_neg Int32.lt_irrefl]

theorem Passed.settle {answer : Option Unit} (passed : Passed targets D r answer c)
    (answered : answer = some ()) : c.settle.Tries (Tells D (Single targets D) r) := by
  cases more : c.more with
  | false =>
      rw [settle_of_not_more more]
      exact .answered .missed
  | true =>
      obtain ⟨single, inside, later⟩ := passed.found answered more
      rw [single.settle]
      exact .answered (.found single inside later)

/-- Whether it has been started does not matter to a single part. -/
theorem Single.begin (h : Single targets D r c) (fresh : Bool) :
    Single targets D r { c with fresh, more := !c.parts.isEmpty } := by
  obtain ⟨more, p, alone, vouches⟩ := h
  exact ⟨by simp [alone], p, alone, vouches⟩

theorem Single.start (h : Single targets D r c) : c.start.Tries (Passed targets D r) :=
  (h.begin false).moveAll fun _ vouches => vouching_vouches.move .next vouches trivial

theorem vouching_single : Vouching targets D (Single (σ := σ) targets D) where
  move := by
    intro r c move h permitted
    cases move with
    | next =>
        have moves : (if c.fresh then c.start else c.advanceLast).Tries (Passed targets D r) := by
          split
          · exact h.start
          · exact h.advanceLast
        show c.next.Tries _
        rw [Conjunction.next]
        exact moves.bind (fun _ passed => .failed (passed.failed rfl))
          fun _ _ passed => passed.settle rfl
    | seek t =>
        have seeks : ∀ {c : Conjunction σ} {s : DocId}, Single targets D s c →
            ((c.moveAll (Cursor.seek · t)).andThen fun _ c => c.settle).Tries
              (Tells D (Single targets D) s) := by
          intro c s h
          refine (h.moveAll fun p vouches => vouching_vouches.move (.seek t) vouches permitted).bind
            (fun _ passed => .failed (passed.failed rfl)) fun _ _ passed => passed.settle rfl
        show (c.seek t).Tries _
        rw [Conjunction.seek]
        split
        · refine h.start.bind (fun _ passed => .failed (passed.failed rfl)) fun _ c' passed => ?_
          cases more : c'.more with
          | false =>
              rw [moveAll_of_not_more more, andThen_done, settle_of_not_more more]
              exact .answered .missed
          | true =>
              obtain ⟨single, -, later⟩ := passed.found rfl more
              exact (seeks single).imp fun _ _ tells =>
                tells.earlier later fun _ single => single.earlier later
        · rw [andThen_done]
          exact seeks h

theorem vouches_ofParts (rule : CoordRule) (h : Vouches targets D r p) :
    Vouches targets D r (ofParts rule [p]) :=
  ⟨_, vouching_single, rfl, p, rfl, h⟩

end Conjunction

end Retrieval
