import Retrieval.Posting.Cursor
import Retrieval.Proofs.Rest

/-!
# Posting lists keep their promise

A posting cursor goes through the documents of its list, whichever way it is started, and a seek
backwards always leaves it in place. Both kinds of move end on the place of the first posting whose
document lies in the window they look for: stepping by taking the next place, seeking by halving.
-/

namespace Retrieval

namespace Posting

variable {α : Type}

/-- Halving finds the change, provided that the elements first satisfy the test and then no longer
do. -/
theorem boundary_spec (test : α → Bool) (xs : Array α) (lo hi : Nat) (bounded : hi ≤ xs.size)
    (changing : ∀ (i j : Nat) (_le : i ≤ j) (_inside : j < xs.size), test xs[j] → test xs[i])
    (ordered : lo ≤ hi) :
    (∀ i (inside : i < xs.size), lo ≤ i → i < boundary test xs lo hi bounded → test xs[i]) ∧
      ∀ i (inside : i < xs.size), boundary test xs lo hi bounded ≤ i → i < hi → ¬ test xs[i] := by
  fun_induction boundary test xs lo hi bounded with
  | case1 lo hi bounded nonempty middle passed ih =>
    obtain ⟨before, after⟩ := ih changing (by omega)
    refine ⟨fun i inside le lt => ?_, after⟩
    by_cases left : i ≤ middle
    · exact changing i middle left (by omega) passed
    · exact before i inside (by omega) lt
  | case2 lo hi bounded nonempty middle failed ih =>
    obtain ⟨before, after⟩ := ih changing (by omega)
    refine ⟨before, fun i inside le lt passed => ?_⟩
    by_cases right : middle ≤ i
    · exact failed (changing middle i right inside passed)
    · exact after i inside le (by omega) passed
  | case3 lo hi bounded empty => exact ⟨fun i _ _ _ => by omega, fun i _ _ _ => by omega⟩

end Posting

namespace PostingList

variable {list : PostingList}

theorem doc_lt {i j : Nat} (inside : j < list.postings.size) (lt : i < j) :
    list.postings[i].doc < list.postings[j].doc := by
  have ascending := List.pairwise_iff_getElem.mp list.ascending i j
  simp only [Array.length_toList, Array.getElem_toList] at ascending
  exact ascending (Nat.lt_trans lt inside) inside lt

theorem doc_nonneg {i : Nat} (inside : i < list.postings.size) : 0 ≤ list.postings[i].doc :=
  list.nonnegative _ (by simp)

theorem mem_docs {d : DocId} :
    d ∈ list.docs ↔ ∃ (i : Nat) (inside : i < list.postings.size), list.postings[i].doc = d := by
  simp [docs, List.mem_iff_getElem, eq_comm]

/-- Searching from a place ends on the first posting there at or after the target. -/
theorem findFrom_spec {start : Nat} (target : DocId) (valid : start ≤ list.postings.size) :
    (start ≤ list.findFrom start target ∧ list.findFrom start target ≤ list.postings.size) ∧
      (∀ i (inside : i < list.postings.size), start ≤ i → i < list.findFrom start target →
        list.postings[i].doc < target) ∧
      ∀ i (inside : i < list.postings.size), list.findFrom start target ≤ i →
        target ≤ list.postings[i].doc := by
  obtain ⟨before, after⟩ := Posting.boundary_spec (fun p => decide (p.doc < target)) list.postings
    start list.postings.size (Nat.le_refl _) (fun i j le inside passed => by
      simp only [decide_eq_true_eq] at passed ⊢
      obtain lt | rfl := Nat.lt_or_eq_of_le le
      · exact Int32.lt_trans (list.doc_lt inside lt) passed
      · exact passed) valid
  unfold findFrom
  refine ⟨Posting.boundary_le _ _ _ _ (Nat.le_refl _) valid, ?_, ?_⟩
  · intro i inside le lt
    exact of_decide_eq_true (before i inside le lt)
  · intro i inside le
    exact Int32.not_lt.mp (of_decide_eq_false (Bool.eq_false_iff.mpr (after i inside le inside)))

/-- Looking a document up finds its posting. -/
theorem get?_eq_some_iff {d : DocId} {p : Posting} :
    list.get? d = some p ↔ ∃ i : Nat, list.postings[i]? = some p ∧ p.doc = d := by
  obtain ⟨-, before, after⟩ := list.findFrom_spec d (Nat.zero_le list.postings.size)
  simp only [get?, Option.filter_eq_some_iff, decide_eq_true_eq]
  constructor
  · exact fun ⟨there, same⟩ => ⟨_, there, same⟩
  · rintro ⟨i, there, same⟩
    obtain ⟨inside, rfl⟩ := Array.getElem?_eq_some_iff.mp there
    refine ⟨?_, same⟩
    have notBefore : list.findFrom 0 d ≤ i := by
      by_contra lt
      have earlier := before i inside (Nat.zero_le i) (by omega)
      rw [same] at earlier
      exact Int32.lt_irrefl earlier
    have notAfter : ¬ list.findFrom 0 d < i := by
      intro lt
      have earlier := Int32.lt_of_le_of_lt (after _ (Nat.lt_trans lt inside) (Nat.le_refl _))
        (list.doc_lt inside lt)
      rw [same] at earlier
      exact Int32.lt_irrefl earlier
    rw [show list.findFrom 0 d = i by omega, there]

theorem get?_isSome_iff {d : DocId} : (list.get? d).isSome ↔ d ∈ list.docs := by
  simp only [Option.isSome_iff_exists, get?_eq_some_iff, mem_docs, Array.getElem?_eq_some_iff]
  constructor
  · rintro ⟨_, i, ⟨inside, rfl⟩, same⟩
    exact ⟨i, inside, same⟩
  · rintro ⟨i, inside, same⟩
    exact ⟨_, i, ⟨inside, rfl⟩, same⟩

end PostingList

/-- What to expect of a fresh cursor over a posting list. -/
def Prospect.ofList (list : PostingList) (boost : Score) : Prospect where
  docs := {d | d ∈ list.docs}
  docsFrom t := {d | d ∈ list.docs} ∩ since t
  later _ := Set.inter_subset_right
  holds := Set.univ
  scores d v n := n = 0 ∧ ∃ p, list.get? d = some p ∧ v = p.weight * boost

namespace PostingCursor

variable {list : PostingList} {boost : Score}

/-- Lists have no posting before the first document. -/
theorem beforeFirst_lt_doc {c : PostingCursor} (started : c.started = true) :
    DocId.beforeFirst < Cursor.doc c := by
  show _ < c.doc
  rw [doc, if_pos started]
  cases there : c.posting? with
  | none => exact (by decide : DocId.beforeFirst < .afterLast)
  | some posting =>
      have listed := Array.mem_def.mp (Array.mem_of_getElem? there)
      exact DocId.beforeFirst_lt (c.list.nonnegative posting listed)

def atPlace (list : PostingList) (boost : Score) (place : Nat) : PostingCursor where
  list
  boost
  place
  started := true

/-- A started cursor stands on the posting at its place. -/
theorem doc_atPlace {i : Nat} (inside : i < list.postings.size) :
    (atPlace list boost i).doc = list.postings[i].doc := by
  simp [doc, atPlace, posting?, inside]

theorem isExhausted_atPlace (i : Nat) :
    (atPlace list boost i).isExhausted = decide (list.postings.size ≤ i) :=
  Bool.true_and _

/-- The postings before a place are left out of a window, and those from it on lie in it: so the
place is where a move over the window ends. -/
theorem finds_atPlace {W : Set DocId} {i : Nat}
    (before : ∀ j (inside : j < list.postings.size), j < i → list.postings[j].doc ∉ W)
    (after : ∀ j (inside : j < list.postings.size), i ≤ j → list.postings[j].doc ∈ W) :
    (Outcome.done (atPlace list boost i) (!(atPlace list boost i).isExhausted)).Finds
      ({d | d ∈ list.docs} ∩ W) fun d c =>
        ∃ inside : i < list.postings.size, list.postings[i].doc = d ∧ c = atPlace list boost i := by
  rw [isExhausted_atPlace]
  apply Outcome.Finds.of_done
  · intro some
    have inside : i < list.postings.size := by simpa using some
    refine ⟨list.postings[i].doc, ⟨⟨?_, after i inside (Nat.le_refl i)⟩, ?_⟩, inside, rfl, rfl⟩
    · exact PostingList.mem_docs.mpr ⟨i, inside, rfl⟩
    · rintro d ⟨listed, window⟩
      obtain ⟨j, there, rfl⟩ := PostingList.mem_docs.mp listed
      obtain lt | rfl | gt := Nat.lt_trichotomy i j
      · exact Int32.le_of_lt (list.doc_lt there lt)
      · exact Int32.le_refl _
      · exact absurd window (before j there gt)
  · intro none
    have outside : list.postings.size ≤ i := by simpa using none
    ext d
    simp only [Set.mem_inter_iff, Set.mem_ofPred_eq, Set.mem_empty_iff_false, iff_false, not_and]
    intro listed
    obtain ⟨j, there, rfl⟩ := PostingList.mem_docs.mp listed
    exact before j there (Nat.lt_of_lt_of_le there outside)

/-- Where a started cursor stands, with the score it has given there. -/
def At (list : PostingList) (boost : Score) (d : DocId) (v : Option Score) (c : PostingCursor) :
    Prop :=
  ∃ (i : Nat) (inside : i < list.postings.size), list.postings[i].doc = d ∧
    c = atPlace list boost i ∧ ∀ s, v = some s → s = list.postings[i].weight * boost

theorem score_atPlace {i : Nat} (inside : i < list.postings.size) :
    Cursor.score (atPlace list boost i) =
      .done (atPlace list boost i) (list.postings[i].weight * boost) := by
  simp [Cursor.score, score, atPlace, posting?, inside]

theorem movesLeft_atPlace (i : Nat) :
    Cursor.movesLeft (atPlace list boost i) = list.postings.size - i := by
  simp [Cursor.movesLeft, movesLeft, atPlace, PostingList.size]

theorem next_atPlace {i : Nat} (inside : i < list.postings.size) :
    Cursor.next (atPlace list boost i) =
      .done (atPlace list boost (i + 1)) (!(atPlace list boost (i + 1)).isExhausted) := by
  simp [Cursor.next, next, step, atPlace, PostingList.size, inside]

theorem seek_atPlace {i : Nat} (inside : i < list.postings.size) {t : DocId} (nonneg : 0 ≤ t) :
    Cursor.seek (atPlace list boost i) t = .done (atPlace list boost (list.findFrom i t))
      (!(atPlace list boost (list.findFrom i t)).isExhausted) := by
  have : ¬ t < 0 := Int32.not_lt.mpr nonneg
  simp [Cursor.seek, seek, jump, atPlace, PostingList.size, inside, this]

theorem faithful_at : Cursor.Faithful (.ofList list boost) {d | d ∈ list.docs} (At list boost) where
  doc := by
    rintro d v c ⟨i, inside, rfl, rfl, -⟩
    exact doc_atPlace inside
  mem := by
    rintro d v c ⟨i, inside, rfl, rfl, -⟩
    exact PostingList.mem_docs.mpr ⟨i, inside, rfl⟩
  nonneg := by
    rintro d v c ⟨i, inside, rfl, rfl, -⟩
    exact list.doc_nonneg inside
  next := by
    rintro d v c ⟨i, inside, rfl, rfl, -⟩
    rw [next_atPlace inside]
    refine (finds_atPlace ?_ ?_).imp ?_
    · intro j there lt
      obtain lt | rfl := Nat.lt_or_eq_of_le (Nat.lt_succ_iff.mp lt)
      · exact fun later => Int32.lt_irrefl (Int32.lt_trans later (list.doc_lt inside lt))
      · exact Int32.lt_irrefl
    · intro j there le
      exact list.doc_lt there le
    · rintro e c' - ⟨there, at', rfl⟩
      refine ⟨⟨i + 1, there, at', rfl, by simp⟩, ?_⟩
      rw [movesLeft_atPlace, movesLeft_atPlace]
      omega
  ahead := by
    rintro d v c t ⟨i, inside, rfl, rfl, -⟩ later
    have nonneg : 0 ≤ t := Int32.le_trans (list.doc_nonneg inside) (Int32.le_of_lt later)
    obtain ⟨⟨le, -⟩, before, after⟩ := list.findFrom_spec t (Nat.le_of_lt inside)
    rw [seek_atPlace inside nonneg]
    refine (finds_atPlace ?_ after).imp ?_
    · intro j there lt
      by_cases le : i ≤ j
      · exact Int32.not_le.mpr (before j there le lt)
      · exact Int32.not_le.mpr (Int32.lt_trans (list.doc_lt inside (by omega)) later)
    · rintro e c' - ⟨there, at', rfl⟩
      refine ⟨⟨_, there, at', rfl, by simp⟩, ?_⟩
      have moved : list.findFrom i t ≠ i := by
        intro same
        exact Int32.not_le.mpr later (after i inside (by omega))
      rw [movesLeft_atPlace, movesLeft_atPlace]
      omega
  held := by
    rintro d v c t ⟨i, inside, rfl, rfl, scored⟩ nonneg back -
    obtain ⟨⟨le, -⟩, before, -⟩ := list.findFrom_spec t (Nat.le_of_lt inside)
    have stays : list.findFrom i t = i := by
      by_contra moved
      exact Int32.not_le.mpr (before i inside (Nat.le_refl i) (by omega)) back
    refine ⟨atPlace list boost i, ?_, ⟨i, inside, rfl, rfl, scored⟩, Nat.le_refl _⟩
    have some : (atPlace list boost i).isExhausted = false := by
      rw [isExhausted_atPlace]
      exact decide_eq_false (by omega)
    rw [seek_atPlace inside nonneg, stays, some]
    rfl
  lost := fun _ _ _ outside => absurd (Set.mem_univ _) outside
  score := by
    rintro d c ⟨i, inside, rfl, rfl, -⟩
    refine ⟨_, 0, atPlace list boost i, score_atPlace inside, ⟨rfl, list.postings[i], ?_, rfl⟩,
      ⟨i, inside, rfl, rfl, by simp [eq_comm]⟩, Nat.le_refl _⟩
    exact PostingList.get?_eq_some_iff.mpr ⟨i, by simp [inside], rfl⟩
  again := by
    rintro d v c ⟨i, inside, rfl, rfl, scored⟩
    rw [score_atPlace inside, scored v rfl]

end PostingCursor

namespace PostingList

/-- A fresh cursor over a posting list keeps what is expected of it. -/
theorem waits_cursor (list : PostingList) (boost : Score) :
    Cursor.Waits (.ofList list boost) (list.cursor boost) where
  doc := by simp [Cursor.doc, PostingCursor.doc, cursor]
  next := by
    have eq : Cursor.next (list.cursor boost) = .done (.atPlace list boost 0)
        (!(PostingCursor.atPlace list boost 0).isExhausted) := by
      simp [Cursor.next, PostingCursor.next, PostingCursor.step, cursor, PostingCursor.atPlace]
    have all : {d | d ∈ list.docs} = {d | d ∈ list.docs} ∩ Set.univ := (Set.inter_univ _).symm
    rw [eq, show (Prospect.ofList list boost).docs = {d | d ∈ list.docs} from rfl, all]
    apply (PostingCursor.finds_atPlace (by simp) (by simp)).imp
    rintro d c' - ⟨inside, at', rfl⟩
    rw [← all]
    refine ⟨⟨_, PostingCursor.faithful_at, 0, inside, at', rfl, by simp⟩, ?_⟩
    simp [Cursor.movesLeft, PostingCursor.movesLeft, cursor, PostingCursor.atPlace]
  seek := by
    intro t nonneg
    obtain ⟨⟨-, le⟩, before, after⟩ := list.findFrom_spec t (Nat.zero_le list.postings.size)
    have eq : Cursor.seek (list.cursor boost) t =
        .done (.atPlace list boost (list.findFrom 0 t))
          (!(PostingCursor.atPlace list boost (list.findFrom 0 t)).isExhausted) := by
      have : ¬ t < 0 := Int32.not_lt.mpr nonneg
      by_cases nonempty : 0 < list.postings.size
      · simp [Cursor.seek, PostingCursor.seek, PostingCursor.jump, cursor, PostingCursor.atPlace,
          size, this, nonempty]
      · have : list.findFrom 0 t = 0 := by omega
        simp [Cursor.seek, PostingCursor.seek, PostingCursor.jump, cursor, PostingCursor.atPlace,
          size, *]
    rw [eq]
    refine (PostingCursor.finds_atPlace ?_ after).imp ?_
    · intro j there lt
      exact Int32.not_le.mpr (before j there (Nat.zero_le j) lt)
    · rintro d c' least ⟨inside, at', rfl⟩
      refine ⟨Cursor.Stands.narrow ⟨_, PostingCursor.faithful_at, _, inside, at', rfl, by simp⟩ ?_,
        ?_⟩
      · intro x le
        show x ∈ list.docs ↔ x ∈ list.docs ∧ t ≤ x
        exact (and_iff_left (Int32.le_trans least.1.2 le)).symm
      · simp only [Cursor.movesLeft, PostingCursor.movesLeft, cursor, PostingCursor.atPlace]
        simp only [if_true, Bool.false_eq_true, if_false]
        omega

/-- It can be a clause of a search. -/
theorem idle_cursor (list : PostingList) (boost : Score) :
    Cursor.Idle (.ofList list boost) (list.cursor boost) where
  toWaits := list.waits_cursor boost
  rests := by
    have waits := list.waits_cursor boost
    exact (waits.toStarts.resting waits.doc rfl).rests (fun _ => Cursor.faithful_stands) rfl
  refuses := fun negative => ⟨_, if_pos negative⟩

end PostingList

end Retrieval
