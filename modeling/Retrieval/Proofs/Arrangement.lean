import Mathlib.Data.Finset.Card
import Mathlib.Data.Finset.Dedup
import Retrieval.Proofs.Posting

/-!
# What becomes of postings in a list

Postings are sorted by their documents, and of neighbours for the same document the first is kept.
Sorting does not change the order of postings for the same document, so the one that is kept is the
first of those given. All ways to read the list agree on that: looking a document up, counting, and
going through the list with a cursor.
-/

namespace Retrieval

namespace Posting

variable {ps : List Posting} {d : DocId}

/-- Keeping the first of neighbours for the same document does not change which posting for a
document comes first. -/
theorem find?_keepFirst (ps : List Posting) (d : DocId) :
    (keepFirst ps).find? (·.doc = d) = ps.find? (·.doc = d) := by
  fun_induction keepFirst ps with
  | case1 => rfl
  | case2 p rest empty ih =>
      rw [empty] at ih
      rw [List.find?_cons, List.find?_cons, ih]
  | case3 p rest q kept step same ih =>
      rw [List.find?_cons, List.find?_cons, ← ih, step, List.find?_cons, ← same]
      cases decide (p.doc = d) <;> rfl
  | case4 p rest q kept step differ ih =>
      rw [step] at ih
      rw [List.find?_cons, ih, List.find?_cons]

/-- Sorting leaves the postings for a document in the order in which they were given. -/
theorem filter_mergeSort (ps : List Posting) (d : DocId) :
    (ps.mergeSort notAfter).filter (·.doc = d) = ps.filter (·.doc = d) := by
  have level : (ps.filter (·.doc = d)).Pairwise fun p q => notAfter p q = true := by
    refine List.pairwise_iff_forall_sublist.mpr fun {p q} pair => ?_
    have here : ∀ r ∈ [p, q], r.doc = d := fun r inside =>
      of_decide_eq_true (List.mem_filter.mp (pair.subset inside)).2
    rw [notAfter, here p (by simp), here q (by simp)]
    exact decide_eq_true (Int32.le_refl d)
  have kept := List.sublist_mergeSort notAfter_trans notAfter_total level List.filter_sublist
  have inside := kept.filter (·.doc = d)
  rw [List.filter_filter] at inside
  simp only [Bool.and_self] at inside
  refine (inside.eq_of_length ?_).symm
  exact ((List.mergeSort_perm ps notAfter).filter _).length_eq.symm

theorem find?_arrange (ps : List Posting) (d : DocId) :
    (arrange ps).find? (·.doc = d) = ps.find? (·.doc = d) := by
  rw [arrange, find?_keepFirst, ← List.head?_filter, filter_mergeSort, List.head?_filter]

end Posting

namespace PostingList

variable {list : PostingList} {boost : Score} {d : DocId}

/-- The posting that is looked up is the first one for its document. -/
theorem get?_eq_find? (list : PostingList) (d : DocId) :
    list.get? d = list.postings.toList.find? (·.doc = d) := by
  ext p
  rw [get?_eq_some_iff]
  constructor
  · rintro ⟨i, there, same⟩
    obtain ⟨inside, rfl⟩ := Array.getElem?_eq_some_iff.mp there
    refine List.find?_eq_some_iff_getElem.mpr ⟨decide_eq_true same, i, by simpa, by simp, ?_⟩
    intro j before
    have lt := list.doc_lt inside before
    rw [same] at lt
    simpa using Int32.ne_of_lt lt
  · intro found
    obtain ⟨i, inside, there⟩ := List.mem_iff_getElem.mp (List.mem_of_find?_eq_some found)
    refine ⟨i, ?_, by simpa using List.find?_some found⟩
    rw [← Array.getElem?_toList, List.getElem?_eq_getElem inside, there]

/-- As many documents are listed as there are different ones. -/
theorem size_eq_card (list : PostingList) : list.size = list.docs.toFinset.card := by
  have distinct : list.docs.Nodup := by
    refine List.Pairwise.imp Int32.ne_of_lt ?_
    exact List.pairwise_map.mpr list.ascending
  rw [List.toFinset_card_of_nodup distinct, docs, List.length_map, Array.length_toList, size]

end PostingList

namespace Cursor

variable {σ : Type} [Cursor σ]

/-- The hits that are found by moving to the next document until there is none left. Asking for the
score of a document changes nothing. -/
inductive Enumerates : σ → List Hit → Prop
  | nil {c : σ} (ended : (Cursor.next c).answer = .ok false) : Enumerates c []
  | cons {c c' : σ} {v : Score} {hits : List Hit} (found : Cursor.next c = .done c' true)
      (scored : Cursor.score c' = .done c' v) (rest : Enumerates c' hits) :
      Enumerates c (⟨Cursor.doc c', v⟩ :: hits)

end Cursor

namespace PostingList

open Cursor

variable {list : PostingList} {boost : Score}

def hit (boost : Score) (p : Posting) : Hit := ⟨p.doc, p.weight * boost⟩

/-- A move that leads to a place of the list goes on with the postings from there on. The induction
is on how many there are. -/
theorem enumerates_atPlace {c : PostingCursor} {i : Nat} (moves : Cursor.next c =
      .done (.atPlace list boost i) (!(PostingCursor.atPlace list boost i).isExhausted)) :
    Enumerates c ((list.postings.toList.drop i).map (hit boost)) := by
  induction left : list.postings.size - i generalizing c i with
  | zero =>
      rw [List.drop_eq_nil_of_le (by simp; omega), List.map_nil]
      refine .nil ?_
      rw [moves, PostingCursor.isExhausted_atPlace, decide_eq_true (by omega)]
      rfl
  | succ left ih =>
      have inside : i < list.postings.size := by omega
      rw [PostingCursor.isExhausted_atPlace, decide_eq_false (by omega)] at moves
      rw [List.drop_eq_getElem_cons (by simpa), List.map_cons]
      have rest := ih (PostingCursor.next_atPlace inside) (by omega)
      have scored : Cursor.score (PostingCursor.atPlace list boost i) = .done _ _ :=
        PostingCursor.score_atPlace inside
      have first := Enumerates.cons moves scored rest
      rwa [show Cursor.doc (PostingCursor.atPlace list boost i) = list.postings[i].doc from
        PostingCursor.doc_atPlace inside] at first

/-- A cursor goes through all postings in their order. -/
theorem enumerates_cursor (list : PostingList) (boost : Score) :
    Enumerates (list.cursor boost) (list.postings.toList.map (hit boost)) := by
  apply enumerates_atPlace (i := 0)
  simp [Cursor.next, PostingCursor.next, PostingCursor.step, cursor, PostingCursor.atPlace]

/-- What a list of some postings shows: looking up a document finds the first posting that was given
for it, the list is as long as there are different documents, and a cursor goes through these in
ascending order and scores each by the posting that is looked up. -/
structure Arranges (list : PostingList) (ps : List Posting) : Prop where
  get? : ∀ d, list.get? d = ps.find? (·.doc = d)
  size : list.size = (ps.map (·.doc)).toFinset.card
  hits : ∀ boost, ∃ hits, Enumerates (list.cursor boost) hits ∧ hits.Pairwise (·.doc < ·.doc) ∧
    ∀ d v, ⟨d, v⟩ ∈ hits ↔ ∃ p, list.get? d = some p ∧ v = p.weight * boost

theorem mem_hits {d : DocId} {v : Score} : ⟨d, v⟩ ∈ list.postings.toList.map (hit boost) ↔
    ∃ p, list.get? d = some p ∧ v = p.weight * boost := by
  simp only [get?_eq_some_iff, List.mem_map, hit, Hit.mk.injEq, ← Array.getElem?_toList]
  constructor
  · rintro ⟨p, inside, same, rfl⟩
    obtain ⟨i, there⟩ := List.mem_iff_getElem?.mp inside
    exact ⟨p, ⟨i, there, same⟩, rfl⟩
  · rintro ⟨p, ⟨i, there, same⟩, rfl⟩
    exact ⟨p, List.mem_of_getElem? there, same, rfl⟩

theorem arranges_arrange (ps : List Posting) (nonnegative : ∀ p ∈ ps, 0 ≤ p.doc) :
    (arrange ps nonnegative).Arranges ps := by
  have found : ∀ d, (arrange ps nonnegative).get? d = ps.find? (·.doc = d) := fun d =>
    (get?_eq_find? _ d).trans (Posting.find?_arrange ps d)
  refine ⟨found, ?_, fun boost => ⟨_, enumerates_cursor _ boost, ?_, fun d v => mem_hits⟩⟩
  · rw [size_eq_card]
    refine congrArg Finset.card (Finset.ext fun d => ?_)
    rw [List.mem_toFinset, List.mem_toFinset, ← get?_isSome_iff, found, List.find?_isSome]
    simp
  · exact List.pairwise_map.mpr (arrange ps nonnegative).ascending

theorem ofPostings_of_negative {ps : List Posting} {p : Posting}
    (negative : ps.find? (·.doc < 0) = some p) : ofPostings ps = .error (.negativeDoc p.doc) := by
  rw [ofPostings]
  split
  case h_1 q there => rw [Option.some.inj (negative.symm.trans there)]
  case h_2 none => nomatch negative.symm.trans none

theorem ofPostings_of_nonnegative {ps : List Posting} (nonnegative : ∀ p ∈ ps, 0 ≤ p.doc) :
    ofPostings ps = .ok (arrange ps nonnegative) := by
  rw [ofPostings]
  split
  case h_1 p negative =>
    have below : p.doc < 0 := by simpa using List.find?_some negative
    exact absurd (nonnegative p (List.mem_of_find?_eq_some negative)) (Int32.not_le.mpr below)
  case h_2 none => rfl

/-- The list of some postings is refused for the first negative document among them, and only then.
Otherwise it shows of each document the first posting that was given for it. -/
theorem ofPostings_arranges (ps : List Posting) :
    match ofPostings ps with
    | .error failure => ∃ before p after, ps = before ++ p :: after ∧
        (∀ q ∈ before, 0 ≤ q.doc) ∧ p.doc < 0 ∧ failure = .negativeDoc p.doc ∧
          failure.kind = .invalidArgument
    | .ok list => (∀ p ∈ ps, 0 ≤ p.doc) ∧ list.Arranges ps := by
  cases negative : ps.find? (·.doc < 0) with
  | some p =>
      rw [ofPostings_of_negative negative]
      obtain ⟨below, before, after, eq, others⟩ := List.find?_eq_some_iff_append.mp negative
      refine ⟨before, p, after, eq, fun q inside => ?_, of_decide_eq_true below, rfl, rfl⟩
      simpa using others q inside
  | none =>
      have nonnegative : ∀ p ∈ ps, 0 ≤ p.doc := fun p inside => by
        simpa using List.find?_eq_none.mp negative p inside
      rw [ofPostings_of_nonnegative nonnegative]
      exact ⟨nonnegative, arranges_arrange ps nonnegative⟩

end PostingList

end Retrieval
