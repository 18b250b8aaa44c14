import Retrieval.Failure
import Retrieval.Posting.Search

/-!
# Posting lists

A posting says how much a term weighs in a document. A posting list holds the postings of one term
in ascending order of their documents, one for each, so that a document is found by halving.
-/

namespace Retrieval

/-- The weight of a term in a document. -/
structure Posting where
  doc : DocId
  weight : Score
  deriving DecidableEq

/-- Postings in strictly ascending order of their documents, none of which is negative. -/
structure PostingList where
  postings : Array Posting
  ascending : postings.toList.Pairwise (·.doc < ·.doc)
  nonnegative : ∀ p ∈ postings.toList, 0 ≤ p.doc

namespace Posting

def notAfter (p q : Posting) : Bool := p.doc ≤ q.doc

/-- Of neighbours for the same document, only the first is kept. -/
def keepFirst : List Posting → List Posting
  | [] => []
  | p :: rest =>
    match keepFirst rest with
    | [] => [p]
    | q :: kept => if p.doc = q.doc then p :: kept else p :: q :: kept

theorem keepFirst_subset (ps : List Posting) : ∀ p ∈ keepFirst ps, p ∈ ps := by
  fun_induction keepFirst ps with
  | case1 => simp
  | case2 p rest empty ih => simp
  | case3 p rest q kept step same ih => grind
  | case4 p rest q kept step differ ih => grind

/-- Among postings in ascending order, keeping the first for each document leaves each document
once. -/
theorem keepFirst_ascending (ps : List Posting) (sorted : ps.Pairwise (·.doc ≤ ·.doc)) :
    (keepFirst ps).Pairwise (·.doc < ·.doc) := by
  fun_induction keepFirst ps with
  | case1 => simp
  | case2 p rest empty ih => simp
  | case3 p rest q kept step same ih =>
    have tail := ih (List.pairwise_cons.mp sorted).2
    rw [step] at tail
    simp only [List.pairwise_cons] at tail ⊢
    exact ⟨fun r inside => same ▸ tail.1 r inside, tail.2⟩
  | case4 p rest q kept step differ ih =>
    have inside := keepFirst_subset rest
    have tail := ih (List.pairwise_cons.mp sorted).2
    rw [step] at tail inside
    simp only [List.pairwise_cons] at tail sorted ⊢
    have least := sorted.1 q (inside q List.mem_cons_self)
    grind

/-- The postings in ascending order of their documents, the first of each document kept. -/
def arrange (ps : List Posting) : List Posting :=
  keepFirst (ps.mergeSort notAfter)

theorem arrange_subset (ps : List Posting) : ∀ p ∈ arrange ps, p ∈ ps := by
  intro p inside
  exact List.mem_mergeSort.mp (keepFirst_subset _ p inside)

theorem notAfter_trans (p q r : Posting) (pq : notAfter p q) (qr : notAfter q r) :
    notAfter p r := by
  simp only [notAfter] at *
  grind

theorem notAfter_total (p q : Posting) : notAfter p q || notAfter q p := by
  simp only [notAfter]
  grind

theorem arrange_ascending (ps : List Posting) : (arrange ps).Pairwise (·.doc < ·.doc) := by
  have sorted := List.pairwise_mergeSort notAfter_trans notAfter_total ps
  exact keepFirst_ascending _ (by simpa [notAfter] using sorted)

end Posting

namespace PostingList

/-- The list of some postings, given that none of them has a negative document. -/
def arrange (ps : List Posting) (nonnegative : ∀ p ∈ ps, 0 ≤ p.doc) : PostingList where
  postings := (Posting.arrange ps).toArray
  ascending := by simpa using Posting.arrange_ascending ps
  nonnegative := by simpa using fun p inside => nonnegative p (Posting.arrange_subset ps p inside)

/-- The list of some postings. Of several postings for one document the first counts. The first
negative document, in the order given, is refused. -/
def ofPostings (ps : List Posting) : Except Failure PostingList :=
  match negative : ps.find? (·.doc < 0) with
  | some p => .error (.negativeDoc p.doc)
  | none => .ok (arrange ps fun p inside => by grind [List.find?_eq_none])

/-- The list in which some documents all have the same weight. -/
def ofDocs (docs : List DocId) (weight : Score) : Except Failure PostingList :=
  ofPostings (docs.map fun doc => ⟨doc, weight⟩)

/-- The same, but negative documents are left out. -/
def ofValidDocs (docs : List DocId) (weight : Score) : PostingList :=
  arrange ((docs.filter (0 ≤ ·)).map fun doc => ⟨doc, weight⟩) (by simp; grind)

def size (list : PostingList) : Nat := list.postings.size

def isEmpty (list : PostingList) : Bool := list.postings.isEmpty

/-- The place of the first posting at or after the place `start` whose document is at or after the
target. -/
def findFrom (list : PostingList) (start : Nat) (target : DocId) : Nat :=
  Posting.boundary (·.doc < target) list.postings start list.postings.size (Nat.le_refl _)

def get? (list : PostingList) (doc : DocId) : Option Posting :=
  list.postings[list.findFrom 0 doc]?.filter (·.doc = doc)

def docs (list : PostingList) : List DocId := list.postings.toList.map (·.doc)

end PostingList

end Retrieval
