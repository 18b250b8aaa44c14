import Retrieval.Collector.Basic

/-!
# The best hits

Hits are ranked by score, the higher the better, and among equal scores by document, the earlier
the better. Ranking needs every two scores to be comparable, so it goes by their ranks; to be let in
when there is no room left, a hit needs a score that is higher as a number.
-/

namespace Retrieval

/-- Whether the first hit is ranked before the second. -/
def Hit.better (a b : Hit) : Bool :=
  b.score.rank < a.score.rank ||
    a.score.rank == b.score.rank && decide (a.doc < b.doc)

/-- The best hits, as many as there is room for. -/
structure TopHits where
  capacity : Nat
  /-- The hits that are kept, in any order. -/
  store : List Hit := []
  total : Nat := 0

namespace TopHits

/-- The hit that is ranked after all others. -/
def worst? : List Hit → Option Hit
  | [] => none
  | h :: rest =>
    match worst? rest with
    | none => some h
    | some worst => some (if worst.better h then h else worst)

/-- Take a hit. If there is no room left, it takes the place of the worst hit if its score is
higher; a hit that scores the same as the worst one came later and is not taken. -/
def take (k : TopHits) (hit : Hit) : TopHits :=
  let k := { k with total := k.total + 1 }
  if k.capacity = 0 then
    k
  else if k.store.length < k.capacity then
    { k with store := hit :: k.store }
  else
    match worst? k.store with
    | none => k
    | some worst =>
      if worst.score < hit.score then { k with store := hit :: k.store.erase worst } else k

/-- The hits that are kept, the best one first. -/
def hits (k : TopHits) : List Hit := k.store.mergeSort fun a b => !b.better a

instance : Collector TopHits where
  collect k hit := (.ok (), k.take hit)
  total k := k.total
  reset k := { k with store := [], total := 0 }

end TopHits

end Retrieval
