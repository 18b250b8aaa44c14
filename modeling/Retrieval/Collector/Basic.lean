import Retrieval.Cursor.Basic

/-!
# Collectors

A collector is handed the hits of a search one by one. It may refuse one, which ends the run that
delivers them; what it has taken so far stays with it.
-/

namespace Retrieval

class Collector (κ : Type) where
  /-- Take a hit. -/
  collect : κ → Hit → Except Failure Unit × κ
  /-- How many hits have been handed over. -/
  total : κ → Nat
  /-- Forget every hit. -/
  reset : κ → κ

structure HitCount where
  count : Nat := 0

instance : Collector HitCount where
  collect k _ := (.ok (), { k with count := k.count + 1 })
  total k := k.count
  reset _ := {}

structure AllHits where
  hits : Array Hit := #[]

instance : Collector AllHits where
  collect k hit := (.ok (), { k with hits := k.hits.push hit })
  total k := k.hits.size
  reset _ := {}

def AllHits.docs (k : AllHits) : List DocId := k.hits.toList.map (·.doc)

/-- A count of hits some of which, numbered from one since the last reset, are refused. They are
counted all the same. -/
structure FaultyCount where
  plan : Nat → Option Failure.Report
  count : Nat := 0

instance : Collector FaultyCount where
  collect k _ :=
    let refusal :=
      match k.plan (k.count + 1) with
      | some report => .error (.reported report)
      | none => .ok ()
    (refusal, { k with count := k.count + 1 })
  total k := k.count
  reset k := { k with count := 0 }

end Retrieval
