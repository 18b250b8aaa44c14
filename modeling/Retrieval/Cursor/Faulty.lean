import Retrieval.Cursor.Basic

/-!
# Cursors that fail on purpose

Sources of documents can fail at any call. A faulty cursor stands for such a source: chosen calls
fail, without reaching the cursor below, and all others are passed on.
-/

namespace Retrieval

/-- Which calls fail, and how, each kind of call being numbered from one. -/
structure FaultPlan where
  next : Nat → Option Failure.Report
  seek : Nat → Option Failure.Report
  score : Nat → Option Failure.Report

/-- A cursor some calls on which fail. -/
structure Faulty (σ : Type) where
  cursor : σ
  plan : FaultPlan
  /-- How many calls of each kind there have been. -/
  nexts : Nat := 0
  seeks : Nat := 0
  scores : Nat := 0

namespace Faulty

variable {σ : Type} [Cursor σ]

/-- Fail if a fault is planned, and otherwise make the call on the cursor below. -/
def attempt {α : Type} (c : Faulty σ) (fault : Option Failure.Report) (call : σ → Outcome σ α) :
    Outcome (Faulty σ) α :=
  match fault with
  | some report => .fail c (.reported report)
  | none => (call c.cursor).within fun cursor => { c with cursor }

instance : Cursor (Faulty σ) where
  doc c := Cursor.doc c.cursor
  next c := { c with nexts := c.nexts + 1 }.attempt (c.plan.next (c.nexts + 1)) Cursor.next
  seek c target :=
    { c with seeks := c.seeks + 1 }.attempt (c.plan.seek (c.seeks + 1)) (Cursor.seek · target)
  score c := { c with scores := c.scores + 1 }.attempt (c.plan.score (c.scores + 1)) Cursor.score
  movesLeft c := Cursor.movesLeft c.cursor

end Faulty

end Retrieval
