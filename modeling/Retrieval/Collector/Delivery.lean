import Retrieval.Collector.Basic

/-!
# Delivering hits

A cursor's documents are scored and handed to a collector, either all of them or those before a
given document. A failure of either side ends the run, and both keep what they have done.
-/

namespace Retrieval

variable {σ κ : Type} [Cursor σ] [Collector κ]

/-- Score the document stood on and hand it over. -/
def deliver (c : σ) (k : κ) : Outcome (σ × κ) Unit :=
  (Cursor.score c).bind (·, k) fun score scored =>
    let (answer, k) := Collector.collect k ⟨Cursor.doc c, score⟩
    .ofExcept (scored, k) answer

def deliverRest : Nat → σ × κ → Outcome (σ × κ) Unit
  | 0, run => .fail run .stalled
  | bound + 1, (c, k) =>
    (Cursor.next c).bind (·, k) fun found c =>
      if found then (deliver c k).andThen fun _ run => deliverRest bound run else .done (c, k) ()

/-- Deliver every further document. Each takes a move. -/
def deliverAll (c : σ) (k : κ) : Outcome (σ × κ) Unit :=
  deliverRest (Cursor.movesLeft c + 1) (c, k)

/-- Deliver the document stood on and further ones, as long as they come before the limit. -/
def deliverWhile (limit : DocId) : Nat → σ × κ → Outcome (σ × κ) Bool
  | 0, run => .fail run .stalled
  | bound + 1, (c, k) =>
    if Cursor.doc c < limit then
      (deliver c k).andThen fun _ (c, k) =>
        (Cursor.next c).bind (·, k) fun found c =>
          if found then deliverWhile limit bound (c, k) else .done (c, k) false
    else
      .done (c, k) true

/-- Deliver the document stood on and further ones before the limit. Answers whether the cursor
stands on a document at or after the limit, which is then left to be delivered. -/
def deliverBefore (limit : DocId) (c : σ) (k : κ) : Outcome (σ × κ) Bool :=
  deliverWhile limit (Cursor.movesLeft c + 1) (c, k)

end Retrieval
