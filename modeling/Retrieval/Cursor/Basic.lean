import Retrieval.Cursor.Outcome

/-!
# Cursors

A cursor runs through documents in ascending order and can score the document it stands on. It has
not started until it is first moved; a move that answers `true` has put it on a document, and one
that answers `false` has found none left. Nothing stops a caller from moving on after that, or from
asking for a score too early or too late; such calls have definite outcomes as well.
-/

namespace Retrieval

class Cursor (σ : Type) where
  /-- The document it stands on. -/
  doc : σ → DocId
  /-- Move to the next document, and answer whether there was one. -/
  next : σ → Outcome σ Bool
  /-- Move to the first document at or after the target, and answer whether there was one. A cursor
  that stands on such a document stays there. -/
  seek : σ → DocId → Outcome σ Bool
  /-- The score of the document it stands on. -/
  score : σ → Outcome σ Score
  /-- A bound on the number of moves that can still find something to do. It never grows, and a move
  that leads to a later document lowers it, so it bounds every loop over the cursor. -/
  movesLeft : σ → Nat

namespace Cursor

instance : Cursor Empty where
  doc c := nomatch c
  next c := nomatch c
  seek c _ := nomatch c
  score c := nomatch c
  movesLeft c := nomatch c

/-- One of two kinds of cursor, which it is being known at each call. -/
instance {σ τ : Type} [Cursor σ] [Cursor τ] : Cursor (σ ⊕ τ) where
  doc
    | .inl c => doc c
    | .inr c => doc c
  next
    | .inl c => (next c).within .inl
    | .inr c => (next c).within .inr
  seek
    | .inl c, target => (seek c target).within .inl
    | .inr c, target => (seek c target).within .inr
  score
    | .inl c => (score c).within .inl
    | .inr c => (score c).within .inr
  movesLeft
    | .inl c => movesLeft c
    | .inr c => movesLeft c

/-- The moves left in several cursors, each of them with some more on top. -/
def movesLeftInAll {σ : Type} [Cursor σ] (extra : Nat) : List σ → Nat
  | [] => 0
  | c :: rest => movesLeft c + extra + movesLeftInAll extra rest

end Cursor

/-- A cursor over no documents. It is never on one, so it has no score to give. -/
structure Nothing where
  deriving DecidableEq

instance : Cursor Nothing where
  doc _ := .afterLast
  next c := .done c false
  seek c _ := .done c false
  score c := .fail c .scoreOfNothing
  movesLeft _ := 0

end Retrieval
