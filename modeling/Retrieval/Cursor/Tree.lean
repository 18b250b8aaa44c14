import Retrieval.Cursor.Boolean
import Retrieval.Cursor.Faulty
import Retrieval.Posting.Cursor

/-!
# Cursors nested in each other

Every kind of cursor can be a part of every other kind. A tree of bounded height has, at its root,
one of the kinds whose parts are trees of lesser height; so what holds of each kind, given that it
holds of its parts, holds of all trees.
-/

namespace Retrieval

/-- A cursor of any kind whose parts, if it has any, are of type `σ`. -/
inductive Node (σ : Type) where
  | posting (c : PostingCursor)
  | nothing (c : Nothing)
  | conjunction (c : Conjunction σ)
  | threshold (c : Threshold σ)
  | exclusion (c : Exclusion σ σ)
  | bonus (c : Bonus σ σ)
  | counted (c : Counted σ)
  | boolean (c : BooleanCursor σ)
  | faulty (c : Faulty σ)

namespace Node

variable {σ : Type} [Cursor σ]

def doc : Node σ → DocId
  | posting c => Cursor.doc c
  | nothing c => Cursor.doc c
  | conjunction c => Cursor.doc c
  | threshold c => Cursor.doc c
  | exclusion c => Cursor.doc c
  | bonus c => Cursor.doc c
  | counted c => Cursor.doc c
  | boolean c => Cursor.doc c
  | faulty c => Cursor.doc c

def next : Node σ → Outcome (Node σ) Bool
  | posting c => (Cursor.next c).within posting
  | nothing c => (Cursor.next c).within nothing
  | conjunction c => (Cursor.next c).within conjunction
  | threshold c => (Cursor.next c).within threshold
  | exclusion c => (Cursor.next c).within exclusion
  | bonus c => (Cursor.next c).within bonus
  | counted c => (Cursor.next c).within counted
  | boolean c => (Cursor.next c).within boolean
  | faulty c => (Cursor.next c).within faulty

def seek (n : Node σ) (target : DocId) : Outcome (Node σ) Bool :=
  match n with
  | posting c => (Cursor.seek c target).within posting
  | nothing c => (Cursor.seek c target).within nothing
  | conjunction c => (Cursor.seek c target).within conjunction
  | threshold c => (Cursor.seek c target).within threshold
  | exclusion c => (Cursor.seek c target).within exclusion
  | bonus c => (Cursor.seek c target).within bonus
  | counted c => (Cursor.seek c target).within counted
  | boolean c => (Cursor.seek c target).within boolean
  | faulty c => (Cursor.seek c target).within faulty

def score : Node σ → Outcome (Node σ) Score
  | posting c => (Cursor.score c).within posting
  | nothing c => (Cursor.score c).within nothing
  | conjunction c => (Cursor.score c).within conjunction
  | threshold c => (Cursor.score c).within threshold
  | exclusion c => (Cursor.score c).within exclusion
  | bonus c => (Cursor.score c).within bonus
  | counted c => (Cursor.score c).within counted
  | boolean c => (Cursor.score c).within boolean
  | faulty c => (Cursor.score c).within faulty

def movesLeft : Node σ → Nat
  | posting c => Cursor.movesLeft c
  | nothing c => Cursor.movesLeft c
  | conjunction c => Cursor.movesLeft c
  | threshold c => Cursor.movesLeft c
  | exclusion c => Cursor.movesLeft c
  | bonus c => Cursor.movesLeft c
  | counted c => Cursor.movesLeft c
  | boolean c => Cursor.movesLeft c
  | faulty c => Cursor.movesLeft c

instance : Cursor (Node σ) where
  doc := doc
  next := next
  seek := seek
  score := score
  movesLeft := movesLeft

end Node

/-- A cursor of any kind, with fewer than `height` further cursors nested in each other below it. -/
def Tree : (height : Nat) → Type
  | 0 => Empty
  | height + 1 => Node (Tree height)

namespace Tree

instance instCursor : (height : Nat) → Cursor (Tree height)
  | 0 => inferInstanceAs (Cursor Empty)
  | height + 1 =>
    have := instCursor height
    inferInstanceAs (Cursor (Node (Tree height)))

end Tree

end Retrieval
