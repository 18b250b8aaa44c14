import Retrieval.Cursor.Conjunction
import Retrieval.Cursor.Threshold

/-!
# Counting the clauses that match

One clause, all clauses of a group or enough of them can be counted: when a document is scored, the
number of clauses that matched it is marked. A document is counted once, however often it is scored.
-/

namespace Retrieval

/-- A group of clauses, of which one, all or enough have to match. -/
inductive ClauseGroup (σ : Type) where
  | one (clause : σ)
  | all (clauses : Conjunction σ) (size : Nat)
  | atLeast (clauses : Threshold σ)

namespace ClauseGroup

variable {σ : Type} [Cursor σ]

/-- How many clauses match the document stood on. -/
def matched : ClauseGroup σ → Nat
  | one _ => 1
  | all _ size => size
  | atLeast clauses => clauses.matched

instance : Cursor (ClauseGroup σ) where
  doc
    | one c => Cursor.doc c
    | all c _ => Cursor.doc c
    | atLeast c => Cursor.doc c
  next
    | one c => (Cursor.next c).within one
    | all c size => (Cursor.next c).within (all · size)
    | atLeast c => (Cursor.next c).within atLeast
  seek
    | one c, target => (Cursor.seek c target).within one
    | all c size, target => (Cursor.seek c target).within (all · size)
    | atLeast c, target => (Cursor.seek c target).within atLeast
  score
    | one c => (Cursor.score c).within one
    | all c size => (Cursor.score c).within (all · size)
    | atLeast c => (Cursor.score c).within atLeast
  movesLeft
    | one c => Cursor.movesLeft c
    | all c _ => Cursor.movesLeft c
    | atLeast c => Cursor.movesLeft c

end ClauseGroup

structure Counted (σ : Type) where
  group : ClauseGroup σ
  /-- Where the matches are counted. -/
  tally : Tally
  /-- The document counted last. -/
  counted : DocId

namespace Counted

variable {σ : Type} [Cursor σ]

def ofGroup (group : ClauseGroup σ) (tally : Tally) : Counted σ where
  group
  tally
  counted := .beforeFirst

def one (clause : σ) (tally : Tally) : Counted σ := ofGroup (.one clause) tally

def all (rule : CoordRule) (clauses : List σ) (tally : Tally) : Counted σ :=
  ofGroup (.all (.ofParts rule clauses) clauses.length) tally

/-- Count the matching ones of some clauses, of which `needed` have to match. -/
def atLeast (needed : Nat) (clauses : List σ) (tally : Tally) : Except Failure (Counted σ) := do
  return ofGroup (.atLeast (← Threshold.ofAlternatives clauses needed)) tally

/-- The marks due for the document stood on: none if it, or a later one, has been counted. -/
def due (c : Counted σ) : Marks :=
  if c.counted < Cursor.doc c.group then .of c.tally (.ofNat c.group.matched) else .zero

/-- The document stood on is counted before it is scored. -/
def score (c : Counted σ) : Outcome (Counted σ) Score :=
  let counted := if c.counted < Cursor.doc c.group then Cursor.doc c.group else c.counted
  ((Cursor.score c.group).within fun group => { c with group, counted }).marking c.due

instance : Cursor (Counted σ) where
  doc c := Cursor.doc c.group
  next c := (Cursor.next c.group).within fun group => { c with group }
  seek c target := (Cursor.seek c.group target).within fun group => { c with group }
  score := score
  movesLeft c := Cursor.movesLeft c.group

end Counted

end Retrieval
