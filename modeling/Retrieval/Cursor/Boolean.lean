import Retrieval.Clause
import Retrieval.Coordination.Table
import Retrieval.Cursor.Bonus
import Retrieval.Cursor.Counted
import Retrieval.Cursor.Exclusion

/-!
# Boolean search

Required, optional and prohibited clauses are collected first. The first move, or the first request
for a score, composes them into one cursor, chosen by how many there are of each and by how many
optional ones have to match. A document scores the sum of its matching clauses times the factor that
the coordination rule gives for their number.
-/

namespace Retrieval

namespace Boolean

/-- The clauses that decide which documents can match. -/
abbrev Core (σ : Type) := Counted σ ⊕ Conjunction (Counted σ)

/-- The documents to be left out. -/
abbrev Prohibited (σ : Type) := σ ⊕ Threshold σ

/-- The deciding clauses, the documents left out being removed if there are any to remove. -/
abbrev Guarded (σ : Type) := Core σ ⊕ Exclusion (Core σ) (Prohibited σ)

/-- Every composition of clauses: one that matches nothing, one in which every clause decides, and
one in which some clauses only add to the score. -/
abbrev Composition (σ : Type) := Nothing ⊕ (Guarded σ ⊕ Bonus (Guarded σ) (Counted σ))

/-- The clauses by their roles, each kind in the order in which they were added. -/
structure Clauses (σ : Type) where
  required : List σ := []
  optional : List σ := []
  prohibited : List σ := []

namespace Clauses

variable {σ : Type}

def size (c : Clauses σ) : Nat := c.required.length + c.optional.length + c.prohibited.length

def add (c : Clauses σ) (role : Role) (clause : σ) : Clauses σ :=
  match role with
  | .required => { c with required := c.required ++ [clause] }
  | .optional => { c with optional := c.optional ++ [clause] }
  | .prohibited => { c with prohibited := c.prohibited ++ [clause] }

variable [Cursor σ]

/-- Some clauses that have to match all together, counted as one group; a single one needs no
conjunction. -/
def conjoin : List σ → Counted σ
  | [clause] => .one clause .enclosing
  | clauses => .all .fraction clauses .enclosing

/-- Leave the prohibited documents out. -/
def guard (core : Core σ) : List σ → Except Failure (Guarded σ)
  | [] => .ok (.inl core)
  | [clause] => .ok (.inr (.ofParts core (.inl clause)))
  | clauses => do return .inr (.ofParts core (.inr (← Threshold.any clauses)))

/-- Compose clauses none of which is required: at least one optional clause has to match, or more if
the rules say so. -/
def composeOptional (minOptional : Nat) (optional prohibited : List σ) :
    Except Failure (Composition σ) := do
  let needed := max minOptional 1
  if optional.length < needed then
    return .inl {}
  else if needed < optional.length then
    return .inr (.inl (← guard (.inl (← Counted.atLeast needed optional .enclosing)) prohibited))
  else
    return .inr (.inl (← guard (.inl (conjoin optional)) prohibited))

/-- Compose clauses some of which are required. If every optional clause has to match, they count
among the required ones, as a conjunction even if there is just one. If none has to, they add to the
scores of the documents that the others leave. -/
def composeRequired (minOptional : Nat) (required optional prohibited : List σ) :
    Except Failure (Composition σ) := do
  if optional.length < minOptional then
    return .inl {}
  else if optional.length = minOptional then
    let all := .all .fraction (required ++ optional) .enclosing
    return .inr (.inl (← guard (.inl all) prohibited))
  else if 0 < minOptional then
    let enough ← Counted.atLeast minOptional optional .enclosing
    let both := .ofParts .fraction [conjoin required, enough]
    return .inr (.inl (← guard (.inr both) prohibited))
  else
    let bonus ←
      match optional with
      | [clause] => pure (.one clause .enclosing)
      | clauses => Counted.atLeast 1 clauses .enclosing
    return .inr (.inr (.ofParts (← guard (.inl (conjoin required)) prohibited) bonus))

/-- Compose the clauses into one cursor. -/
def compose (minOptional : Nat) (c : Clauses σ) : Except Failure (Composition σ) :=
  if c.required.isEmpty then composeOptional minOptional c.optional c.prohibited
  else composeRequired minOptional c.required c.optional c.prohibited

end Clauses

/-- How far a boolean search has got. -/
inductive Stage (σ : Type) where
  | collecting (clauses : Clauses σ)
  | composed (composition : Composition σ)

end Boolean

/-- A search for the documents that match clauses of different roles. -/
structure BooleanCursor (σ : Type) where
  rules : ClauseRules
  rule : CoordRule
  coordination : Coordination
  stage : Boolean.Stage σ

namespace BooleanCursor

open Boolean

variable {σ : Type}

def create (rule : CoordRule) (rules : ClauseRules) : Except Failure (BooleanCursor σ) := do
  rules.validate
  return { rules, rule, coordination := {}, stage := .collecting {} }

/-- How many clauses are waiting to be composed. -/
def size (c : BooleanCursor σ) : Nat :=
  match c.stage with
  | .collecting clauses => clauses.size
  | .composed _ => 0

/-- Add a clause, as long as the search has not begun and the rules leave room for it. -/
def add (c : BooleanCursor σ) (role : Role) (clause : σ) : Except Failure (BooleanCursor σ) :=
  match c.stage with
  | .composed _ => .error .clausesFixed
  | .collecting clauses =>
    if c.rules.maxClauses < clauses.size + 1 then
      .error (.tooManyClauses (clauses.size + 1) c.rules.maxClauses)
    else
      .ok { c with
        coordination := if role.counts then c.coordination.addClause else c.coordination
        stage := .collecting (clauses.add role clause) }

def countingClauses (c : BooleanCursor σ) : Nat := c.coordination.clauses

def matched (c : BooleanCursor σ) : UInt64 := c.coordination.matched

variable [Cursor σ]

/-- The composition, which is made now if it has not been made before. Making it tabulates the
coordination factors, and takes the clauses even if it fails. -/
def compose (c : BooleanCursor σ) : Outcome (BooleanCursor σ) (Composition σ) :=
  match c.stage with
  | .composed composition => .done c composition
  | .collecting clauses =>
    let c := { c with coordination := c.coordination.tabulate c.rule }
    match clauses.compose c.rules.minOptional with
    | .error failure => .fail { c with stage := .collecting {} } failure
    | .ok composition => .done { c with stage := .composed composition } composition

/-- Take over what a call on the composition leaves. The clauses it counted are this search's own;
only marks for named counts go on outward. -/
def resume {α : Type} (c : BooleanCursor σ) (o : Outcome (Composition σ) α) :
    Outcome (BooleanCursor σ) α where
  answer := o.answer
  state := { c with
    coordination := c.coordination.add o.marks.enclosing
    stage := .composed o.state }
  marks := o.marks.outward

def doc (c : BooleanCursor σ) : DocId :=
  match c.stage with
  | .collecting _ => .beforeFirst
  | .composed composition => Cursor.doc composition

def next (c : BooleanCursor σ) : Outcome (BooleanCursor σ) Bool :=
  c.compose.andThen fun composition c => c.resume (Cursor.next composition)

/-- A negative target is refused before anything is composed. -/
def seek (c : BooleanCursor σ) (target : DocId) : Outcome (BooleanCursor σ) Bool :=
  if target < 0 then
    .fail c (.negativeTarget target)
  else
    c.compose.andThen fun composition c => c.resume (Cursor.seek composition target)

/-- Turning to another document starts the count anew. The factor is looked up after the document's
clauses have been counted. -/
def score (c : BooleanCursor σ) : Outcome (BooleanCursor σ) Score :=
  c.compose.andThen fun composition c =>
    let c := { c with coordination := c.coordination.enter (Cursor.doc composition) }
    (c.resume (Cursor.score composition)).andThen fun sum c =>
      .ofExcept c (c.coordination.factor.map (sum * ·))

/-- Until the clauses are composed, the moves left in all of them, and some for the parts that the
composition puts around them. -/
def movesLeft (c : BooleanCursor σ) : Nat :=
  match c.stage with
  | .collecting clauses =>
    Cursor.movesLeftInAll 1 (clauses.required ++ clauses.optional ++ clauses.prohibited) + 5
  | .composed composition => Cursor.movesLeft composition

instance : Cursor (BooleanCursor σ) where
  doc := doc
  next := next
  seek := seek
  score := score
  movesLeft := movesLeft

end BooleanCursor

end Retrieval
