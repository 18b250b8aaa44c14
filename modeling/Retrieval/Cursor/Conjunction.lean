import Retrieval.Coordination.Rule
import Retrieval.Cursor.Basic

/-!
# All of several cursors

A conjunction stands on a document that all its parts stand on. Its parts are kept in ascending
order of where they stand; the one furthest behind is sent to where the one furthest ahead stands
and goes to the end of the row, until the first and the last agree.
-/

namespace Retrieval

/-- The documents common to all parts. -/
structure Conjunction (σ : Type) where
  /-- The parts, the one furthest behind in front. -/
  parts : List σ
  /-- Whether no move has been made yet. -/
  fresh : Bool
  /-- Whether there may be further documents. -/
  more : Bool
  /-- What the sum of the parts' scores is multiplied by. -/
  factor : Score

namespace Conjunction

variable {σ : Type} [Cursor σ]

/-- The conjunction of cursors that have not started. Without parts it has no documents. The rule
gives the factor for all parts matching. -/
def ofParts (rule : CoordRule) (parts : List σ) : Conjunction σ where
  parts
  fresh := true
  more := !parts.isEmpty
  factor := rule.factor parts.length parts.length

def doc (c : Conjunction σ) : DocId := (c.parts.head?.map Cursor.doc).getD .beforeFirst

def lastDoc (c : Conjunction σ) : DocId := (c.parts.getLast?.map Cursor.doc).getD .beforeFirst

/-- Put the parts in order. Parts that stand on the same document keep their order. -/
def arrange (c : Conjunction σ) : Conjunction σ :=
  { c with parts := c.parts.mergeSort fun p q => Cursor.doc p ≤ Cursor.doc q }

/-- Move each part in turn, up to the first one that has no document left, and answer whether there
was none. -/
def sweep (move : σ → Outcome σ Bool) : List σ → Outcome (List σ) Bool
  | [] => .done [] true
  | p :: rest =>
    (move p).bind (· :: rest) fun found p =>
      if found then (sweep move rest).within (p :: ·) else .done (p :: rest) false

/-- Unless the documents have run out, move every part, and put the parts in order again. -/
def moveAll (c : Conjunction σ) (move : σ → Outcome σ Bool) : Outcome (Conjunction σ) Unit :=
  if c.more then
    (sweep move c.parts).bind (fun parts => { c with parts }) fun found parts =>
      let c := { c with parts, more := found }
      .done (if found then c.arrange else c) ()
  else
    .done c ()

/-- Put every part on its first document, if no move has been made yet. -/
def start (c : Conjunction σ) : Outcome (Conjunction σ) Unit :=
  { c with fresh := false, more := !c.parts.isEmpty }.moveAll Cursor.next

/-- Move on only the part in the last place, which stands on the present document like all others.
-/
def advanceLast (c : Conjunction σ) : Outcome (Conjunction σ) Unit :=
  if c.more then
    match c.parts.getLast? with
    | none => .done c ()
    | some last =>
      (Cursor.next last).bind (fun last => { c with parts := c.parts.dropLast ++ [last] })
        fun found last => .done { c with parts := c.parts.dropLast ++ [last], more := found } ()
  else
    .done c ()

/-- Send the first part to where the last one stands, until both stand on the same document or one
of them has none left. A part that fails to move is lost. -/
def converge : Nat → Conjunction σ → Outcome (Conjunction σ) Bool
  | 0, c => .fail c .stalled
  | bound + 1, c =>
    match c.parts with
    | [] => .done c c.more
    | first :: rest =>
      if c.more && c.doc < c.lastDoc then
        (Cursor.seek first c.lastDoc).bind (fun _ => { c with parts := rest }) fun found first =>
          let c := { c with parts := rest ++ [first], more := found }
          if found then converge bound c else .done c false
      else
        .done c c.more

/-- One start for all parts, and the moves left in each. -/
def movesLeft (c : Conjunction σ) : Nat :=
  Cursor.movesLeftInAll 0 c.parts + if c.fresh then 1 else 0

/-- Bring the parts together. Every round but the last uses up a move of one of them. -/
def settle (c : Conjunction σ) : Outcome (Conjunction σ) Bool :=
  c.converge (c.movesLeft + 1)

def next (c : Conjunction σ) : Outcome (Conjunction σ) Bool :=
  (if c.fresh then c.start else c.advanceLast).andThen fun _ c => c.settle

def seek (c : Conjunction σ) (target : DocId) : Outcome (Conjunction σ) Bool :=
  (if c.fresh then c.start else .done c ()).andThen fun _ c =>
    (c.moveAll (Cursor.seek · target)).andThen fun _ c => c.settle

/-- The sum of the parts' scores, added from zero in the order in which the parts stand. -/
def sumScores (total : Score) : List σ → Outcome (List σ) Score
  | [] => .done [] total
  | p :: rest =>
    (Cursor.score p).bind (· :: rest) fun score p =>
      (sumScores (total + score) rest).within (p :: ·)

def score (c : Conjunction σ) : Outcome (Conjunction σ) Score :=
  ((sumScores 0 c.parts).map (· * c.factor)).within fun parts => { c with parts }

instance : Cursor (Conjunction σ) where
  doc := doc
  next := next
  seek := seek
  score := score
  movesLeft := movesLeft

end Conjunction

end Retrieval
