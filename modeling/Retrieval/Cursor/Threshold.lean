import Retrieval.Cursor.Queue

/-!
# At least so many of several cursors

A threshold is met by the documents that enough of its alternatives contain. The alternatives are
put into a queue at the first move. To find a document, all alternatives that stand on the first
document of the queue are counted, scored and moved past it, until enough of them were on the same
one.
-/

namespace Retrieval

/-- The alternatives of a threshold, gathered. They stand past the document found last. -/
structure Threshold.Front (σ : Type) where
  queue : CursorQueue σ
  /-- How many alternatives still have documents. -/
  live : Nat
  /-- The document found last. -/
  current : DocId
  /-- The sum of the scores of the alternatives on that document. -/
  total : Score
  /-- How many alternatives were on that document. -/
  matched : Nat

/-- How far a threshold has got. -/
inductive Threshold.Stage (σ : Type) where
  /-- No move has been made yet. -/
  | waiting (alternatives : List σ)
  | running (front : Threshold.Front σ)

/-- The documents that at least `needed` alternatives contain. -/
structure Threshold (σ : Type) where
  needed : Nat
  /-- How many alternatives there were to begin with. -/
  arity : Nat
  stage : Threshold.Stage σ

namespace Threshold

variable {σ : Type}

/-- A threshold over at least two alternatives of which at least one has to match. -/
def ofAlternatives (alternatives : List σ) (needed : Nat) : Except Failure (Threshold σ) :=
  if needed = 0 then
    .error .noneNeeded
  else if alternatives.length ≤ 1 then
    .error (.tooFewAlternatives alternatives.length)
  else
    .ok { needed, arity := alternatives.length, stage := .waiting alternatives }

/-- The documents that any of the alternatives contains. -/
def any (alternatives : List σ) : Except Failure (Threshold σ) := ofAlternatives alternatives 1

def doc (t : Threshold σ) : DocId :=
  match t.stage with
  | .waiting _ => .beforeFirst
  | .running front => front.current

def matched (t : Threshold σ) : Nat :=
  match t.stage with
  | .waiting _ => 0
  | .running front => front.matched

/-- The score was summed up when the document was found. -/
def score (t : Threshold σ) : Outcome (Threshold σ) Score :=
  .done t <|
    match t.stage with
    | .waiting _ => 0
    | .running front => front.total

namespace Front

variable [Cursor σ]

def lose (f : Front σ) : Front σ := { f with live := f.live - 1 }

def withQueue (f : Front σ) (queue : CursorQueue σ) : Front σ := { f with queue }

/-- Make the first document of the queue the candidate, counting the alternative in front. -/
def propose (f : Front σ) : Outcome (Front σ) Unit :=
  let f := { f with current := f.queue.topDoc }
  f.queue.topScore.bind f.withQueue fun score queue =>
    .done { f with queue, total := score, matched := 1 } ()

/-- Move the alternatives that stand on the candidate past it, counting each one after the first. -/
def absorb : Nat → Front σ → Outcome (Front σ) Unit
  | 0, f => .fail f .stalled
  | bound + 1, f =>
    f.queue.nextTop.bind f.withQueue fun found queue =>
      let f := if found then f.withQueue queue else (f.withQueue queue).lose
      if !found && f.live == 0 then
        .done f ()
      else if f.queue.topDoc ≠ f.current then
        .done f ()
      else
        f.queue.topScore.bind f.withQueue fun score queue =>
          absorb bound { f with queue, total := f.total + score, matched := f.matched + 1 }

/-- A bound on the rounds in which an alternative is moved or dropped. -/
def movesLeft (f : Front σ) : Nat := f.queue.movesLeft

/-- Try one candidate after the other, until enough alternatives contain one of them or too few
alternatives are left. -/
def search (needed : Nat) : Nat → Front σ → Outcome (Front σ) Bool
  | 0, f => .fail f .stalled
  | bound + 1, f =>
    f.propose.andThen fun _ f =>
      (f.absorb (f.movesLeft + 1)).andThen fun _ f =>
        if needed ≤ f.matched then .done f true
        else if f.live < needed then .done f false
        else search needed bound f

/-- Search from where the alternatives stand. Every candidate uses up a move. -/
def advance (needed : Nat) (f : Front σ) : Outcome (Front σ) Bool :=
  f.search needed (f.movesLeft + 1)

/-- Send the alternatives that stand before the target to it, as long as enough of them are left,
and search from there. -/
def catchUp (needed : Nat) (target : DocId) : Nat → Front σ → Outcome (Front σ) Bool
  | 0, f => .fail f .stalled
  | bound + 1, f =>
    if target ≤ f.queue.topDoc then
      f.advance needed
    else
      (f.queue.seekTop target).bind f.withQueue fun found queue =>
        let f := f.withQueue queue
        if found then catchUp needed target bound f
        else if f.lose.live < needed then .done f.lose false
        else catchUp needed target bound f.lose

end Front

variable [Cursor σ]

/-- Put alternatives into the queue, each on its first document, and count those that have one. -/
def gather (queue : CursorQueue σ) (live : Nat) : List σ → Outcome (CursorQueue σ × Nat) Unit
  | [] => .done (queue, live) ()
  | a :: rest =>
    (queue.insert a).bind (·, live) fun found queue =>
      gather queue (if found then live + 1 else live) rest

/-- The front, the alternatives being gathered if no move has been made yet. If gathering them
fails, none of them is left. -/
def start (t : Threshold σ) : Outcome (Threshold σ) (Front σ) :=
  match t.stage with
  | .running front => .done t front
  | .waiting alternatives =>
    (gather (.empty t.arity) 0 alternatives).bind (fun _ => { t with stage := .waiting [] })
      fun _ (queue, live) =>
        let front := { queue, live, current := .beforeFirst, total := 0, matched := 0 }
        .done { t with stage := .running front } front

def withFront (t : Threshold σ) (front : Front σ) : Threshold σ :=
  { t with stage := .running front }

def next (t : Threshold σ) : Outcome (Threshold σ) Bool :=
  t.start.andThen fun front t =>
    if front.live < t.needed then .done t false
    else (front.advance t.needed).within t.withFront

/-- A target at or before the document found last is answered without a move, but only while enough
alternatives have documents left. -/
def seek (t : Threshold σ) (target : DocId) : Outcome (Threshold σ) Bool :=
  t.start.andThen fun front t =>
    if front.live < t.needed then .done t false
    else if target ≤ front.current then .done t true
    else
      (front.catchUp t.needed target (front.movesLeft + front.queue.size + 1)).within t.withFront

/-- One move to gather the alternatives, then the moves left in them and one to drop each. -/
def movesLeft (t : Threshold σ) : Nat :=
  match t.stage with
  | .waiting alternatives => Cursor.movesLeftInAll 1 alternatives + 1
  | .running front => front.movesLeft

instance : Cursor (Threshold σ) where
  doc := doc
  next := next
  seek := seek
  score := score
  movesLeft := movesLeft

end Threshold

end Retrieval
