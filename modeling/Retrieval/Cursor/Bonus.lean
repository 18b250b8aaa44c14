import Retrieval.Cursor.Basic

/-!
# One cursor, with a bonus from another

The documents are those of the required side. The optional side is moved only when a document is
scored: if it contains the document too, its score is added.
-/

namespace Retrieval

/-- The documents of `required`, scored higher where `optional` also contains them. -/
structure Bonus (ρ ο : Type) where
  required : ρ
  /-- The side that adds to scores, until it has run out. -/
  optional : Option ο
  /-- Whether the optional side has not been moved yet. -/
  fresh : Bool

namespace Bonus

variable {ρ ο : Type} [Cursor ρ] [Cursor ο]

def ofParts (required : ρ) (optional : ο) : Bonus ρ ο where
  required
  optional := some optional
  fresh := true

/-- Bring the optional side up to a document. It is not moved if it stands there or further on
already. -/
def catchUp (c : Bonus ρ ο) (doc : DocId) : Outcome (Bonus ρ ο) Unit :=
  match c.optional with
  | none => .done c ()
  | some optional =>
    if c.fresh || Cursor.doc optional < doc then
      (Cursor.seek optional doc).bind (fun optional => { c with optional := some optional })
        fun found optional =>
          .done { c with optional := if found then some optional else none, fresh := false } ()
    else
      .done c ()

/-- Add the score of the optional side if it stands on the document. -/
def addOptional (c : Bonus ρ ο) (doc : DocId) (score : Score) : Outcome (Bonus ρ ο) Score :=
  match c.optional with
  | none => .done c score
  | some optional =>
    if Cursor.doc optional = doc then
      ((Cursor.score optional).map (score + ·)).within fun optional =>
        { c with optional := some optional }
    else
      .done c score

def score (c : Bonus ρ ο) : Outcome (Bonus ρ ο) Score :=
  let doc := Cursor.doc c.required
  (Cursor.score c.required).bind (fun required => { c with required }) fun score required =>
    ({ c with required }.catchUp doc).andThen fun _ c => c.addOptional doc score

instance : Cursor (Bonus ρ ο) where
  doc c := Cursor.doc c.required
  next c := (Cursor.next c.required).within fun required => { c with required }
  seek c target := (Cursor.seek c.required target).within fun required => { c with required }
  score := score
  movesLeft c := Cursor.movesLeft c.required + (c.optional.map Cursor.movesLeft).getD 0

end Bonus

end Retrieval
