import Retrieval.Cursor.Basic

/-!
# One cursor without the documents of another

An exclusion walks through the required documents and steps over those that the excluded cursor also
contains. A side that has run out is given up: without required documents nothing is left, without
excluded ones all required documents pass.
-/

namespace Retrieval

/-- The documents of `required` that are not in `excluded`. -/
structure Exclusion (ρ ε : Type) where
  /-- The required documents, until they have run out. -/
  required : Option ρ
  /-- The excluded documents, until they have run out. -/
  excluded : Option ε
  /-- Whether no move has been made yet. -/
  fresh : Bool

namespace Exclusion

variable {ρ ε : Type} [Cursor ρ] [Cursor ε]

def ofParts (required : ρ) (excluded : ε) : Exclusion ρ ε where
  required := some required
  excluded := some excluded
  fresh := true

/-- An exclusion past its first move. -/
def begun (required : Option ρ) (excluded : Option ε) : Exclusion ρ ε where
  required
  excluded
  fresh := false

def doc (c : Exclusion ρ ε) : DocId := (c.required.map Cursor.doc).getD .afterLast

/-- Bring the excluded side up to a document, and answer whether the document is to be stepped over.
If no excluded document is left, that side is given up. -/
def judge (excluded : ε) (doc : DocId) : Outcome (Option ε) Bool :=
  if doc < Cursor.doc excluded then
    .done (some excluded) false
  else if Cursor.doc excluded < doc then
    (Cursor.seek excluded doc).bind some fun found excluded =>
      if found then .done (some excluded) (Cursor.doc excluded ≤ doc) else .done none false
  else
    .done (some excluded) true

/-- Step over excluded documents, from the required document that is stood on. -/
def pass : Nat → ρ → Option ε → Outcome (Exclusion ρ ε) Bool
  | _, required, none => .done (begun (some required) none) true
  | 0, required, some excluded => .fail (begun (some required) (some excluded)) .stalled
  | bound + 1, required, some excluded =>
    (judge excluded (Cursor.doc required)).bind (begun (some required) ·) fun isExcluded excluded =>
      if isExcluded then
        (Cursor.next required).bind (fun required => begun (some required) excluded)
          fun found required =>
            if found then pass bound required excluded else .done (begun none excluded) false
      else
        .done (begun (some required) excluded) true

/-- Make the first move of the excluded side, if it has not been made. -/
def start (c : Exclusion ρ ε) (move : ε → Outcome ε Bool) : Outcome (Exclusion ρ ε) Unit :=
  match c.fresh, c.excluded with
  | true, some excluded =>
    (move excluded).bind (fun excluded => begun c.required (some excluded)) fun found excluded =>
      .done (begun c.required (if found then some excluded else none)) ()
  | _, excluded => .done (begun c.required excluded) ()

def next (c : Exclusion ρ ε) : Outcome (Exclusion ρ ε) Bool :=
  (c.start Cursor.next).andThen fun _ c =>
    match c.required with
    | none => .done c false
    | some required =>
      (Cursor.next required).bind (fun required => begun (some required) c.excluded)
        fun found required =>
          if found then pass (Cursor.movesLeft required + 1) required c.excluded
          else .done (begun none c.excluded) false

/-- Without an excluded side the required side answers alone, and is kept even if it has run out. -/
def seek (c : Exclusion ρ ε) (target : DocId) : Outcome (Exclusion ρ ε) Bool :=
  (c.start (Cursor.seek · target)).andThen fun _ c =>
    match c.required, c.excluded with
    | none, _ => .done c false
    | some required, none =>
      (Cursor.seek required target).within fun required => begun (some required) none
    | some required, some excluded =>
      (Cursor.seek required target).bind (fun required => begun (some required) (some excluded))
        fun found required =>
          if found then pass (Cursor.movesLeft required + 1) required (some excluded)
          else .done (begun none (some excluded)) false

def score (c : Exclusion ρ ε) : Outcome (Exclusion ρ ε) Score :=
  match c.required with
  | none => .fail c .scoreAfterEnd
  | some required =>
    (Cursor.score required).within fun required => { c with required := some required }

def movesLeft (c : Exclusion ρ ε) : Nat :=
  (c.required.map Cursor.movesLeft).getD 0 + (c.excluded.map Cursor.movesLeft).getD 0

instance : Cursor (Exclusion ρ ε) where
  doc := doc
  next := next
  seek := seek
  score := score
  movesLeft := movesLeft

end Exclusion

end Retrieval
