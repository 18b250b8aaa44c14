import Retrieval.Document
import Retrieval.Failure
import Retrieval.Json.Number
import Retrieval.Json.Parser
import Retrieval.Json.Printer

/-!
# Reading and writing records

A record is an object with a member for each of its fields, or an array of the fields in order. An
object may have the fields in any order and other members besides; an array may leave out fields at
its end. Whether a field can do without a value is up to the record. Records may be nested up to a
limit; what is skipped may be nested as deeply as it likes.

All of this is the business of a library, which may be exchanged for another one.
-/

namespace Retrieval

namespace Json

/-- The only value in a list, or none if the list is empty; two values are one too many. -/
def atMostOne {α : Type} : List α → Option (Option α)
  | [] => some none
  | [a] => some (some a)
  | _ => none

def fields? (names : List String) : Json → Option (List (Option Json))
  | .object members => do
    let members ← members.mapM fun (name, value) => (Piece.text? name).map (·, value)
    names.mapM fun name => atMostOne ((members.filter (·.1 = name)).map (·.2))
  | .array items =>
    if items.length ≤ names.length then
      some (items.map some ++ List.replicate (names.length - items.length) none)
    else none
  | _ => none

def int? (least greatest : Int) (v : Json) : Option Int := do
  let n ←
    match ← v.number? with
    | .natural n => some (n : Int)
    | .negative n => some n
    | .float _ => none
  if least ≤ n ∧ n ≤ greatest then some n else none

def doc? (v : Json) : Option DocId := (v.int? (-2147483648) 2147483647).map Int32.ofInt

def size? (v : Json) : Option Nat := (v.int? 0 18446744073709551615).map Int.toNat

/-- A score: the 32-bit floating-point number nearest to the one written. -/
def score? (v : Json) : Option Score := v.number?.map Number.toScore

def text? : Json → Option String
  | .string pieces => Piece.text? pieces
  | _ => none

def bool? : Json → Option Bool
  | .bool b => some b
  | _ => none

/-- A library that reads and writes JSON, and scores and records in it. -/
structure Library where
  /-- The text of a value, spread over lines. -/
  pretty : Json → String
  /-- The value that a text consists of. -/
  parse : String → Option Json
  ofScore : Score → Json
  score? : Json → Option Score
  /-- The values of the named fields of a record. -/
  fields? : List String → Json → Option (List (Option Json))
  /-- How deeply objects and arrays may be nested in a value that is made into a record. -/
  maxDepth : Nat

def Library.standard : Library where
  pretty := Json.pretty
  parse := Json.parse
  ofScore := Json.ofScore
  score? := Json.score?
  fields? := Json.fields?
  maxDepth := 127

def read {α : Type} (record? : Json → Option α) (text : String) (json : Library := .standard) :
    Except Failure α :=
  match (json.parse text).bind record? with
  | some a => .ok a
  | none => .error .malformedJson

end Json

end Retrieval
