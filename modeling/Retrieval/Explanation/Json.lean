import Retrieval.Explanation.Basic
import Retrieval.Json.Record

/-!
# Explanations in JSON

An explanation is a record. Its details are left out where there are none.
-/

namespace Retrieval.Explanation

section

variable (json : Json.Library)

mutual

def toJson : Explanation → Json
  | ⟨value, description, matched, details⟩ =>
    let members :=
      [("value", json.ofScore value), ("description", .ofText description),
        ("is_match", .bool matched)]
    .ofMembers <|
      if details.isEmpty then members
      else members ++ [("details", .array (allToJson details))]

def allToJson : List Explanation → List Json
  | [] => []
  | e :: rest => toJson e :: allToJson rest

end

mutual

/-- An explanation from a record, in which objects and arrays may be nested `depth` deep. -/
def ofJson? : (depth : Nat) → Json → Option Explanation
  | 0, _ => none
  | depth + 1, v => do
    match ← json.fields? ["value", "description", "is_match", "details"] v with
    | [some value, some description, some matched, details] =>
      let details ← (details.map (allOfJson? depth)).getD (some [])
      return ⟨← json.score? value, ← description.text?, ← matched.bool?, details⟩
    | _ => none

def allOfJson? : (depth : Nat) → Json → Option (List Explanation)
  | depth + 1, .array items => items.mapM (ofJson? depth)
  | _, _ => none

end

end

def write (e : Explanation) (json : Json.Library := .standard) : String :=
  json.pretty (e.toJson json)

def read (text : String) (json : Json.Library := .standard) : Except Failure Explanation :=
  Json.read (ofJson? json json.maxDepth) text json

end Retrieval.Explanation
