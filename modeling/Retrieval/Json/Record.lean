import Retrieval.Clause
import Retrieval.Json.Library
import Retrieval.Posting.List

/-!
# Records in JSON

Rules, postings, hits and roles as records.
-/

namespace Retrieval

namespace ClauseRules

def toJson (rules : ClauseRules) : Json :=
  .ofMembers
    [("max_clause_count", .ofInt rules.maxClauses),
      ("minimum_should_match", .ofInt rules.minOptional)]

/-- A field without a value keeps its usual one. -/
def ofJson? (v : Json) : Option ClauseRules := do
  match ← v.fields? ["max_clause_count", "minimum_should_match"] with
  | [maxClauses, minOptional] =>
    let usual : ClauseRules := {}
    let size (value : Option Json) (usual : Nat) : Option Nat := (value.map Json.size?).getD usual
    return { maxClauses := ← size maxClauses usual.maxClauses,
             minOptional := ← size minOptional usual.minOptional }
  | _ => none

/-- Read rules from a text. Rules that are not usable are refused. -/
def read (text : String) : Except Failure ClauseRules := do
  let rules ← Json.read ofJson? text
  rules.validate
  return rules

end ClauseRules

namespace Posting

def toJson (p : Posting) : Json :=
  .ofMembers [("doc_id", .ofInt p.doc.toInt), ("weight", .ofScore p.weight)]

def ofJson? (v : Json) : Option Posting := do
  match ← v.fields? ["doc_id", "weight"] with
  | [some doc, some weight] => return { doc := ← doc.doc?, weight := ← weight.score? }
  | _ => none

end Posting

namespace Hit

def toJson (h : Hit) : Json :=
  .ofMembers [("doc_id", .ofInt h.doc.toInt), ("score", .ofScore h.score)]

def ofJson? (v : Json) : Option Hit := do
  match ← v.fields? ["doc_id", "score"] with
  | [some doc, some score] => return { doc := ← doc.doc?, score := ← score.score? }
  | _ => none

end Hit

namespace Role

def word : Role → String
  | required => "Must"
  | optional => "Should"
  | prohibited => "MustNot"

def ofWord? (word : String) : Option Role :=
  [required, optional, prohibited].find? (·.word = word)

def toJson (role : Role) : Json := .ofText role.word

/-- A role may also be given as an object with its word for a name, which has no value. -/
def ofJson? : Json → Option Role
  | .string word => (Piece.text? word).bind ofWord?
  | .object [(word, .null)] => (Piece.text? word).bind ofWord?
  | _ => none

end Role

end Retrieval
