import Retrieval.Explanation.Basic
import Retrieval.Query.Basic

/-!
# Explaining the score of a document

A query explains a document's score by looking at the document alone. What it says about matching
agrees with what a search finds.
-/

namespace Retrieval

/-- A term explains its weight in the document. A document with a posting matches even if its weight
is zero. -/
def TermQuery.explain (q : TermQuery) (doc : DocId) : Explanation :=
  match q.list.get? doc with
  | none => .noMatch s!"no matching posting for {q.name} in {doc}"
  | some posting =>
    let value := posting.weight * q.boost
    if q.boost = 1 then
      .ofMatch value s!"weight({q.name} in {doc})"
    else
      (Explanation.ofMatch value s!"weight({q.name} in {doc}), product of:").addDetail
        (.ofMatch posting.weight "posting weight") |>.addDetail (.ofMatch q.boost "boost")

/-- A clause of a boolean query in the light of one document. -/
structure ClauseFinding where
  role : Role
  /-- What the clause is called. -/
  name : String
  explanation : Explanation

/-- What the findings for the first clauses of a query come to. -/
structure Summary where
  details : List Explanation := []
  /-- How many clauses match and add to the score, and how many of these are optional. -/
  matched : Nat := 0
  optional : Nat := 0
  /-- How many clauses can add to the score. -/
  counting : Nat := 0
  sum : Score := 0
  /-- Whether some clause keeps the document out. -/
  rejected : Bool := false

namespace Summary

/-- The clause adds to the score. -/
def accept (s : Summary) (f : ClauseFinding) : Summary :=
  { s with
    matched := s.matched + 1
    sum := s.sum + f.explanation.value
    details := s.details ++ [f.explanation] }

/-- The clause keeps the document out. A note tells so and refers to what the clause explains. -/
def reject (s : Summary) (cause : String) (f : ClauseFinding) : Summary :=
  let note := (Explanation.ofValue 0 s!"{cause} ({f.name})").addDetail f.explanation
  { s with rejected := true, details := s.details ++ [note] }

/-- Take in one more finding. -/
def add (s : Summary) (f : ClauseFinding) : Summary :=
  let s := if f.role.counts then { s with counting := s.counting + 1 } else s
  match f.explanation.matched, f.role with
  | true, .required => s.accept f
  | true, .optional => { s.accept f with optional := s.optional + 1 }
  | true, .prohibited => s.reject "match on prohibited clause" f
  | false, .required => s.reject "no match on required clause" f
  | false, _ => s

/-- The explanation of the whole. A document that is kept out by a clause, or that matches too few
optional ones, has no score. Otherwise the sum is multiplied by the coordination factor if that
makes a difference. -/
def conclude (s : Summary) (rules : ClauseRules) (rule : CoordRule) : Explanation :=
  if s.rejected then
    ⟨0, "Failure to meet condition(s) of required/prohibited clause(s)", false, s.details⟩
  else if s.optional < rules.minOptional then
    ⟨0, s!"Failure to match minimum number of optional clauses: {rules.minOptional}", false,
      s.details⟩
  else
    let sum : Explanation := ⟨s.sum, "sum of:", decide (0 < s.matched), s.details⟩
    let factor := rule.factor s.matched s.counting
    if factor = 1 then
      sum
    else
      (Explanation.mk (s.sum * factor) "product of:" sum.matched []).addDetail sum
        |>.addDetail (.ofValue factor s!"coord({s.matched}/{s.counting})")

end Summary

namespace BooleanQuery

variable {κ : Type}

/-- What the clauses find in a document. -/
def findings (q : BooleanQuery κ) (describe : κ → String) (explain : κ → DocId → Explanation)
    (doc : DocId) : List ClauseFinding :=
  q.clauses.map fun (role, clause) => ⟨role, describe clause, explain clause doc⟩

/-- Go through the findings in the order of the clauses and put them together. -/
def summarize (q : BooleanQuery κ) (findings : List ClauseFinding) : Explanation :=
  (findings.foldl Summary.add {}).conclude q.rules q.rule

end BooleanQuery

/-- How the score of a document comes about. -/
def Query.explain : {height : Nat} → Query height → DocId → Explanation
  | 0, q, _ => nomatch q
  | _ + 1, .term q, doc => q.explain doc
  | _ + 1, .boolean q, doc => q.summarize (q.findings Query.describe Query.explain doc)

end Retrieval
