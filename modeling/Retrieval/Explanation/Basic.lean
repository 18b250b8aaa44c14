import Retrieval.Decimal.Notation

/-!
# Explanations

An explanation is a tree that tells how the score of a document comes about: each node has a value,
says what the value is, and whether the document matched there; below it stand the parts that the
value is made of.
-/

namespace Retrieval

/-- How a value comes about. -/
structure Explanation where
  value : Score
  description : String
  /-- Whether the document matched. -/
  matched : Bool
  details : List Explanation

namespace Explanation

/-- An explanation without details of a value that stands for a match if it is positive. -/
def ofValue (value : Score) (description : String) : Explanation :=
  ⟨value, description, decide (0 < value), []⟩

/-- An explanation without details of a match, whatever its value. -/
def ofMatch (value : Score) (description : String) : Explanation := ⟨value, description, true, []⟩

def noMatch (description : String) : Explanation := ⟨0, description, false, []⟩

def addDetail (e : Explanation) (detail : Explanation) : Explanation :=
  { e with details := e.details ++ [detail] }

mutual

/-- The lines of the tree, the root's one being indented by `depth` steps of two blanks. -/
def lines (depth : Nat) : Explanation → List String
  | ⟨value, description, _, details⟩ =>
    let indent := String.ofList (List.replicate (2 * depth) ' ')
    s!"{indent}{plainText value} = {description}\n" :: linesOfAll (depth + 1) details

def linesOfAll (depth : Nat) : List Explanation → List String
  | [] => []
  | e :: rest => lines depth e ++ linesOfAll depth rest

end

/-- The tree as indented text, a line for each node. -/
def text (e : Explanation) : String := String.join (e.lines 0)

end Explanation

end Retrieval
