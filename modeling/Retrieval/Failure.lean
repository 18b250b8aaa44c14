import Retrieval.Document

/-!
# Why a call can fail

A failure is recorded by its cause; how it is classified and worded is decided here and nowhere
else. Running out of documents is not a failure: moves report it by answering `false`.
-/

namespace Retrieval

/-- The classes that a caller can tell failures apart by. -/
inductive Failure.Kind where
  | unsupportedOperation
  | invalidArgument
  | tooManyClauses
  | invalidOperation
  | malformedJson
  | other
  deriving DecidableEq

/-- A failure that a collaborator (a source of documents, a collector of hits) words itself. -/
structure Failure.Report where
  kind : Failure.Kind
  text : String
  deriving DecidableEq

inductive Failure where
  /-- A score was asked for before the cursor was moved to a document. -/
  | scoreBeforeStart
  /-- A score was asked for after the last document. -/
  | scoreAfterEnd
  /-- A score was asked for from a cursor that has no documents at all. -/
  | scoreOfNothing
  /-- A cursor was sent to a document before the first one. -/
  | negativeTarget (target : DocId)
  /-- A posting names a document before the first one. -/
  | negativeDoc (doc : DocId)
  /-- A threshold was to be met without any alternative. -/
  | noneNeeded
  /-- A threshold was given fewer than two alternatives. -/
  | tooFewAlternatives (count : Nat)
  /-- The rules of a boolean search leave no room for any clause. -/
  | noClauseAllowed
  /-- One clause more than the rules allow was added. -/
  | tooManyClauses (count limit : Nat)
  /-- A cursor was inserted into a queue that holds as many as it may. -/
  | queueFull (capacity : Nat)
  /-- The score of the first cursor was asked for from an empty queue. -/
  | scoreOfEmptyQueue
  /-- A clause was added after the search had begun. -/
  | clausesFixed
  /-- More clauses were counted for a document than the search has. -/
  | uncoordinated (matched : UInt64) (clauses : Nat)
  /-- A text is not JSON, or not the JSON of the record that was asked for. -/
  | malformedJson
  /-- A loop used up the bound computed for it. -/
  | stalled
  /-- A collaborator failed for a reason of its own. -/
  | reported (report : Failure.Report)
  deriving DecidableEq

namespace Failure

/-- A failure of the library's own bookkeeping, told in `text`. -/
def internal (text : String) : Failure :=
  .reported ⟨.other, s!"Internal error: {text}"⟩

def kind : Failure → Kind
  | scoreBeforeStart | scoreAfterEnd | scoreOfNothing => .unsupportedOperation
  | negativeTarget _ | negativeDoc _ | noneNeeded | tooFewAlternatives _ | noClauseAllowed =>
    .invalidArgument
  | tooManyClauses _ _ => .tooManyClauses
  | queueFull _ | scoreOfEmptyQueue | clausesFixed => .invalidOperation
  | malformedJson => .malformedJson
  | uncoordinated _ _ | stalled => .other
  | reported report => report.kind

/-- What went wrong, without the words that name the class. -/
def detail : Failure → String
  | scoreBeforeStart => "score() before next()"
  | scoreAfterEnd => "score() on an exhausted scorer"
  | scoreOfNothing => "score() on a scorer that matches no documents"
  | negativeTarget target => s!"skip target must be non-negative, got {target}"
  | negativeDoc doc => s!"negative document id {doc} in posting list"
  | noneNeeded => "minimum number of matchers must be at least 1"
  | tooFewAlternatives count => s!"a disjunction needs at least 2 sub-scorers, got {count}"
  | noClauseAllowed => "max_clause_count must be at least 1"
  | tooManyClauses count limit => s!"{count} exceeds the maximum of {limit}"
  | queueFull capacity => s!"scorer queue is full ({capacity} entries)"
  | scoreOfEmptyQueue => "top_score() on an empty queue"
  | clausesFixed => "cannot add clauses once scoring has started"
  | uncoordinated matched clauses =>
    s!"Internal error: {matched} matchers counted for {clauses} clauses"
  | malformedJson => "malformed text"
  | stalled => "Internal error: a loop ran past its bound"
  | reported report => report.text

/-- The words that name a class in front of the detail. -/
def Kind.heading : Kind → String
  | unsupportedOperation => "Unsupported operation"
  | invalidArgument => "Invalid argument"
  | tooManyClauses => "Too many clauses"
  | invalidOperation => "Invalid operation"
  | malformedJson => "JSON error"
  | other => "Error"

def message (failure : Failure) : String :=
  s!"{failure.kind.heading}: {failure.detail}"

end Failure

end Retrieval
