import Retrieval.Coordination.Marks
import Retrieval.Failure

/-!
# What a call leaves behind

A call that fails has still changed something: the cursors below may have moved before the failure
was met. So an outcome always carries the state after the call, whatever was answered, and the marks
that were made on the way.
-/

namespace Retrieval

/-- The answer of a call, the state it leaves, and the clauses it counted. -/
structure Outcome (σ α : Type) where
  answer : Except Failure α
  state : σ
  marks : Marks

namespace Outcome

variable {σ τ α β : Type}

def done (state : σ) (a : α) : Outcome σ α := ⟨.ok a, state, .zero⟩

def fail (state : σ) (failure : Failure) : Outcome σ α := ⟨.error failure, state, .zero⟩

/-- The call answers what has been computed before, or fails if that did. -/
def ofExcept (state : σ) (answer : Except Failure α) : Outcome σ α := ⟨answer, state, .zero⟩

/-- See the state of a part as the state of the whole. -/
def within (whole : σ → τ) (o : Outcome σ α) : Outcome τ α := ⟨o.answer, whole o.state, o.marks⟩

/-- Count something besides. -/
def marking (marks : Marks) (o : Outcome σ α) : Outcome σ α :=
  ⟨o.answer, o.state, marks ++ o.marks⟩

/-- Go on after a call on a part. If the part failed, the whole fails too and `kept` tells what is
left of it; otherwise `next` goes on with the answer and the part as it now is. -/
def bind (o : Outcome σ α) (kept : σ → τ) (next : α → σ → Outcome τ β) : Outcome τ β :=
  match o.answer with
  | .ok a => (next a o.state).marking o.marks
  | .error failure => ⟨.error failure, kept o.state, o.marks⟩

def andThen (o : Outcome σ α) (next : α → σ → Outcome σ β) : Outcome σ β :=
  o.bind id next

/-- Answer something else that is computed from the answer. -/
def map (f : α → β) (o : Outcome σ α) : Outcome σ β := ⟨o.answer.map f, o.state, o.marks⟩

@[simp] theorem marking_zero (o : Outcome σ α) : o.marking .zero = o := by
  simp [marking]

@[simp] theorem within_done (whole : σ → τ) (state : σ) (a : α) :
    (done state a).within whole = done (whole state) a := rfl

@[simp] theorem within_fail (whole : σ → τ) (state : σ) (failure : Failure) :
    (fail state failure : Outcome σ α).within whole = fail (whole state) failure := rfl

@[simp] theorem bind_done (state : σ) (a : α) (kept : σ → τ) (next : α → σ → Outcome τ β) :
    (done state a).bind kept next = next a state := by
  simp [bind, done]

@[simp] theorem bind_fail (state : σ) (failure : Failure) (kept : σ → τ)
    (next : α → σ → Outcome τ β) :
    (fail state failure : Outcome σ α).bind kept next = fail (kept state) failure := rfl

/-- What comes after a failure does not happen. -/
theorem bind_of_error {o : Outcome σ α} {failure : Failure} (failed : o.answer = .error failure)
    (kept : σ → τ) (next : α → σ → Outcome τ β) :
    o.bind kept next = ⟨.error failure, kept o.state, o.marks⟩ := by
  simp [bind, failed]

/-- What comes after an answer goes on from it. -/
theorem bind_of_ok {o : Outcome σ α} {a : α} (answered : o.answer = .ok a) (kept : σ → τ)
    (next : α → σ → Outcome τ β) :
    o.bind kept next = (next a o.state).marking o.marks := by
  simp [bind, answered]

end Outcome

end Retrieval
