/-!
# Counting matched clauses

While a document is scored, the clauses that match it are counted. A call on a cursor does not reach
into the counts that live outside it: it hands back marks, which say how much to add to which count.
Counts are 64-bit words and wrap around.
-/

namespace Retrieval

/-- Where a mark is to be counted. -/
inductive Tally where
  /-- The count of the boolean search that the marking cursor is part of. -/
  | enclosing
  /-- A count known by its name, shared by every cursor that names it. -/
  | named (name : String)
  deriving DecidableEq

/-- What a call adds to the counts around the cursor. -/
structure Marks where
  enclosing : UInt64
  named : List (String × UInt64)
  deriving DecidableEq

namespace Marks

def zero : Marks := ⟨0, []⟩

instance : Inhabited Marks := ⟨zero⟩

def of (tally : Tally) (n : UInt64) : Marks :=
  match tally with
  | .enclosing => ⟨n, []⟩
  | .named name => ⟨0, [(name, n)]⟩

protected def append (first second : Marks) : Marks :=
  ⟨first.enclosing + second.enclosing, first.named ++ second.named⟩

instance : Append Marks := ⟨Marks.append⟩

/-- The marks that concern counts outside the boolean search they were made in. -/
def outward (marks : Marks) : Marks := ⟨0, marks.named⟩

theorem append_def (first second : Marks) :
    first ++ second = ⟨first.enclosing + second.enclosing, first.named ++ second.named⟩ := rfl

@[simp] theorem zero_append (marks : Marks) : zero ++ marks = marks := by
  simp [append_def, zero]

@[simp] theorem append_zero (marks : Marks) : marks ++ zero = marks := by
  simp [append_def, zero]

theorem append_assoc (a b c : Marks) : a ++ b ++ c = a ++ (b ++ c) := by
  simp [append_def, UInt64.add_assoc]

end Marks

/-- The named counts of a whole search; a name that was never used counts zero. -/
structure Tallies where
  entries : List (String × UInt64)

namespace Tallies

def empty : Tallies := ⟨[]⟩

instance : Inhabited Tallies := ⟨empty⟩

def get (tallies : Tallies) (name : String) : UInt64 :=
  (tallies.entries.lookup name).getD 0

def set (tallies : Tallies) (name : String) (n : UInt64) : Tallies :=
  ⟨(name, n) :: tallies.entries.filter (·.1 != name)⟩

def add (tallies : Tallies) (name : String) (n : UInt64) : Tallies :=
  tallies.set name (tallies.get name + n)

/-- Count the marks that a call handed back. -/
def count (tallies : Tallies) (marks : Marks) : Tallies :=
  marks.named.foldl (fun tallies (name, n) => tallies.add name n) tallies

end Tallies

end Retrieval
