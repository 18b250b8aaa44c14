/-!
# Decimal digits

Numbers are written with digits, the most significant one first.
-/

namespace Retrieval

abbrev Digit := Fin 10

namespace Digit

def last (n : Nat) : Digit := ⟨n % 10, Nat.mod_lt n (by decide)⟩

def zero : Digit := last 0

def char (d : Digit) : Char := Char.ofNat ('0'.toNat + d.val)

def ofChar? (c : Char) : Option Digit :=
  if '0'.toNat ≤ c.toNat ∧ c.toNat ≤ '9'.toNat then some (last (c.toNat - '0'.toNat)) else none

end Digit

/-- The digits of a number, the most significant one first; zero has one digit. -/
def digits (n : Nat) : List Digit :=
  if n < 10 then [.last n] else digits (n / 10) ++ [.last n]
termination_by n

def ofDigits (ds : List Digit) : Nat := ds.foldl (fun n d => 10 * n + d.val) 0

/-- Every digit is read back as it is written. -/
theorem Digit.ofChar?_char (d : Digit) : ofChar? d.char = some d := by
  revert d
  decide

end Retrieval
