import Retrieval.Decimal.Digit

/-!
# JSON values

A value keeps what its text says: numbers as they are written, objects with their members in order
and perhaps with repeated names. What a number or a string amounts to is decided by whoever reads
it.
-/

namespace Retrieval

structure Numeral where
  negative : Bool
  /-- The digits before the point, of which there is at least one. -/
  whole : List Digit
  /-- The digits after the point; without any there is no point. -/
  fraction : List Digit
  exponent : Option Int
  deriving DecidableEq

/-- A piece of a string: a character, or a code unit that is half of one. -/
inductive Piece where
  | char (c : Char)
  | surrogate (unit : Nat)
  deriving DecidableEq

inductive Json where
  | null
  | bool (b : Bool)
  | number (n : Numeral)
  | string (pieces : List Piece)
  | array (items : List Json)
  | object (members : List (List Piece × Json))

namespace Piece

def ofText (text : String) : List Piece := text.toList.map .char

/-- The character that two halves make: the first half has the upper ten bits, the second one the
lower ten. -/
def join? (first second : Nat) : Option Char :=
  if 0xD800 ≤ first ∧ first < 0xDC00 ∧ 0xDC00 ≤ second ∧ second < 0xE000 then
    some (Char.ofNat (0x10000 + (first - 0xD800) * 0x400 + (second - 0xDC00)))
  else
    none

/-- The characters of some pieces, unless a half stands alone. -/
def chars? : List Piece → Option (List Char)
  | [] => some []
  | .char c :: rest => (chars? rest).map (c :: ·)
  | .surrogate first :: .surrogate second :: rest => do
    let c ← join? first second
    return c :: (← chars? rest)
  | .surrogate _ :: _ => none

/-- The text that some pieces make, unless a half stands alone. -/
def text? (pieces : List Piece) : Option String := (chars? pieces).map String.ofList

end Piece

namespace Numeral

def ofInt (n : Int) : Numeral where
  negative := decide (n < 0)
  whole := digits n.natAbs
  fraction := []
  exponent := none

end Numeral

namespace Json

def ofText (text : String) : Json := .string (Piece.ofText text)

def ofInt (n : Int) : Json := .number (.ofInt n)

def ofMembers (members : List (String × Json)) : Json :=
  .object (members.map fun (name, value) => (Piece.ofText name, value))

end Json

end Retrieval
