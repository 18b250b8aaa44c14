import Retrieval.Json.Value

/-!
# Reading JSON

The grammar is the strict one: no comments, no trailing commas, no leading zeros, no raw control
characters in strings. Every text that follows it is read, however large its numbers are and
whatever code units its strings escape.
-/

namespace Retrieval

namespace Json

def isBlank (c : Char) : Bool := c == ' ' || c == '\n' || c == '\t' || c == '\r'

def skipBlanks (cs : List Char) : List Char := cs.dropWhile isBlank

def hexDigit? (c : Char) : Option Nat :=
  if '0' ≤ c ∧ c ≤ '9' then some (c.toNat - '0'.toNat)
  else if 'a' ≤ c ∧ c ≤ 'f' then some (c.toNat - 'a'.toNat + 10)
  else if 'A' ≤ c ∧ c ≤ 'F' then some (c.toNat - 'A'.toNat + 10)
  else none

def takeDigits : List Char → List Digit × List Char
  | [] => ([], [])
  | c :: rest =>
    match Digit.ofChar? c with
    | some d => ((d :: (takeDigits rest).1), (takeDigits rest).2)
    | none => ([], c :: rest)

def someDigits (cs : List Char) : Option (List Digit × List Char) :=
  match takeDigits cs with
  | ([], _) => none
  | read => some read

/-- The digits before the point; a leading zero stands alone. -/
def whole : List Char → Option (List Digit × List Char)
  | '0' :: rest => some ([.zero], rest)
  | cs => someDigits cs

def fraction : List Char → Option (List Digit × List Char)
  | '.' :: rest => someDigits rest
  | cs => some ([], cs)

def signedDigits : List Char → Option (Int × List Char)
  | '-' :: rest => (someDigits rest).map fun (ds, rest) => (-(ofDigits ds : Int), rest)
  | '+' :: rest => (someDigits rest).map fun (ds, rest) => ((ofDigits ds : Int), rest)
  | cs => (someDigits cs).map fun (ds, rest) => ((ofDigits ds : Int), rest)

def exponent : List Char → Option (Option Int × List Char)
  | 'e' :: rest | 'E' :: rest => (signedDigits rest).map fun (e, rest) => (some e, rest)
  | cs => some (none, cs)

/-- A number without its sign. -/
def unsigned (negative : Bool) (cs : List Char) : Option (Numeral × List Char) := do
  let (whole, cs) ← whole cs
  let (fraction, cs) ← fraction cs
  let (exponent, cs) ← exponent cs
  return ({ negative, whole, fraction, exponent }, cs)

def numeral : List Char → Option (Numeral × List Char)
  | '-' :: rest => unsigned true rest
  | cs => unsigned false cs

/-- What a code unit is a piece of. -/
def pieceOfUnit (unit : Nat) : Piece :=
  if 0xD800 ≤ unit ∧ unit < 0xE000 then .surrogate unit else .char (Char.ofNat unit)

def escaped? : Char → Option Char
  | '"' => some '"'
  | '\\' => some '\\'
  | '/' => some '/'
  | 'b' => some '\x08'
  | 'f' => some '\x0c'
  | 'n' => some '\n'
  | 'r' => some '\r'
  | 't' => some '\t'
  | _ => none

/-- The rest of a string after its opening quote; `read` has the pieces before it, the last one in
front. -/
def pieces (read : List Piece) : List Char → Option (List Piece × List Char)
  | [] => none
  | '"' :: rest => some (read.reverse, rest)
  | '\\' :: 'u' :: a :: b :: c :: d :: rest =>
    match hexDigit? a, hexDigit? b, hexDigit? c, hexDigit? d with
    | some a, some b, some c, some d =>
      pieces (pieceOfUnit (((a * 16 + b) * 16 + c) * 16 + d) :: read) rest
    | _, _, _, _ => none
  | '\\' :: c :: rest =>
    match escaped? c with
    | some c => pieces (.char c :: read) rest
    | none => none
  | c :: rest => if c.toNat < 0x20 || c == '\\' then none else pieces (.char c :: read) rest

mutual

/-- A value, blanks before it being skipped. -/
def value : Nat → List Char → Option (Json × List Char)
  | 0, _ => none
  | bound + 1, cs =>
    match skipBlanks cs with
    | 'n' :: 'u' :: 'l' :: 'l' :: rest => some (.null, rest)
    | 't' :: 'r' :: 'u' :: 'e' :: rest => some (.bool true, rest)
    | 'f' :: 'a' :: 'l' :: 's' :: 'e' :: rest => some (.bool false, rest)
    | '"' :: rest => (pieces [] rest).map fun (pieces, rest) => (.string pieces, rest)
    | '[' :: rest =>
      match skipBlanks rest with
      | ']' :: rest => some (.array [], rest)
      | rest => (items bound rest).map fun (items, rest) => (.array items, rest)
    | '\x7b' :: rest =>
      match skipBlanks rest with
      | '\x7d' :: rest => some (.object [], rest)
      | rest => (members bound rest).map fun (members, rest) => (.object members, rest)
    | cs => (numeral cs).map fun (n, rest) => (.number n, rest)

/-- At least one value, with commas between them, and the closing bracket. -/
def items : Nat → List Char → Option (List Json × List Char)
  | 0, _ => none
  | bound + 1, cs => do
    let (item, cs) ← value bound cs
    match skipBlanks cs with
    | ',' :: rest => (items bound rest).map fun (others, rest) => (item :: others, rest)
    | ']' :: rest => some ([item], rest)
    | _ => none

/-- At least one named value, with commas between them, and the closing brace. -/
def members : Nat → List Char → Option (List (List Piece × Json) × List Char)
  | 0, _ => none
  | bound + 1, cs =>
    match skipBlanks cs with
    | '"' :: rest => do
      let (name, cs) ← pieces [] rest
      match skipBlanks cs with
      | ':' :: rest =>
        let (item, cs) ← value bound rest
        match skipBlanks cs with
        | ',' :: rest =>
          (members bound rest).map fun (others, rest) => ((name, item) :: others, rest)
        | '\x7d' :: rest => some ([(name, item)], rest)
        | _ => none
      | _ => none
    | _ => none

end

/-- The value that a text consists of, blanks around it aside. No value is nested more deeply than
its text is long, and no list has more parts than that. -/
def parse (text : String) : Option Json :=
  match value (2 * text.toList.length + 2) text.toList with
  | some (v, rest) => if (skipBlanks rest).isEmpty then some v else none
  | none => none

end Json

end Retrieval
