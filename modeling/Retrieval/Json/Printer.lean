import Retrieval.Decimal.Notation
import Retrieval.Json.Value

/-!
# Writing JSON

Values are written without blanks, or spread over lines and indented. Strings escape what they have
to and nothing else.
-/

namespace Retrieval

namespace Numeral

/-- The exponent with its sign, which is always written. -/
def exponentText (e : Int) : List Char :=
  'e' :: (if e < 0 then '-' else '+') :: (digits e.natAbs).map Digit.char

def chars (n : Numeral) : List Char :=
  (if n.negative then ['-'] else []) ++ n.whole.map Digit.char ++
    (if n.fraction.isEmpty then [] else '.' :: n.fraction.map Digit.char) ++
    (n.exponent.map exponentText).getD []

end Numeral

namespace Piece

def hexDigit (n : Nat) : Char := if n < 10 then Char.ofNat (48 + n) else Char.ofNat (87 + n)

/-- A code unit written by its number. -/
def unitChars (unit : Nat) : List Char :=
  ['\\', 'u', hexDigit (unit / 4096 % 16), hexDigit (unit / 256 % 16), hexDigit (unit / 16 % 16),
    hexDigit (unit % 16)]

/-- A character as it is written in a string. The quote, the backslash and the control characters
are escaped, by a letter if there is one. -/
def charChars (c : Char) : List Char :=
  if c = '"' then ['\\', '"']
  else if c = '\\' then ['\\', '\\']
  else if c = '\x08' then ['\\', 'b']
  else if c = '\t' then ['\\', 't']
  else if c = '\n' then ['\\', 'n']
  else if c = '\x0c' then ['\\', 'f']
  else if c = '\r' then ['\\', 'r']
  else if c.toNat < 0x20 then unitChars c.toNat
  else [c]

def written : Piece → List Char
  | .char c => charChars c
  | .surrogate unit => unitChars unit

def quoted (pieces : List Piece) : List Char := '"' :: pieces.flatMap written ++ ['"']

end Piece

namespace Json

/-- How the parts of a value are set apart. -/
structure Style where
  /-- What begins the line of a part at some depth. -/
  line : Nat → List Char
  /-- What follows the name of a member. -/
  afterName : List Char

def Style.compact : Style where
  line _ := []
  afterName := [':']

/-- A line for each part, indented by two blanks for each level. -/
def Style.spread : Style where
  line depth := '\n' :: List.replicate (2 * depth) ' '
  afterName := [':', ' ']

mutual

/-- The characters of a value that stands at some depth. -/
def chars (style : Style) (depth : Nat) : Json → List Char
  | .null => ['n', 'u', 'l', 'l']
  | .bool true => ['t', 'r', 'u', 'e']
  | .bool false => ['f', 'a', 'l', 's', 'e']
  | .number n => n.chars
  | .string pieces => Piece.quoted pieces
  | .array [] => ['[', ']']
  | .array (item :: rest) =>
    '[' :: style.line (depth + 1) ++ chars style (depth + 1) item ++
      itemChars style (depth + 1) rest ++ style.line depth ++ [']']
  | .object [] => ['\x7b', '\x7d']
  | .object ((name, item) :: rest) =>
    '\x7b' :: style.line (depth + 1) ++ Piece.quoted name ++ style.afterName ++
      chars style (depth + 1) item ++ memberChars style (depth + 1) rest ++ style.line depth ++
      ['\x7d']

def itemChars (style : Style) (depth : Nat) : List Json → List Char
  | [] => []
  | item :: rest =>
    ',' :: style.line depth ++ chars style depth item ++ itemChars style depth rest

def memberChars (style : Style) (depth : Nat) : List (List Piece × Json) → List Char
  | [] => []
  | (name, item) :: rest =>
    ',' :: style.line depth ++ Piece.quoted name ++ style.afterName ++ chars style depth item ++
      memberChars style depth rest

end

def compact (v : Json) : String := String.ofList (v.chars .compact 0)

def pretty (v : Json) : String := String.ofList (v.chars .spread 0)

end Json

end Retrieval
