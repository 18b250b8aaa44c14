import Retrieval.Json.Library

/-!
# Texts of JSON values

The texts that stand for a value, and those among them that are spread over lines. In these terms it
is said what is known about a library that reads and writes JSON. Strings are texts here: half a
character does not occur in them.
-/

namespace Retrieval.Json

/-- The digits before the point: there is at least one, and a leading zero stands alone. -/
def IsWhole (ds : List Digit) : Prop := ds ≠ [] ∧ (ds = [.zero] ∨ ds.head? ≠ some .zero)

/-- The text of an exponent, if there is one. A plus need not be written. -/
inductive ExponentText : Option Int → List Char → Prop
  | none : ExponentText none []
  | some {mark : Char} {sign : List Char} {ds : List Digit} {e : Int}
      (letter : mark = 'e' ∨ mark = 'E') (digits : ds ≠ [])
      (value : (sign = [] ∨ sign = ['+']) ∧ e = ofDigits ds ∨ sign = ['-'] ∧ e = -ofDigits ds) :
      ExponentText (some e) (mark :: (sign ++ ds.map Digit.char))

inductive NumberText (n : Numeral) : List Char → Prop
  | mk {exponent : List Char} (proper : IsWhole n.whole)
      (written : ExponentText n.exponent exponent) :
      NumberText n ((if n.negative then ['-'] else []) ++ (n.whole.map Digit.char ++
        ((if n.fraction.isEmpty then [] else '.' :: n.fraction.map Digit.char) ++ exponent)))

/-- The letters that make a character with a backslash in front. -/
def letters : List (Char × Char) :=
  [('"', '"'), ('\\', '\\'), ('/', '/'), ('b', '\x08'), ('f', '\x0c'), ('n', '\n'), ('r', '\r'),
    ('t', '\t')]

def hexDigits : List Char :=
  ['0', '1', '2', '3', '4', '5', '6', '7', '8', '9', 'a', 'b', 'c', 'd', 'e', 'f']

/-- A hexadecimal digit, in lower or upper case. -/
def HexDigit (c : Char) (n : Nat) : Prop := ∃ d, hexDigits[n]? = some d ∧ (c = d ∨ c = d.toUpper)

/-- The text of a character in a string: itself, or a letter or a number after a backslash. -/
inductive CharText : Char → List Char → Prop
  | plain {c : Char} (visible : 0x20 ≤ c.toNat) (quote : c ≠ '"') (backslash : c ≠ '\\') :
      CharText c [c]
  | letter {l c : Char} (listed : (l, c) ∈ letters) : CharText c ['\\', l]
  | number {c c₁ c₂ c₃ c₄ : Char} {n₁ n₂ n₃ n₄ : Nat} (digit₁ : HexDigit c₁ n₁)
      (digit₂ : HexDigit c₂ n₂) (digit₃ : HexDigit c₃ n₃) (digit₄ : HexDigit c₄ n₄)
      (value : c.toNat = ((n₁ * 16 + n₂) * 16 + n₃) * 16 + n₄) :
      CharText c ['\\', 'u', c₁, c₂, c₃, c₄]

def Blank (cs : List Char) : Prop := ∀ c ∈ cs, c = ' ' ∨ c = '\n' ∨ c = '\t' ∨ c = '\r'

/-- The text of a string between its quotes, with blanks around them or without. -/
inductive Quoted (s : String) : List Char → Prop
  | mk {before after : List Char} {parts : List (Char × List Char)} (blankBefore : Blank before)
      (blankAfter : Blank after) (same : parts.map (·.1) = s.toList)
      (each : ∀ p ∈ parts, CharText p.1 p.2) :
      Quoted s (before ++ '"' :: (parts.flatMap (·.2) ++ '"' :: after))

/-- A member of an object with the texts of its name and its value. -/
structure Member where
  name : String
  nameText : List Char
  value : Json
  valueText : List Char

/-- The text of a value, with blanks around its parts or without. -/
inductive Denotes : List Char → Json → Prop
  | null : Denotes ['n', 'u', 'l', 'l'] .null
  | true : Denotes ['t', 'r', 'u', 'e'] (.bool true)
  | false : Denotes ['f', 'a', 'l', 's', 'e'] (.bool false)
  | number {n : Numeral} {cs : List Char} (text : NumberText n cs) : Denotes cs (.number n)
  | string {s : String} {cs : List Char} (quoted : Quoted s cs) : Denotes cs (.ofText s)
  | noItems {blanks : List Char} (blank : Blank blanks) :
      Denotes ('[' :: (blanks ++ [']'])) (.array [])
  | array {first : List Char × Json} {rest : List (List Char × Json)} {blanks : List Char}
      (blank : Blank blanks) (each : ∀ i ∈ first :: rest, Denotes i.1 i.2) :
      Denotes ('[' :: (first.1 ++ (rest.flatMap (fun i => ',' :: i.1) ++ (blanks ++ [']']))))
        (.array ((first :: rest).map (·.2)))
  | noMembers {blanks : List Char} (blank : Blank blanks) :
      Denotes ('\x7b' :: (blanks ++ ['\x7d'])) (.object [])
  | object {first : Member} {rest : List Member} {blanks : List Char} (blank : Blank blanks)
      (names : ∀ m ∈ first :: rest, Quoted m.name m.nameText)
      (each : ∀ m ∈ first :: rest, Denotes m.valueText m.value) :
      Denotes ('\x7b' :: (first.nameText ++ ':' :: (first.valueText ++
          (rest.flatMap (fun m => ',' :: (m.nameText ++ ':' :: m.valueText)) ++
            (blanks ++ ['\x7d'])))))
        (.ofMembers ((first :: rest).map fun m => (m.name, m.value)))
  | blanks {before after cs : List Char} {v : Json} (blankBefore : Blank before)
      (blankAfter : Blank after) (text : Denotes cs v) : Denotes (before ++ (cs ++ after)) v

/-- What begins the line of a part at some depth. -/
def lineStart (depth : Nat) : List Char := '\n' :: List.replicate (2 * depth) ' '

/-- The text of a value at some depth, with a line for each of its parts. -/
inductive Spread : Nat → List Char → Json → Prop
  | null {depth : Nat} : Spread depth ['n', 'u', 'l', 'l'] .null
  | true {depth : Nat} : Spread depth ['t', 'r', 'u', 'e'] (.bool true)
  | false {depth : Nat} : Spread depth ['f', 'a', 'l', 's', 'e'] (.bool false)
  | number {depth : Nat} {n : Numeral} {cs : List Char} (text : NumberText n cs) :
      Spread depth cs (.number n)
  | string {depth : Nat} {s : String} {cs : List Char} (quoted : Quoted s cs) :
      Spread depth cs (.ofText s)
  | noItems {depth : Nat} : Spread depth ['[', ']'] (.array [])
  | array {depth : Nat} {first : List Char × Json} {rest : List (List Char × Json)}
      (each : ∀ i ∈ first :: rest, Spread (depth + 1) i.1 i.2) :
      Spread depth ('[' :: (lineStart (depth + 1) ++ (first.1 ++
          (rest.flatMap (fun i => ',' :: (lineStart (depth + 1) ++ i.1)) ++
            (lineStart depth ++ [']'])))))
        (.array ((first :: rest).map (·.2)))
  | noMembers {depth : Nat} : Spread depth ['\x7b', '\x7d'] (.object [])
  | object {depth : Nat} {first : Member} {rest : List Member}
      (names : ∀ m ∈ first :: rest, Quoted m.name m.nameText)
      (each : ∀ m ∈ first :: rest, Spread (depth + 1) m.valueText m.value) :
      Spread depth ('\x7b' :: (lineStart (depth + 1) ++ (first.nameText ++ ':' :: ' ' ::
          (first.valueText ++ (rest.flatMap (fun m =>
            ',' :: (lineStart (depth + 1) ++ (m.nameText ++ ':' :: ' ' :: m.valueText))) ++
            (lineStart depth ++ ['\x7d']))))))
        (.ofMembers ((first :: rest).map fun m => (m.name, m.value)))

/-- A value that can be written: its strings are texts, and no number has a superfluous zero in
front. -/
inductive Proper : Json → Prop
  | null : Proper .null
  | bool (b : Bool) : Proper (.bool b)
  | number {n : Numeral} (whole : IsWhole n.whole) : Proper (.number n)
  | string (s : String) : Proper (.ofText s)
  | array {items : List Json} (each : ∀ v ∈ items, Proper v) : Proper (.array items)
  | object {members : List (String × Json)} (each : ∀ m ∈ members, Proper m.2) :
      Proper (.ofMembers members)

/-- A value in which objects and arrays are nested no deeper than this. -/
inductive Shallow : Nat → Json → Prop
  | null {depth : Nat} : Shallow depth .null
  | bool {depth : Nat} (b : Bool) : Shallow depth (.bool b)
  | number {depth : Nat} (n : Numeral) : Shallow depth (.number n)
  | string {depth : Nat} (s : String) : Shallow depth (.ofText s)
  | array {depth : Nat} {items : List Json} (each : ∀ v ∈ items, Shallow depth v) :
      Shallow (depth + 1) (.array items)
  | object {depth : Nat} {members : List (String × Json)}
      (each : ∀ m ∈ members, Shallow depth m.2) : Shallow (depth + 1) (.ofMembers members)

/-- What is known about a library. -/
structure Library.Documented (json : Library) : Prop where
  /-- A value is written with a line for each of its parts. -/
  layout {v : Json} (proper : v.Proper) : Spread 0 (json.pretty v).toList v
  /-- Every text of a value is read, if the value is not nested too deeply. -/
  grammar {text : String} {v : Json} (denotes : Denotes text.toList v)
    (shallow : v.Shallow json.maxDepth) : json.parse text = some v
  /-- It takes 128 levels to be nested too deeply. -/
  limit : 127 ≤ json.maxDepth
  /-- A finite score is written as a number that is read as the score again. -/
  float {x : Score} (finite : x.IsFinite) : ∃ n : Numeral, IsWhole n.whole ∧
    json.ofScore x = .number n ∧ json.score? (.number n) = some x
  /-- The fields of a record are the members of their names, if no name is there twice. -/
  fields {names : List String} {members : List (String × Json)}
    (distinct : (members.map (·.1)).Nodup) (known : ∀ m ∈ members, m.1 ∈ names) :
    json.fields? names (.ofMembers members) = some (names.map (members.lookup ·))

end Retrieval.Json
