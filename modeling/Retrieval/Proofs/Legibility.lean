import Mathlib.Data.List.DropRight
import Retrieval.Proofs.Numerals

/-!
# Every text of a value is read

Whichever text of a value is given to the reader, it makes the value out of it. What can follow a
value in a text is never part of it, so the reader stops where the value does, some blanks aside;
and each value takes up more of the text than the reader needs steps for it.
-/

namespace Retrieval.Json

variable {blanks cs rest : List Char} {c : Char} {v : Json}

theorem hexDigit?_of_hexDigit {n : Nat} (digit : HexDigit c n) : hexDigit? c = some n := by
  have all : ∀ n : Fin 16, hexDigit? hexDigits[n] = some n.val ∧
      hexDigit? hexDigits[n].toUpper = some n.val := by
    decide
  obtain ⟨d, listed, same⟩ := digit
  obtain ⟨small, rfl⟩ := List.getElem?_eq_some_iff.mp listed
  obtain rfl | rfl := same
  · exact (all ⟨n, small⟩).1
  · exact (all ⟨n, small⟩).2

/-- A number of four digits that is the number of a character makes this character. -/
theorem pieceOfUnit_toNat (c : Char) : pieceOfUnit c.toNat = .char c := by
  have whole : ¬ (0xD800 ≤ c.toNat ∧ c.toNat < 0xE000) := by
    have valid : c.toNat < 0xD800 ∨ 0xDFFF < c.toNat ∧ c.toNat < 0x110000 := c.valid
    omega
  rw [pieceOfUnit, if_neg whole, Char.ofNat_toNat]

/-- A character is read from each of its texts. -/
theorem pieces_append (text : CharText c cs) (read : List Piece) (rest : List Char) :
    pieces read (cs ++ rest) = pieces (.char c :: read) rest := by
  cases text with
  | plain visible quote backslash =>
      rw [List.cons_append, List.nil_append, pieces.eq_def]
      split
      case h_5 text =>
        obtain ⟨rfl, rfl⟩ := List.cons.inj text
        rw [if_neg (by simpa [backslash] using visible)]
      all_goals simp_all
  | letter listed =>
      simp only [letters, List.mem_cons, Prod.mk.injEq, List.not_mem_nil, or_false] at listed
      rcases listed with ⟨rfl, rfl⟩ | ⟨rfl, rfl⟩ | ⟨rfl, rfl⟩ | ⟨rfl, rfl⟩ | ⟨rfl, rfl⟩ |
        ⟨rfl, rfl⟩ | ⟨rfl, rfl⟩ | ⟨rfl, rfl⟩ <;> rfl
  | number digit₁ digit₂ digit₃ digit₄ value =>
      simp only [List.cons_append, List.nil_append, pieces, hexDigit?_of_hexDigit digit₁,
        hexDigit?_of_hexDigit digit₂, hexDigit?_of_hexDigit digit₃, hexDigit?_of_hexDigit digit₄,
        ← value, pieceOfUnit_toNat]

/-- A string is read from what stands between its quotes. -/
theorem pieces_parts {parts : List (Char × List Char)} (each : ∀ p ∈ parts, CharText p.1 p.2)
    (read : List Piece) (rest : List Char) :
    pieces read (parts.flatMap (·.2) ++ '"' :: rest) =
      some (read.reverse ++ (parts.map (·.1)).map .char, rest) := by
  induction parts generalizing read with
  | nil => simp [pieces]
  | cons p parts ih =>
      obtain ⟨first, others⟩ := List.forall_mem_cons.mp each
      rw [List.flatMap_cons, List.append_assoc, pieces_append first, ih others]
      simp

theorem Blank.isBlank (blank : Blank blanks) : ∀ c ∈ blanks, Json.isBlank c = true := by
  intro c inside
  rcases blank c inside with rfl | rfl | rfl | rfl <;> rfl

theorem skipBlanks_append (blank : Blank blanks) (cs : List Char) :
    skipBlanks (blanks ++ cs) = skipBlanks cs :=
  List.dropWhile_append_of_pos blank.isBlank

theorem skipBlanks_cons (visible : isBlank c = false) (cs : List Char) :
    skipBlanks (c :: cs) = c :: cs := by
  rw [skipBlanks, List.dropWhile_cons, visible]
  rfl

theorem skipBlanks_skipBlanks (cs : List Char) : skipBlanks (skipBlanks cs) = skipBlanks cs :=
  List.dropWhile_idempotent isBlank cs

theorem value_skipBlanks (bound : Nat) (cs : List Char) :
    value bound (skipBlanks cs) = value bound cs := by
  cases bound with
  | zero => simp only [value]
  | succ bound => simp only [value, skipBlanks_skipBlanks]

theorem items_skipBlanks (bound : Nat) (cs : List Char) :
    items bound (skipBlanks cs) = items bound cs := by
  cases bound with
  | zero => simp only [items]
  | succ bound => simp only [items, value_skipBlanks]

theorem members_skipBlanks (bound : Nat) (cs : List Char) :
    members bound (skipBlanks cs) = members bound cs := by
  cases bound with
  | zero => simp only [members]
  | succ bound => simp only [members, skipBlanks_skipBlanks]

/-- What does not begin with the end of an array are its items. -/
theorem value_array (bound : Nat) {tail : List Char} (opens : skipBlanks cs = c :: tail)
    (other : c ≠ ']') :
    value (bound + 1) ('[' :: cs) = (items bound cs).map fun r => (.array r.1, r.2) := by
  simp only [value, skipBlanks_cons (c := '[') (by decide), opens]
  split
  case h_1 same => exact absurd (List.cons.inj same).1 other
  case h_2 => rw [← opens, items_skipBlanks]

theorem value_object (bound : Nat) {tail : List Char} (opens : skipBlanks cs = '"' :: tail) :
    value (bound + 1) ('\x7b' :: cs) = (members bound cs).map fun r => (.object r.1, r.2) := by
  simp only [value, skipBlanks_cons (c := '\x7b') (by decide), opens]
  split
  case h_1 same => exact absurd (List.cons.inj same).1 (by decide)
  case h_2 => rw [← opens, members_skipBlanks]

/-- A string is read from its text. -/
theorem Quoted.read {s : String} (quoted : Quoted s cs) (rest : List Char) :
    ∃ tail after, skipBlanks (cs ++ rest) = '"' :: tail ∧
      pieces [] tail = some (Piece.ofText s, after) ∧ skipBlanks after = skipBlanks rest := by
  cases quoted with
  | @mk before after parts blankBefore blankAfter same each =>
      have read := pieces_parts each [] (after ++ rest)
      rw [same] at read
      refine ⟨_, _, ?_, read, skipBlanks_append blankAfter rest⟩
      simp only [List.append_assoc, List.cons_append, skipBlanks_append blankBefore,
        skipBlanks_cons (c := '"') (by decide)]

theorem Ends.cons (ends : Digit.ofChar? c = none ∧ c ≠ '.' ∧ c ≠ 'e' ∧ c ≠ 'E')
    (rest : List Char) : Ends (c :: rest) := by
  rintro c ⟨⟩
  exact ends

theorem Ends.of_blank (blank : Blank blanks) (ends : Ends rest) : Ends (blanks ++ rest) := by
  cases blanks with
  | nil => exact ends
  | cons c blanks =>
      rintro c ⟨⟩
      rcases blank c List.mem_cons_self with rfl | rfl | rfl | rfl <;> decide

/-- A number begins with a digit or a minus sign. -/
theorem NumberText.begins {n : Numeral} (text : NumberText n cs) :
    ∃ c tail, cs = c :: tail ∧ (c = '-' ∨ ∃ d : Digit, c = d.char) := by
  obtain ⟨proper, -⟩ := text
  obtain ⟨d, ds, whole⟩ := List.exists_cons_of_ne_nil proper.1
  rw [whole]
  cases n.negative with
  | true => exact ⟨'-', _, rfl, .inl rfl⟩
  | false => exact ⟨d.char, _, rfl, .inr ⟨d, rfl⟩⟩

theorem ne_of_begins (first : c = '-' ∨ ∃ d : Digit, c = d.char) : ∀ c' ∈ noNumber, c ≠ c' := by
  rcases first with rfl | ⟨d, rfl⟩
  · simp [noNumber]
  · exact (List.forall_mem_cons.mp (List.forall_mem_cons.mp (digit_ne d)).2).2

theorem isBlank_of_ne (others : ∀ c' ∈ noNumber, c ≠ c') : isBlank c = false := by
  simp only [noNumber, List.forall_mem_cons] at others
  simp [isBlank, others]

/-- The first character of a number tells that it is one. -/
theorem value_numeral (bound : Nat) (first : c = '-' ∨ ∃ d : Digit, c = d.char)
    (cs : List Char) :
    value (bound + 1) (c :: cs) = (numeral (c :: cs)).map fun (n, rest) => (.number n, rest) := by
  have others := ne_of_begins first
  rw [value, skipBlanks_cons (isBlank_of_ne others)]
  simp only [noNumber, List.forall_mem_cons] at others
  split <;> simp_all

/-- A value does not begin with what ends an array. -/
theorem begins_of_denotes (text : Denotes cs v) :
    ∃ c, (∀ rest, ∃ tail, skipBlanks (cs ++ rest) = c :: tail) ∧ c ≠ ']' := by
  have visible {c : Char} {cs : List Char} (visible : isBlank c = false) (other : c ≠ ']') :
      ∃ c', (∀ rest, ∃ tail, skipBlanks (c :: cs ++ rest) = c' :: tail) ∧ c' ≠ ']' :=
    ⟨c, fun rest => ⟨_, skipBlanks_cons visible _⟩, other⟩
  induction text with
  | null => exact visible (by decide) (by decide)
  | true => exact visible (by decide) (by decide)
  | false => exact visible (by decide) (by decide)
  | number text =>
      obtain ⟨c, tail, rfl, first⟩ := text.begins
      have others := ne_of_begins first
      exact visible (isBlank_of_ne others) (others ']' (by decide))
  | string quoted =>
      refine ⟨'"', fun rest => ?_, by decide⟩
      obtain ⟨tail, -, opens, -⟩ := quoted.read rest
      exact ⟨tail, opens⟩
  | noItems => exact visible (by decide) (by decide)
  | array => exact visible (by decide) (by decide)
  | noMembers => exact visible (by decide) (by decide)
  | object => exact visible (by decide) (by decide)
  | blanks blankBefore _ _ ih =>
      obtain ⟨c, opens, other⟩ := ih
      refine ⟨c, fun rest => ?_, other⟩
      simp only [List.append_assoc, skipBlanks_append blankBefore]
      exact opens _

/-- A value is read from a text, whatever follows, in as many steps as the text makes sure of. -/
def Legible (cs : List Char) (v : Json) : Prop :=
  ∀ (bound : Nat) (rest : List Char), 2 * cs.length ≤ bound → Ends rest →
    ∃ after, value bound (cs ++ rest) = some (v, after) ∧ skipBlanks after = skipBlanks rest

/-- An item is read up to the comma or the bracket that follows it. -/
theorem items_item (legible : Legible cs v) {bound : Nat} (enough : 2 * cs.length ≤ bound)
    {follow rest : List Char} (ends : Ends follow) :
    (skipBlanks follow = ',' :: rest →
      items (bound + 1) (cs ++ follow) = (items bound rest).map fun r => (v :: r.1, r.2)) ∧
    (skipBlanks follow = ']' :: rest → items (bound + 1) (cs ++ follow) = some ([v], rest)) := by
  obtain ⟨after, read, same⟩ := legible bound follow enough ends
  rw [← same]
  constructor <;> intro next <;>
    simp only [items, read, Option.bind_eq_bind, Option.bind_some, next]

/-- A member is read up to the comma or the brace that follows it. -/
theorem members_member {m : Member} (name : Quoted m.name m.nameText)
    (legible : Legible m.valueText m.value) {bound : Nat} (enough : 2 * m.valueText.length ≤ bound)
    {follow rest : List Char} (ends : Ends follow) :
    (skipBlanks follow = ',' :: rest →
      members (bound + 1) (m.nameText ++ ':' :: (m.valueText ++ follow)) =
        (members bound rest).map fun r => ((Piece.ofText m.name, m.value) :: r.1, r.2)) ∧
    (skipBlanks follow = '\x7d' :: rest →
      members (bound + 1) (m.nameText ++ ':' :: (m.valueText ++ follow)) =
        some ([(Piece.ofText m.name, m.value)], rest)) := by
  obtain ⟨tail, afterName, opens, readName, colon⟩ := name.read (':' :: (m.valueText ++ follow))
  obtain ⟨after, read, same⟩ := legible bound follow enough ends
  rw [skipBlanks_cons (by decide)] at colon
  rw [← same]
  constructor <;> intro next <;>
    simp only [members, opens, readName, colon, read, Option.bind_eq_bind, Option.bind_some, next]

/-- The items of an array are read up to its end. -/
theorem items_texts {first : List Char × Json} {others : List (List Char × Json)}
    (blank : Blank blanks) (legible : ∀ i ∈ first :: others, Legible i.1 i.2) {bound : Nat}
    (enough : 2 * (first.1.length + (others.flatMap (fun i => ',' :: i.1)).length) < bound)
    (rest : List Char) :
    items bound (first.1 ++ (others.flatMap (fun i => ',' :: i.1) ++ (blanks ++ ']' :: rest))) =
      some ((first :: others).map (·.2), rest) := by
  have ends : Ends (blanks ++ ']' :: rest) := .of_blank blank (.cons (by decide) rest)
  induction others generalizing first bound with
  | nil =>
      obtain ⟨bound, rfl⟩ := Nat.exists_eq_succ_of_ne_zero (Nat.ne_zero_of_lt enough)
      have closes : skipBlanks (blanks ++ ']' :: rest) = ']' :: rest := by
        rw [skipBlanks_append blank, skipBlanks_cons (by decide)]
      exact (items_item (legible first List.mem_cons_self) (by omega) ends).2 closes
  | cons next others ih =>
      obtain ⟨bound, rfl⟩ := Nat.exists_eq_succ_of_ne_zero (Nat.ne_zero_of_lt enough)
      obtain ⟨legibleFirst, legibleOthers⟩ := List.forall_mem_cons.mp legible
      simp only [List.flatMap_cons, List.cons_append, List.append_assoc, List.length_cons,
        List.length_append] at enough ⊢
      have read := @ih next legibleOthers bound (by omega)
      rw [(items_item legibleFirst (by omega) (.cons (by decide) _)).1
        (skipBlanks_cons (by decide) _), read]
      rfl

/-- The members of an object are read up to its end. -/
theorem members_texts {first : Member} {others : List Member} (blank : Blank blanks)
    (names : ∀ m ∈ first :: others, Quoted m.name m.nameText)
    (legible : ∀ m ∈ first :: others, Legible m.valueText m.value) {bound : Nat}
    (enough : 2 * (first.valueText.length +
      (others.flatMap (fun m => ',' :: (m.nameText ++ ':' :: m.valueText))).length) < bound)
    (rest : List Char) :
    members bound (first.nameText ++ ':' :: (first.valueText ++
      (others.flatMap (fun m => ',' :: (m.nameText ++ ':' :: m.valueText)) ++
        (blanks ++ '\x7d' :: rest)))) =
      some ((first :: others).map (fun m => (Piece.ofText m.name, m.value)), rest) := by
  have ends : Ends (blanks ++ '\x7d' :: rest) := .of_blank blank (.cons (by decide) rest)
  induction others generalizing first bound with
  | nil =>
      obtain ⟨bound, rfl⟩ := Nat.exists_eq_succ_of_ne_zero (Nat.ne_zero_of_lt enough)
      have closes : skipBlanks (blanks ++ '\x7d' :: rest) = '\x7d' :: rest := by
        rw [skipBlanks_append blank, skipBlanks_cons (by decide)]
      exact (members_member (names first List.mem_cons_self) (legible first List.mem_cons_self)
        (by omega) ends).2 closes
  | cons next others ih =>
      obtain ⟨bound, rfl⟩ := Nat.exists_eq_succ_of_ne_zero (Nat.ne_zero_of_lt enough)
      obtain ⟨nameFirst, nameOthers⟩ := List.forall_mem_cons.mp names
      obtain ⟨legibleFirst, legibleOthers⟩ := List.forall_mem_cons.mp legible
      simp only [List.flatMap_cons, List.cons_append, List.append_assoc, List.length_cons,
        List.length_append] at enough ⊢
      have read := @ih next nameOthers legibleOthers bound (by omega)
      rw [(members_member nameFirst legibleFirst (by omega) (.cons (by decide) _)).1
        (skipBlanks_cons (by decide) _), read]
      rfl

/-- There is a step at least, as no value has an empty text. -/
theorem legible_of_step (text : Denotes cs v)
    (step : ∀ (bound : Nat) (rest : List Char), 2 * cs.length ≤ bound + 1 → Ends rest →
      ∃ after, value (bound + 1) (cs ++ rest) = some (v, after) ∧
        skipBlanks after = skipBlanks rest) : Legible cs v := by
  rintro (_ | bound) rest enough ends
  · obtain ⟨c, opens, -⟩ := begins_of_denotes text
    obtain ⟨tail, opens⟩ := opens []
    rw [List.length_eq_zero_iff.mp (by omega : cs.length = 0)] at opens
    nomatch opens
  · exact step bound rest enough ends

/-- Every value is read from its texts. -/
theorem legible_of_denotes (text : Denotes cs v) : Legible cs v := by
  induction text with
  | null =>
      refine legible_of_step .null fun bound rest enough ends => ⟨rest, ?_, rfl⟩
      simp [value, skipBlanks_cons (c := 'n') (by decide)]
  | true =>
      refine legible_of_step .true fun bound rest enough ends => ⟨rest, ?_, rfl⟩
      simp [value, skipBlanks_cons (c := 't') (by decide)]
  | false =>
      refine legible_of_step .false fun bound rest enough ends => ⟨rest, ?_, rfl⟩
      simp [value, skipBlanks_cons (c := 'f') (by decide)]
  | number text =>
      refine legible_of_step (.number text) fun bound rest enough ends => ⟨rest, ?_, rfl⟩
      have read := numeral_append text ends
      obtain ⟨c, tail, rfl, first⟩ := text.begins
      rw [List.cons_append] at read ⊢
      rw [value_numeral bound first, read, Option.map_some]
  | string quoted =>
      refine legible_of_step (.string quoted) fun bound rest enough ends => ?_
      obtain ⟨tail, after, opens, read, same⟩ := quoted.read rest
      refine ⟨after, ?_, same⟩
      simp only [value, opens, read, Option.map_some]
      rfl
  | noItems blank =>
      refine legible_of_step (.noItems blank) fun bound rest enough ends => ⟨rest, ?_, rfl⟩
      simp [value, skipBlanks_cons (c := '[') (by decide), skipBlanks_append blank,
        skipBlanks_cons (c := ']') (by decide)]
  | array blank each ih =>
      refine legible_of_step (.array blank each) fun bound rest enough ends => ⟨rest, ?_, rfl⟩
      obtain ⟨c, opens, other⟩ := begins_of_denotes (each _ List.mem_cons_self)
      obtain ⟨tail, opens⟩ := opens _
      simp only [List.length_cons, List.length_append] at enough
      simp only [List.cons_append, List.append_assoc, List.nil_append]
      rw [value_array bound opens other, items_texts blank ih (by omega), Option.map_some]
  | noMembers blank =>
      refine legible_of_step (.noMembers blank) fun bound rest enough ends => ⟨rest, ?_, rfl⟩
      simp [value, skipBlanks_cons (c := '\x7b') (by decide), skipBlanks_append blank,
        skipBlanks_cons (c := '\x7d') (by decide)]
  | object blank names each ih =>
      refine legible_of_step (.object blank names each) fun bound rest enough ends =>
        ⟨rest, ?_, rfl⟩
      obtain ⟨tail, -, opens, -⟩ := (names _ List.mem_cons_self).read _
      simp only [List.length_cons, List.length_append] at enough
      simp only [List.cons_append, List.append_assoc, List.nil_append]
      rw [value_object bound opens, members_texts blank names ih (by omega), Option.map_some]
      simp [ofMembers]
  | @blanks before after cs v blankBefore blankAfter text ih =>
      intro bound rest enough ends
      simp only [List.length_append] at enough
      obtain ⟨after', read, same⟩ := ih bound (after ++ rest) (by omega) (.of_blank blankAfter ends)
      refine ⟨after', ?_, same.trans (skipBlanks_append blankAfter rest)⟩
      rw [List.append_assoc, List.append_assoc, ← value_skipBlanks, skipBlanks_append blankBefore,
        value_skipBlanks, read]

/-- A value is read from each of its texts. -/
theorem parse_of_denotes {text : String} (denotes : Denotes text.toList v) :
    parse text = some v := by
  obtain ⟨after, read, same⟩ :=
    legible_of_denotes denotes (2 * text.toList.length + 2) [] (by omega) (by simp [Ends])
  rw [List.append_nil] at read
  rw [parse, read]
  dsimp only
  rw [same]
  rfl

end Retrieval.Json
