import Mathlib.Data.List.Basic
import Retrieval.Json.Grammar

/-!
# Numbers are read as they are written

A number without superfluous zeros in front is read from its text, digit by digit, whatever follows
it, as long as that could not be more of the number.
-/

namespace Retrieval

theorem digits_ne_nil (n : Nat) : digits n ≠ [] := by
  rw [digits]
  split <;> simp

theorem ofDigits_concat (ds : List Digit) (d : Digit) :
    ofDigits (ds ++ [d]) = 10 * ofDigits ds + d.val := by
  rw [ofDigits, List.foldl_append, ofDigits]
  rfl

/-- The digits of a number write it. -/
theorem ofDigits_digits (n : Nat) : ofDigits (digits n) = n := by
  fun_induction digits n with
  | case1 n small =>
      simp only [ofDigits, List.foldl_cons, List.foldl_nil, Digit.last]
      omega
  | case2 n large ih =>
      rw [ofDigits_concat, ih]
      simp only [Digit.last]
      omega

/-- Only zero is written with a zero in front. -/
theorem head?_digits {n : Nat} (pos : 0 < n) : (digits n).head? ≠ some .zero := by
  fun_induction digits n with
  | case1 n small =>
      simp only [List.head?_cons, ne_eq, Option.some.injEq, Digit.last, Digit.zero, Fin.mk.injEq]
      omega
  | case2 n large ih =>
      rw [List.head?_append_of_ne_nil _ (digits_ne_nil _)]
      exact ih (by omega)

namespace Json

/-- A text that does not go on with a digit. -/
def NoDigit (rest : List Char) : Prop := ∀ c ∈ rest.head?, Digit.ofChar? c = none

theorem takeDigits_append (ds : List Digit) {rest : List Char} (ends : NoDigit rest) :
    takeDigits (ds.map Digit.char ++ rest) = (ds, rest) := by
  induction ds with
  | nil =>
      cases rest with
      | nil => rfl
      | cons c rest =>
          have stop : Digit.ofChar? c = none := ends c rfl
          simp only [List.map_nil, List.nil_append, takeDigits, stop]
  | cons d ds ih =>
      simp only [List.map_cons, List.cons_append, takeDigits, Digit.ofChar?_char, ih]

theorem someDigits_append {ds : List Digit} (some : ds ≠ []) {rest : List Char}
    (ends : NoDigit rest) : someDigits (ds.map Digit.char ++ rest) = .some (ds, rest) := by
  rw [someDigits, takeDigits_append ds ends]
  cases ds with
  | nil => exact absurd rfl some
  | cons d ds => rfl

theorem char_eq_zero_iff {d : Digit} : d.char = '0' ↔ d = .zero := by
  revert d
  decide

theorem whole_append {ds : List Digit} (proper : IsWhole ds) {rest : List Char}
    (ends : NoDigit rest) : whole (ds.map Digit.char ++ rest) = some (ds, rest) := by
  obtain ⟨some, rfl | leading⟩ := proper
  · rfl
  rw [whole.eq_def]
  split
  case h_1 rest' text =>
    cases ds with
    | nil => exact absurd rfl some
    | cons d ds =>
        obtain ⟨first, -⟩ := List.cons.inj text
        exact absurd (congrArg Option.some (char_eq_zero_iff.mp first)) leading
  case h_2 => exact someDigits_append some ends

/-- A text that does not go on with more of a number. -/
def Ends (rest : List Char) : Prop :=
  ∀ c ∈ rest.head?, Digit.ofChar? c = none ∧ c ≠ '.' ∧ c ≠ 'e' ∧ c ≠ 'E'

theorem Ends.noDigit {rest : List Char} (ends : Ends rest) : NoDigit rest :=
  fun c first => (ends c first).1

/-- Blanks, and what begins a value that is no number or ends an array. -/
def noNumber : List Char := [' ', '\n', '\t', '\r', 'n', 't', 'f', '"', '[', ']', '\x7b']

theorem digit_ne (d : Digit) : ∀ c ∈ '-' :: '+' :: noNumber, d.char ≠ c := by
  have all : ∀ d : Digit, ('-' :: '+' :: noNumber).all (d.char ≠ ·) = true := by decide
  exact fun c listed => of_decide_eq_true (List.all_eq_true.mp (all d) c listed)

theorem signedDigits_append {sign : List Char} {ds : List Digit} {e : Int} (some : ds ≠ [])
    (value : (sign = [] ∨ sign = ['+']) ∧ e = ofDigits ds ∨ sign = ['-'] ∧ e = -ofDigits ds)
    {rest : List Char} (ends : Ends rest) :
    signedDigits (sign ++ (ds.map Digit.char ++ rest)) = .some (e, rest) := by
  have read := someDigits_append some ends.noDigit
  rcases value with ⟨rfl | rfl, rfl⟩ | ⟨rfl, rfl⟩
  · obtain ⟨d, ds, rfl⟩ := List.exists_cons_of_ne_nil some
    rw [List.nil_append, signedDigits.eq_def]
    split
    case h_1 text => exact absurd (List.cons.inj text).1 (digit_ne d '-' (by decide))
    case h_2 text => exact absurd (List.cons.inj text).1 (digit_ne d '+' (by decide))
    case h_3 => rw [read, Option.map_some]
  · simp only [List.cons_append, List.nil_append, signedDigits, read, Option.map_some]
  · simp only [List.cons_append, List.nil_append, signedDigits, read, Option.map_some]

theorem exponent_of_ends {rest : List Char} (ends : Ends rest) :
    exponent rest = some (none, rest) := by
  rw [exponent.eq_def]
  split
  · exact absurd rfl (ends 'e' rfl).2.2.1
  · exact absurd rfl (ends 'E' rfl).2.2.2
  · rfl

/-- The rest of a number after its digits before the point, and what follows it. -/
theorem exponent_append {e : Option Int} {cs rest : List Char} (text : ExponentText e cs)
    (ends : Ends rest) : exponent (cs ++ rest) = some (e, rest) := by
  cases text with
  | none => exact exponent_of_ends ends
  | some letter digits value =>
      have read := signedDigits_append digits value ends
      rcases letter with rfl | rfl <;>
        simp only [List.cons_append, List.append_assoc, exponent, read, Option.map_some]

theorem fraction_append (ds : List Digit) {rest : List Char}
    (ends : ∀ c ∈ rest.head?, Digit.ofChar? c = none ∧ c ≠ '.') :
    fraction ((if ds.isEmpty then [] else '.' :: ds.map Digit.char) ++ rest) = some (ds, rest) := by
  cases ds with
  | nil =>
      rw [List.isEmpty_nil, if_pos rfl, List.nil_append, fraction.eq_def]
      split
      · exact absurd rfl (ends '.' rfl).2
      · rfl
  | cons d ds => exact someDigits_append (List.cons_ne_nil d ds) fun c first => (ends c first).1

variable {n : Numeral} {cs rest : List Char}

/-- A number without its sign is read. -/
theorem unsigned_append {exponent : List Char} (proper : IsWhole n.whole)
    (written : ExponentText n.exponent exponent) (ends : Ends rest) :
    unsigned n.negative (n.whole.map Digit.char ++
      ((if n.fraction.isEmpty then [] else '.' :: n.fraction.map Digit.char) ++
        (exponent ++ rest))) = some (n, rest) := by
  have afterFraction : ∀ c ∈ (exponent ++ rest).head?, Digit.ofChar? c = none ∧ c ≠ '.' := by
    intro c first
    generalize n.exponent = e at written
    cases written with
    | none => exact ⟨(ends c first).1, (ends c first).2.1⟩
    | some letter =>
        obtain rfl : _ = c := by simpa using first
        rcases letter with rfl | rfl <;> decide
  have afterWhole : NoDigit ((if n.fraction.isEmpty then [] else
      '.' :: n.fraction.map Digit.char) ++ (exponent ++ rest)) := by
    intro c first
    cases fraction : n.fraction with
    | nil =>
        rw [fraction] at first
        exact (afterFraction c first).1
    | cons f fs =>
        rw [fraction] at first
        obtain rfl : '.' = c := by simpa using first
        decide
  simp only [unsigned, whole_append proper afterWhole, fraction_append n.fraction afterFraction,
    exponent_append written ends, Option.bind_eq_bind, Option.bind_some]
  rfl

theorem numeral_of_digits {ds : List Digit} (some : ds ≠ []) (rest : List Char) :
    numeral (ds.map Digit.char ++ rest) = unsigned false (ds.map Digit.char ++ rest) := by
  obtain ⟨d, ds, rfl⟩ := List.exists_cons_of_ne_nil some
  rw [numeral.eq_def]
  split
  case h_1 text => exact absurd (List.cons.inj text).1 (digit_ne d '-' (by decide))
  case h_2 => rfl

/-- A number is read from its text. -/
theorem numeral_append (text : NumberText n cs) (ends : Ends rest) :
    numeral (cs ++ rest) = some (n, rest) := by
  obtain ⟨proper, written⟩ := text
  have read := unsigned_append proper written ends
  simp only [List.append_assoc]
  cases negative : n.negative with
  | true =>
      rw [negative] at read
      rw [if_pos rfl, List.singleton_append, numeral, read]
  | false =>
      rw [negative] at read
      rw [if_neg Bool.false_ne_true, List.nil_append, numeral_of_digits proper.1, read]

theorem exponentText (e : Int) : ExponentText (some e) (Numeral.exponentText e) := by
  have text (sign : Char) (value : sign = '+' ∧ e = e.natAbs ∨ sign = '-' ∧ e = -e.natAbs) :
      ExponentText (some e) ('e' :: sign :: (digits e.natAbs).map Digit.char) := by
    have signed : ([sign] = [] ∨ [sign] = ['+']) ∧ e = ofDigits (digits e.natAbs) ∨
        [sign] = ['-'] ∧ e = -ofDigits (digits e.natAbs) := by
      rw [ofDigits_digits]
      exact value.imp (fun ⟨sign, value⟩ => ⟨.inr (sign ▸ rfl), value⟩)
        fun ⟨sign, value⟩ => ⟨sign ▸ rfl, value⟩
    exact .some (.inl rfl) (digits_ne_nil e.natAbs) signed
  rw [Numeral.exponentText]
  split
  · exact text '-' (.inr ⟨rfl, by omega⟩)
  · exact text '+' (.inl ⟨rfl, by omega⟩)

/-- What is written for a number is a text of it. -/
theorem numberText_chars (proper : IsWhole n.whole) : NumberText n n.chars := by
  have written : ExponentText n.exponent ((n.exponent.map Numeral.exponentText).getD []) := by
    cases n.exponent with
    | none => exact .none
    | some e => exact exponentText e
  simpa only [Numeral.chars, List.append_assoc] using NumberText.mk proper written

end Json

end Retrieval
