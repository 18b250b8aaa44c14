import Mathlib.Algebra.Order.Field.Power
import Mathlib.Data.List.Induction
import Mathlib.Data.Rat.Cast.Order
import Mathlib.Tactic.FieldSimp
import Mathlib.Tactic.Ring
import Retrieval.Json.Number
import Retrieval.Proofs.Numerals

/-!
# What digits amount to

A written number amounts to its digits, taken as one whole number, times a power of ten. As long as
that whole number fits into 64 bits, all digits count.
-/

namespace Retrieval

theorem ofDigits_append (ds fs : List Digit) :
    ofDigits (ds ++ fs) = ofDigits ds * 10 ^ fs.length + ofDigits fs := by
  induction fs using List.reverseRecOn with
  | nil => simp [ofDigits]
  | append_singleton fs d ih =>
      rw [← List.append_assoc, ofDigits_concat, ih, ofDigits_concat, List.length_append,
        List.length_singleton, Nat.pow_succ]
      ring

theorem ofDigits_cons (d : Digit) (ds : List Digit) :
    ofDigits (d :: ds) = d.val * 10 ^ ds.length + ofDigits ds := by
  rw [← List.singleton_append, ofDigits_append]
  simp [ofDigits]

theorem ofDigits_lt (ds : List Digit) : ofDigits ds < 10 ^ ds.length := by
  induction ds with
  | nil => exact Nat.one_pos
  | cons d ds ih =>
      have := Nat.mul_le_mul_right (10 ^ ds.length) (Nat.le_of_lt_succ d.isLt)
      rw [ofDigits_cons, List.length_cons, Nat.pow_succ]
      omega

theorem ofDigits_replicate_zero (n : ℕ) : ofDigits (List.replicate n .zero) = 0 := by
  induction n with
  | zero => rfl
  | succ n ih =>
      rw [List.replicate_succ, ofDigits_cons, ih]
      simp [Digit.zero, Digit.last]

/-- A number has no more digits than it needs. -/
theorem pow_length_digits_le {n : ℕ} (pos : 0 < n) : 10 ^ ((digits n).length - 1) ≤ n := by
  fun_induction digits n with
  | case1 n small => exact pos
  | case2 n large ih =>
      have some := List.length_pos_of_ne_nil (digits_ne_nil (n / 10))
      obtain ⟨k, length⟩ := Nat.exists_eq_succ_of_ne_zero some.ne'
      have := ih (by omega)
      rw [length, Nat.succ_sub_one] at this
      rw [List.length_append, List.length_singleton, length, Nat.add_sub_cancel, Nat.pow_succ]
      omega

namespace Numeral

def significand (n : Numeral) : ℕ := ofDigits (n.whole ++ n.fraction)

/-- The power of ten that it is multiplied by. -/
def places (n : Numeral) : ℤ := n.exponent.getD 0 - n.fraction.length

theorem readWhole_eq {ds : List Digit} (short : ofDigits ds < 2 ^ 64) :
    readWhole ds = (ofDigits ds, 0) := by
  induction ds using List.reverseRecOn with
  | nil => rfl
  | append_singleton ds d ih =>
      rw [ofDigits_concat] at short ⊢
      have before := ih (by omega)
      rw [readWhole] at before ⊢
      have fits : fits (ofDigits ds) d = true := decide_eq_true (by omega)
      rw [List.foldl_append, before, List.foldl_cons, List.foldl_nil]
      simp [fits]

theorem readFraction_eq {n : ℕ} {ds : List Digit}
    (short : n * 10 ^ ds.length + ofDigits ds < 2 ^ 64) :
    readFraction n ds = (n * 10 ^ ds.length + ofDigits ds, ds.length) := by
  induction ds generalizing n with
  | nil => simp [readFraction, ofDigits]
  | cons d ds ih =>
      have all : n * 10 ^ (d :: ds).length + ofDigits (d :: ds) =
          (10 * n + d.val) * 10 ^ ds.length + ofDigits ds := by
        rw [ofDigits_cons, List.length_cons, Nat.pow_succ]
        ring
      rw [all] at short ⊢
      have least := Nat.le_mul_of_pos_right (10 * n + d.val) (Nat.pow_pos (n := ds.length)
        (show 0 < 10 by decide))
      have fits : fits n d = true := decide_eq_true (by omega)
      rw [readFraction, if_pos fits, ih short, List.length_cons]

/-- If all digits fit, they are scaled by what is left of the exponent. -/
theorem float?_eq {n : Numeral} (short : n.significand < 2 ^ 64)
    (moderate : (n.exponent.getD 0).natAbs ≤ maxExponent) :
    n.float? = (scale (UInt64.ofNat n.significand).toFloat n.places).map n.signed := by
  rw [significand, ofDigits_append] at short
  have least := Nat.le_mul_of_pos_right (ofDigits n.whole) (Nat.pow_pos (n := n.fraction.length)
    (show 0 < 10 by decide))
  have front : readWhole n.whole = (ofDigits n.whole, 0) := readWhole_eq (by omega)
  have rest := readFraction_eq short
  have offset : n.exponent.getD 0 + (0 : ℕ) - n.fraction.length = n.places := by
    rw [places]
    omega
  rw [float?.eq_def, significand, ofDigits_append]
  simp only [front, rest, if_neg (Nat.not_lt.mpr moderate), offset]

/-- A number with a fraction or an exponent is read as a floating-point number. -/
theorem value?_eq {n : Numeral} (broken : n.fraction ≠ [] ∨ n.exponent ≠ none) :
    n.value? = n.float?.map .float := by
  have : ¬ (n.fraction.isEmpty && n.exponent.isNone && (readWhole n.whole).2 == 0) = true := by
    simp only [Bool.and_eq_true, List.isEmpty_iff, Option.isNone_iff_eq_none]
    rintro ⟨⟨whole, plain⟩, -⟩
    exact broken.elim (· whole) (· plain)
  rw [value?.eq_def]
  dsimp only
  rw [if_neg this]

/-- A number that writes a decimal: its digits make the coefficient, unless zeros are put behind
that to bring a decimal that is whole up to the point, and one more after it. -/
structure Writes (n : Numeral) (d : Decimal) : Prop where
  proper : Json.IsWhole n.whole
  broken : n.fraction ≠ [] ∨ n.exponent ≠ none
  moderate : (n.exponent.getD 0).natAbs ≤ maxExponent
  digits : n.significand = d.coefficient ∧ n.places = d.exponent ∨
    n.significand = d.coefficient * 10 ^ (d.exponent.toNat + 1) ∧ n.places = -1 ∧
      0 ≤ d.exponent ∧ n.significand < 10 ^ 14

variable {n : Numeral} {d : Decimal}

theorem Writes.value (writes : n.Writes d) :
    (n.significand : ℚ) * 10 ^ n.places = d.coefficient * 10 ^ d.exponent := by
  rcases writes.digits with ⟨significand, places⟩ | ⟨significand, places, whole, -⟩
  · rw [significand, places]
  · obtain ⟨k, exponent⟩ := Int.eq_ofNat_of_zero_le whole
    rw [significand, places, exponent, Int.toNat_natCast, zpow_natCast]
    push_cast
    rw [pow_succ, zpow_neg_one]
    field_simp

theorem Writes.pos (writes : n.Writes d) (pos : 0 < d.coefficient) : 0 < n.significand := by
  rcases writes.digits with ⟨significand, -⟩ | ⟨significand, -⟩
  · rwa [significand]
  · rw [significand]
    exact Nat.mul_pos pos (Nat.pow_pos (by decide))

theorem Writes.short (writes : n.Writes d) (short : d.coefficient < 2 ^ 53) :
    n.significand < 2 ^ 53 := by
  rcases writes.digits with ⟨significand, -⟩ | ⟨-, -, -, bound⟩
  · rwa [significand]
  · exact bound.trans (by decide)

theorem Writes.natAbs_places_le (writes : n.Writes d) :
    n.places.natAbs ≤ max 1 d.exponent.natAbs := by
  rcases writes.digits with ⟨-, places⟩ | ⟨-, places, -⟩
  · rw [places]
    exact Nat.le_max_right ..
  · rw [places]
    exact Nat.le_max_left ..

end Numeral

namespace Decimal

open Json

theorem isWhole_append {ds : List Digit} (some : ds ≠ []) (first : ds.head? ≠ Option.some .zero)
    (fs : List Digit) : IsWhole (ds ++ fs) :=
  ⟨List.append_ne_nil_of_left_ne_nil some fs, .inr (by rwa [List.head?_append_of_ne_nil _ some])⟩

theorem isWhole_take {ds : List Digit} (some : ds ≠ []) (first : ds.head? ≠ Option.some .zero)
    {n : ℕ} (pos : 0 < n) : IsWhole (ds.take n) := by
  obtain ⟨d, ds, rfl⟩ := List.exists_cons_of_ne_nil some
  obtain ⟨n, rfl⟩ := Nat.exists_eq_succ_of_ne_zero pos.ne'
  exact ⟨List.cons_ne_nil _ _, .inr first⟩

variable {d : Decimal} {negative : Bool}

/-- Zeros in front fill up the places after the point, and one more is put before the point if
nothing else is there. -/
theorem split_of_neg (pos : 0 < d.coefficient) (part : d.exponent < 0) :
    IsWhole d.split.1 ∧ d.split.2.length = d.exponent.natAbs ∧
      ofDigits (d.split.1 ++ d.split.2) = d.coefficient := by
  have some := digits_ne_nil d.coefficient
  have first := head?_digits pos
  have value := ofDigits_digits d.coefficient
  rw [split]
  dsimp only
  rw [if_neg (Int.not_le.mpr part)]
  generalize d.exponent.natAbs = places
  generalize digits d.coefficient = ds at *
  have length : (List.replicate (places + 1 - ds.length) Digit.zero ++ ds).length - places =
      max 1 (ds.length - places) := by
    rw [List.length_append, List.length_replicate]
    omega
  refine ⟨?_, ?_, ?_⟩
  · dsimp only
    rw [length]
    rcases Nat.lt_or_ge places ds.length with many | few
    · have padding : places + 1 - ds.length = 0 := by omega
      rw [padding, List.replicate_zero, List.nil_append]
      exact isWhole_take some first (by omega)
    · have front : max 1 (ds.length - places) = 1 := by omega
      rw [front, Nat.succ_sub few, List.replicate_succ]
      exact ⟨List.cons_ne_nil _ _, .inl rfl⟩
  · rw [List.length_drop, length, List.length_append, List.length_replicate]
    omega
  · rw [List.take_append_drop, ofDigits_append, ofDigits_replicate_zero, Nat.zero_mul, Nat.zero_add,
      value]

theorem split_of_nonneg (pos : 0 < d.coefficient) (whole : 0 ≤ d.exponent) :
    IsWhole d.split.1 ∧ d.split.2 = [] ∧
      ofDigits d.split.1 = d.coefficient * 10 ^ d.exponent.toNat := by
  rw [split]
  dsimp only
  rw [if_pos whole]
  refine ⟨isWhole_append (digits_ne_nil _) (head?_digits pos) _, rfl, ?_⟩
  rw [ofDigits_append, ofDigits_replicate_zero, ofDigits_digits, List.length_replicate,
    Nat.add_zero]

/-- Without an exponent, a decimal is written in full, with a point. -/
theorem writes_plain (pos : 0 < d.coefficient)
    (short : d.exponent + (digits d.coefficient).length - 1 ≤ 12) :
    Numeral.Writes ⟨negative, d.split.1,
      if d.split.2.isEmpty then [.zero] else d.split.2, none⟩ d := by
  by_cases whole : 0 ≤ d.exponent
  · obtain ⟨proper, nothing, value⟩ := split_of_nonneg pos whole
    rw [nothing, List.isEmpty_nil, if_pos rfl]
    have significand : ofDigits (d.split.1 ++ [.zero]) =
        d.coefficient * 10 ^ (d.exponent.toNat + 1) := by
      rw [ofDigits_concat, value, Nat.pow_succ]
      simp only [Digit.zero, Digit.last]
      ring
    refine ⟨proper, .inl (List.cons_ne_nil _ _), Nat.zero_le _,
      .inr ⟨significand, rfl, whole, ?_⟩⟩
    have bound := ofDigits_lt (digits d.coefficient)
    rw [ofDigits_digits] at bound
    rw [Numeral.significand, significand]
    calc d.coefficient * 10 ^ (d.exponent.toNat + 1)
      _ < 10 ^ (digits d.coefficient).length * 10 ^ (d.exponent.toNat + 1) :=
        Nat.mul_lt_mul_of_pos_right bound (Nat.pow_pos (by decide))
      _ = 10 ^ ((digits d.coefficient).length + (d.exponent.toNat + 1)) := (Nat.pow_add ..).symm
      _ ≤ 10 ^ 14 := Nat.pow_le_pow_right (by decide) (by omega)
  · obtain ⟨proper, length, value⟩ := split_of_neg pos (Int.not_le.mp whole)
    have some : d.split.2 ≠ [] := List.ne_nil_of_length_pos (by omega)
    rw [if_neg (by rwa [List.isEmpty_iff])]
    refine ⟨proper, .inl some, Nat.zero_le _, .inl ⟨value, ?_⟩⟩
    rw [Numeral.places]
    dsimp only
    rw [length, Option.getD_none]
    omega

/-- With an exponent, the point is put behind the first digit. -/
theorem writes_scientific (pos : 0 < d.coefficient)
    (moderate : (d.exponent + (digits d.coefficient).length - 1).natAbs ≤ Numeral.maxExponent) :
    Numeral.Writes ⟨negative, (digits d.coefficient).take 1, (digits d.coefficient).drop 1,
      some (d.exponent + (digits d.coefficient).length - 1)⟩ d := by
  have some := digits_ne_nil d.coefficient
  have length := List.length_pos_of_ne_nil some
  refine ⟨isWhole_take some (head?_digits pos) Nat.one_pos, .inr (Option.some_ne_none _), moderate,
    .inl ⟨?_, ?_⟩⟩
  · rw [Numeral.significand, List.take_append_drop, ofDigits_digits]
  · rw [Numeral.places]
    dsimp only
    rw [List.length_drop, Option.getD_some]
    omega

end Decimal

end Retrieval
