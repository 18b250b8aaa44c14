import Retrieval.Proofs.Arithmetic
import Retrieval.Proofs.Ranking
import Retrieval.Proofs.Separation
import Retrieval.Proofs.ShortestDecimal

/-!
# Shortest decimals are read back

The shortest decimal of a number lies in its interval, but what is computed from the decimal is only
close to it. That is in the interval as well: unless the decimal is an end of the interval, it is
farther away from both ends than the computation errs, and if it is an end, there is no error.
-/

namespace Retrieval

open Rounding Separation Double

namespace Decimal.Magnitude

variable {v : Magnitude} {k : ℤ} {n : ℕ} {r w b : ℚ} {tie : Tie}

/-- The point `r` is so far away from the end `b` that what is close to it is on the same side. -/
def Clear (r b : ℚ) : Prop :=
  r * precision + b ≤ b * precision ∨ b * precision + b ≤ r * precision

theorem Clear.lt (clear : Clear r b) (pos : 0 < b) (close : Close w r) (lt : r < b) : w < b := by
  rw [Close, abs_le] at close
  norm_num [Clear, precision] at clear close
  rcases clear with below | above
  · linarith
  · linarith

theorem Clear.gt (clear : Clear r b) (pos : 0 < b) (close : Close w r) (gt : b < r) : b < w := by
  rw [Close, abs_le] at close
  norm_num [Clear, precision] at clear close
  rcases clear with below | above
  · linarith
  · linarith

/-- The end of an interval is a multiple of a power of two. -/
structure IsEnd (b : ℚ) (m : ℕ) (q : ℤ) : Prop where
  eq : b = m * 2 ^ q
  pos : 0 < m
  small : m < denominators

theorem IsEnd.lt (isEnd : IsEnd b n k) : b < 2 ^ 25 * 2 ^ k := by
  rw [isEnd.eq]
  exact mul_lt_mul_of_pos_right (by exact_mod_cast isEnd.small) (two_zpow_pos k)

variable {m : ℕ} {q : ℤ}

theorem IsEnd.positive (isEnd : IsEnd b m q) : 0 < b := by
  rw [isEnd.eq]
  exact mul_pos (Nat.cast_pos.mpr isEnd.pos) (two_zpow_pos q)

theorem IsEnd.clear_of_le (isEnd : IsEnd b m q) (far : 2 ^ q / 20 ≤ b - r ∨ 2 ^ q / 20 ≤ r - b) :
    Clear r b := by
  have top := isEnd.lt
  have unit := two_zpow_pos q
  norm_num [Clear, precision]
  rcases far with below | above
  · exact .inl (by linarith)
  · exact .inr (by linarith)

/-- On a coarse grid, fractions are clear of the end. -/
theorem IsEnd.clear_of_coarse (isEnd : IsEnd b m q) (low : -45 ≤ k) (high : k ≤ 38)
    (fine : 29 * (2 : ℚ) ^ q < 20 * 10 ^ k) (coarse : (10 : ℚ) ^ k ≤ 2 ^ 26 * 2 ^ q)
    (usual : IsClose q k → m ≠ closeDenominator) (n : ℕ) :
    n * 10 ^ k = b ∨ Clear (n * 10 ^ k) b := by
  obtain ⟨unit, positive, num, den⟩ := scale_numerator q k
  have isCoarse : IsCoarse (numerator q k) (denominator q k) := by
    constructor
    · rw [← Nat.cast_lt (α := ℚ)]
      push_cast
      rw [num, den, ← mul_assoc, ← mul_assoc]
      exact mul_lt_mul_of_pos_right fine positive
    · rw [← Nat.cast_le (α := ℚ)]
      push_cast
      rw [num, den, ← mul_assoc]
      exact mul_le_mul_of_nonneg_right coarse positive.le
  have apart := apart_powers low high isCoarse n isEnd.pos isEnd.small usual
  rw [Apart, ← Nat.cast_inj (R := ℚ), ← Nat.cast_le (α := ℚ), ← Nat.cast_le (α := ℚ)] at apart
  push_cast at apart
  rw [num, den, ← mul_assoc, ← mul_assoc, mul_right_comm _ unit, mul_right_comm _ unit,
    ← add_mul, ← add_mul, mul_le_mul_iff_left₀ positive, mul_le_mul_iff_left₀ positive,
    mul_left_inj' positive.ne', ← isEnd.eq] at apart
  exact apart

theorem two_zpow_sub_one (e : ℤ) : (2 : ℚ) ^ (e - 1) = 2 ^ e / 2 := by
  rw [zpow_sub_one₀ two_ne_zero, div_eq_mul_inv]

theorem two_zpow_sub_two (e : ℤ) : (2 : ℚ) ^ (e - 2) = 2 ^ e / 4 := by
  rw [zpow_sub₀ two_ne_zero]
  norm_num

theorem isEnd_upper (canonical : v.Canonical) :
    IsEnd v.upper (2 * v.mantissa + 1) (v.exponent - 1) := by
  have bound := canonical.bound
  refine ⟨?_, by omega, ?_⟩
  · rw [upper, quarter_zpow, high_eq, two_zpow_sub_one]
    push_cast
    ring
  · rw [denominators]
    omega

theorem upper_le (canonical : v.Canonical) : v.upper ≤ 2 ^ 24 * 2 ^ v.exponent := by
  have : ((v.mantissa + 1 : ℕ) : ℚ) ≤ (2 ^ 24 : ℕ) := Nat.cast_le.mpr canonical.bound
  push_cast at this
  rw [upper, quarter_zpow, high_eq]
  exact mul_le_mul_of_nonneg_right (by linarith) (two_zpow_pos _).le

/-- The lower end of the interval as a multiple of its distance. -/
structure IsLowerEnd (v : Magnitude) (m : ℕ) (q : ℤ) : Prop extends IsEnd v.lower m q where
  distance : v.value - v.lower = 2 ^ q
  nearer : 2 ^ q ≤ v.upper - v.value
  wide : 2 ^ v.exponent ≤ 4 * (2 : ℚ) ^ q
  shape : m = 2 * v.mantissa - 1 ∧ q = v.exponent - 1 ∨ m = 2 ^ 25 - 1

/-- Where numbers are twice as dense below, the distance is half as large. -/
theorem isLowerEnd_of_isNarrow (narrow : v.isNarrow = true) :
    v.IsLowerEnd (2 ^ 25 - 1) (v.exponent - 2) := by
  have unit := two_zpow_pos v.exponent
  have full : v.mantissa = 2 ^ 23 := by
    rw [isNarrow, Bool.and_eq_true, beq_iff_eq] at narrow
    exact narrow.1
  have least : v.low = 2 ^ 25 - 1 := by
    rw [low, if_pos narrow, full]
    rfl
  refine ⟨⟨by rw [lower, least], by decide, by decide⟩, ?_, ?_, ?_, .inr rfl⟩
  · rw [value, lower, two_zpow_sub_two, least, full]
    norm_num
    ring
  · rw [upper_sub_value, two_zpow_sub_two]
    linarith
  · rw [two_zpow_sub_two]
    linarith

theorem isLowerEnd_of_not_isNarrow (canonical : v.Canonical) (usual : ¬ v.isNarrow = true) :
    v.IsLowerEnd (2 * v.mantissa - 1) (v.exponent - 1) := by
  have pos := canonical.pos
  have bound := canonical.bound
  have unit := two_zpow_pos v.exponent
  have least : v.low = 2 * (2 * v.mantissa - 1) := by
    rw [low, if_neg usual]
    omega
  have cast : ((2 * v.mantissa - 1 : ℕ) : ℚ) = 2 * v.mantissa - 1 := by
    rw [Nat.cast_sub (by omega)]
    push_cast
    ring
  refine ⟨⟨?_, by omega, ?_⟩, ?_, ?_, ?_, .inl ⟨rfl, rfl⟩⟩
  · rw [lower, two_zpow_sub_two, two_zpow_sub_one, least]
    push_cast
    ring
  · rw [denominators]
    omega
  · rw [value, lower, two_zpow_sub_two, two_zpow_sub_one, least]
    push_cast
    rw [cast]
    ring
  · rw [upper_sub_value, two_zpow_sub_one]
  · rw [two_zpow_sub_one]
    linarith

theorem exists_isLowerEnd (canonical : v.Canonical) : ∃ m q, v.IsLowerEnd m q := by
  by_cases narrow : v.isNarrow = true
  · exact ⟨_, _, isLowerEnd_of_isNarrow narrow⟩
  · exact ⟨_, _, isLowerEnd_of_not_isNarrow canonical narrow⟩

/-- The numbers next to the fractions that come too near to an end. -/
def IsHard (v : Magnitude) : Prop :=
  (v.mantissa = 11420669 ∨ v.mantissa = 11420670) ∧ (v.exponent = -107 ∨ v.exponent = -106)

/-- A grid that has a point in the interval is not too coarse. -/
theorem step_le (canonical : v.Canonical) (found : v.onGrid tie k = some n) (pos : 0 < n) :
    (10 : ℚ) ^ k ≤ 2 ^ 24 * 2 ^ v.exponent := by
  have one : (1 : ℚ) ≤ n := by exact_mod_cast pos
  calc (10 : ℚ) ^ k ≤ n * 10 ^ k := le_mul_of_one_le_left (zpow_pos (by norm_num) k).le one
    _ ≤ v.upper := (onGrid_eq_some found).1.high
    _ ≤ _ := upper_le canonical

/-- The decimal is the upper end or clear of it. -/
theorem clear_upper (canonical : v.Canonical) (usual : ¬ v.IsHard) (low : -45 ≤ k) (high : k ≤ 38)
    (found : v.onGrid tie k = some n) (pos : 0 < n) :
    n * 10 ^ k = v.upper ∨ Clear (n * 10 ^ k) v.upper := by
  have isEnd := isEnd_upper canonical
  obtain ⟨near, -⟩ := onGrid_near canonical.pos found
  have unit := two_zpow_pos v.exponent
  have half := two_zpow_sub_one v.exponent
  by_cases fine : 20 * (10 : ℚ) ^ k ≤ 29 * 2 ^ (v.exponent - 1)
  · refine .inr (isEnd.clear_of_le (.inl ?_))
    have distance := v.upper_sub_value
    have other := le_value_sub_lower canonical.pos
    rw [half] at fine ⊢
    rcases near with near | near
    · linarith
    · linarith
  · refine isEnd.clear_of_coarse low high (not_le.mp fine) ?_ ?_ n
    · have := step_le canonical found pos
      rw [half]
      linarith
    · rintro ⟨rfl, exponent⟩ same
      rw [closeDenominator] at same
      exact usual ⟨by omega, by omega⟩

/-- The decimal is the lower end or clear of it. -/
theorem clear_lower (canonical : v.Canonical) (usual : ¬ v.IsHard) (low : -45 ≤ k) (high : k ≤ 38)
    (found : v.onGrid tie k = some n) (pos : 0 < n) :
    n * 10 ^ k = v.lower ∨ Clear (n * 10 ^ k) v.lower := by
  obtain ⟨m, q, isEnd, distance, nearer, wide, shape⟩ := exists_isLowerEnd canonical
  obtain ⟨-, near⟩ := onGrid_near canonical.pos found
  have unit := two_zpow_pos q
  by_cases fine : 20 * (10 : ℚ) ^ k ≤ 29 * 2 ^ q
  · refine .inr (isEnd.clear_of_le (.inr ?_))
    rcases near with near | near
    · linarith
    · linarith
  · refine isEnd.clear_of_coarse low high (not_le.mp fine) ?_ ?_ n
    · have := step_le canonical found pos
      linarith
    · rintro ⟨rfl, exponent⟩ same
      rw [closeDenominator] at same
      exact usual ⟨by omega, by omega⟩

/-- If the decimal is an end of the interval, its power of ten is not large. -/
theorem IsEnd.natAbs_le (isEnd : IsEnd b m q) (same : n * 10 ^ k = b) (pos : 0 < n)
    (small : n < 2 ^ 28) : k.natAbs ≤ 12 := by
  obtain ⟨unit, positive, num, den⟩ := scale_numerator q k
  refine natAbs_le_of_eq (q := q) (n := n) (m := m) ?_ pos isEnd.pos small ?_
  · rw [← Nat.cast_inj (R := ℚ)]
    push_cast
    rw [num, den, ← mul_assoc, ← mul_assoc, same, isEnd.eq]
  · have := isEnd.small
    rw [denominators] at this
    omega

/-- What is close to the shortest decimal lies in the interval as well, if it is exact where the
decimal is an end of the interval. -/
theorem Inside.of_close (canonical : v.Canonical) (usual : ¬ v.IsHard) (low : -45 ≤ k)
    (high : k ≤ 38) (found : v.onGrid tie k = some n) (pos : 0 < n) (close : Close w (n * 10 ^ k))
    (exact : n * 10 ^ k = v.lower ∨ n * 10 ^ k = v.upper → w = n * 10 ^ k) : v.Inside w := by
  have inside := (onGrid_eq_some found).1
  by_cases ends : n * 10 ^ k = v.lower ∨ n * 10 ^ k = v.upper
  · rwa [exact ends]
  obtain ⟨notLower, notUpper⟩ := not_or.mp ends
  have bottom : v.lower < w := by
    obtain ⟨m, q, isEnd⟩ := exists_isLowerEnd canonical
    have clear := (clear_lower canonical usual low high found pos).resolve_left notLower
    exact clear.gt isEnd.positive close (lt_of_le_of_ne inside.low (Ne.symm notLower))
  have top : w < v.upper := by
    have clear := (clear_upper canonical usual low high found pos).resolve_left notUpper
    exact clear.lt (isEnd_upper canonical).positive close (lt_of_le_of_ne inside.high notUpper)
  exact ⟨bottom.le, top.le, fun _ => ⟨bottom.ne, top.ne⟩⟩

end Decimal.Magnitude

end Retrieval
