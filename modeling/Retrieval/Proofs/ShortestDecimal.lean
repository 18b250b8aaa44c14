import Retrieval.Decimal.Shortest
import Retrieval.Proofs.Rounding

/-!
# The shortest decimal lies in the interval

The shortest decimal is found in the interval of the numbers that are rounded to the one that is
written: the finest grid has a point there. It is the point of its grid that is nearest to the
number, unless that point is outside, and it is not larger than the grid needs it to be.
-/

namespace Retrieval

open Rounding

namespace Decimal.Magnitude

variable {v : Magnitude} {k : ℤ} {n : ℕ} {r : ℚ}

def value (v : Magnitude) : ℚ := v.mantissa * 2 ^ v.exponent

def lower (v : Magnitude) : ℚ := v.low * 2 ^ (v.exponent - 2)

def upper (v : Magnitude) : ℚ := v.high * 2 ^ (v.exponent - 2)

/-- The numbers that are rounded to `v`. The ends of the interval are if the mantissa is even. -/
structure Inside (v : Magnitude) (r : ℚ) : Prop where
  low : v.lower ≤ r
  high : r ≤ v.upper
  ends : v.mantissa % 2 ≠ 0 → v.lower ≠ r ∧ r ≠ v.upper

theorem step_pos (v : Magnitude) (k : ℤ) : 0 < v.step k :=
  Nat.mul_pos (Nat.pow_pos (by decide)) (Nat.pow_pos (by decide))

/-- Quarters of the last place and steps of a grid are compared as natural numbers. -/
theorem scale_quarter (v : Magnitude) (k : ℤ) :
    ∃ unit : ℚ, 0 < unit ∧ (v.quarter k : ℚ) = 2 ^ (v.exponent - 2) * unit ∧
      (v.step k : ℚ) = 10 ^ k * unit := by
  refine ⟨2 ^ (-(v.exponent - 2)).toNat * 10 ^ (-k).toNat, by positivity, ?_, ?_⟩
  · rw [← mul_assoc, zpow_mul_pow_toNat two_pos, quarter, Nat.pow_eq, Nat.pow_eq]
    push_cast
    rfl
  · rw [mul_left_comm, zpow_mul_pow_toNat (by norm_num), step, Nat.pow_eq, Nat.pow_eq, neg_sub]
    push_cast
    rfl

theorem quarters_le_iff {a : ℕ} :
    a * v.quarter k ≤ n * v.step k ↔ (a * 2 ^ (v.exponent - 2) : ℚ) ≤ n * 10 ^ k := by
  obtain ⟨unit, pos, quarter, step⟩ := v.scale_quarter k
  rw [← Nat.cast_le (α := ℚ), Nat.cast_mul, Nat.cast_mul, quarter, step, ← mul_assoc, ← mul_assoc,
    mul_le_mul_iff_left₀ pos]

theorem le_quarters_iff {a : ℕ} :
    n * v.step k ≤ a * v.quarter k ↔ (n * 10 ^ k : ℚ) ≤ a * 2 ^ (v.exponent - 2) := by
  obtain ⟨unit, pos, quarter, step⟩ := v.scale_quarter k
  rw [← Nat.cast_le (α := ℚ), Nat.cast_mul, Nat.cast_mul, quarter, step, ← mul_assoc, ← mul_assoc,
    mul_le_mul_iff_left₀ pos]

/-- What is tried on a grid is what lies in the interval. -/
theorem covers_iff : v.covers k n = true ↔ v.Inside (n * 10 ^ k) := by
  rw [covers]
  split
  case isTrue even =>
    rw [decide_eq_true_iff, quarters_le_iff, le_quarters_iff]
    exact ⟨fun ⟨low, high⟩ => ⟨low, high, fun odd => absurd even odd⟩,
      fun inside => ⟨inside.low, inside.high⟩⟩
  case isFalse odd =>
    rw [decide_eq_true_iff, ← Nat.not_le, ← Nat.not_le, le_quarters_iff, quarters_le_iff, not_le,
      not_le]
    refine ⟨fun ⟨low, high⟩ => ⟨low.le, high.le, fun _ => ⟨low.ne, high.ne⟩⟩, fun inside => ?_⟩
    obtain ⟨low, high⟩ := inside.ends odd
    exact ⟨lt_of_le_of_ne inside.low low, lt_of_le_of_ne inside.high high⟩

theorem quarter_zpow (a : ℚ) (e : ℤ) : a * 2 ^ (e - 2) = a / 4 * 2 ^ e := by
  rw [zpow_sub₀ two_ne_zero]
  ring

theorem le_low (v : Magnitude) : (v.mantissa : ℚ) - 1 / 2 ≤ v.low / 4 := by
  have : 4 * v.mantissa ≤ v.low + 2 := by
    rw [low]
    split <;> omega
  have : ((4 * v.mantissa : ℕ) : ℚ) ≤ (v.low + 2 : ℕ) := Nat.cast_le.mpr this
  push_cast at this
  linarith

theorem le_low_of_isNarrow (narrow : v.isNarrow = true) :
    (v.mantissa : ℚ) - 1 / 4 ≤ v.low / 4 := by
  have : 4 * v.mantissa ≤ v.low + 1 := by
    rw [low, if_pos narrow]
    omega
  have : ((4 * v.mantissa : ℕ) : ℚ) ≤ (v.low + 1 : ℕ) := Nat.cast_le.mpr this
  push_cast at this
  linarith

theorem high_eq (v : Magnitude) : (v.high : ℚ) / 4 = v.mantissa + 1 / 2 := by
  rw [high]
  push_cast
  ring

/-- A positive number as it is stored. -/
structure Canonical (v : Magnitude) : Prop where
  pos : 0 < v.mantissa
  bound : v.mantissa < 2 ^ 24
  least : -149 ≤ v.exponent
  most : v.exponent ≤ 104
  full : 2 ^ 23 ≤ v.mantissa ∨ v.exponent = -149

/-- What lies in the interval is rounded to the number. -/
theorem Inside.rounds (inside : v.Inside r) (canonical : v.Canonical) :
    Rounds .binary32 r v.mantissa v.exponent := by
  obtain ⟨low, high, ends⟩ := inside
  have unit := two_zpow_pos v.exponent
  rw [lower, quarter_zpow, ← le_div_iff₀ unit] at low
  rw [upper, quarter_zpow, high_eq, ← div_le_iff₀ unit] at high
  have least := v.le_low
  refine ⟨⟨canonical.bound, canonical.least, canonical.full⟩, ⟨?_, fun half => ?_⟩,
    fun first above => ?_⟩
  · exact abs_le.mpr ⟨by linarith, by linarith⟩
  · by_contra odd
    obtain ⟨notLow, notHigh⟩ := ends odd
    rcases abs_eq (by norm_num) |>.mp half with top | bottom
    · refine notHigh ?_
      rw [upper, quarter_zpow, high_eq, ← div_eq_iff unit.ne']
      linarith
    · refine notLow ?_
      rw [lower, quarter_zpow, ← eq_div_iff unit.ne']
      linarith
  · have narrow : v.isNarrow = true := by
      rw [isNarrow, Bool.and_eq_true, beq_iff_eq, decide_eq_true_iff]
      exact ⟨first, above⟩
    linarith [le_low_of_isNarrow narrow]

/-- The last point of a grid that does not lie above the number. -/
def below (v : Magnitude) (k : ℤ) : ℕ := v.centre * v.quarter k / v.step k

theorem centre_eq (v : Magnitude) : (v.centre * 2 ^ (v.exponent - 2) : ℚ) = v.value := by
  rw [quarter_zpow, centre, value]
  push_cast
  ring

theorem below_le (v : Magnitude) (k : ℤ) : (v.below k * 10 ^ k : ℚ) ≤ v.value := by
  rw [← centre_eq, ← le_quarters_iff]
  exact Nat.div_mul_le_self ..

theorem lt_above (v : Magnitude) (k : ℤ) : v.value < ((v.below k + 1 : ℕ) * 10 ^ k : ℚ) := by
  rw [← centre_eq, ← not_le, ← le_quarters_iff, Nat.not_le]
  exact Nat.lt_mul_of_div_lt (Nat.lt_succ_self _) (v.step_pos k)

theorem lower_lt (v : Magnitude) (pos : 0 < v.mantissa) : v.lower < v.value := by
  rw [lower, ← centre_eq]
  refine mul_lt_mul_of_pos_right (Nat.cast_lt.mpr ?_) (two_zpow_pos _)
  rw [low, centre]
  split <;> omega

theorem lt_upper (v : Magnitude) : v.value < v.upper := by
  rw [upper, ← centre_eq]
  refine mul_lt_mul_of_pos_right (Nat.cast_lt.mpr ?_) (two_zpow_pos _)
  rw [high, centre]
  omega

/-- Below the number, only the lower end of the interval can keep a point out. -/
theorem le_lower_of_not_inside (low : r ≤ v.value) (outside : ¬ v.Inside r) : r ≤ v.lower := by
  by_contra above
  exact outside ⟨(not_le.mp above).le, low.trans v.lt_upper.le,
    fun _ => ⟨(not_le.mp above).ne, (low.trans_lt v.lt_upper).ne⟩⟩

theorem upper_le_of_not_inside (pos : 0 < v.mantissa) (high : v.value ≤ r)
    (outside : ¬ v.Inside r) : v.upper ≤ r := by
  by_contra below
  exact outside ⟨(v.lower_lt pos).le.trans high, (not_le.mp below).le,
    fun _ => ⟨((v.lower_lt pos).trans_le high).ne, (not_le.mp below).ne⟩⟩

/-- The point halfway between two points of a grid is compared with the number. -/
theorem two_mul_value_le_iff (v : Magnitude) (k : ℤ) (n : ℕ) :
    2 * v.value ≤ n * 10 ^ k ↔ 2 * (v.centre * v.quarter k) ≤ n * v.step k := by
  rw [← centre_eq, ← mul_assoc, ← mul_assoc, quarters_le_iff]
  push_cast
  rfl

theorem le_two_mul_value_iff (v : Magnitude) (k : ℤ) (n : ℕ) :
    n * 10 ^ k ≤ 2 * v.value ↔ n * v.step k ≤ 2 * (v.centre * v.quarter k) := by
  rw [← centre_eq, ← mul_assoc, ← mul_assoc, le_quarters_iff]
  push_cast
  rfl

/-- The point that is taken lies in the interval and is one of the two next to the number; if it is
not the nearer one, the nearer one is outside. -/
theorem onGrid_eq_some {tie : Tie} (found : v.onGrid tie k = some n) :
    v.Inside (n * 10 ^ k) ∧
      (n = v.below k ∧ (v.Inside ((v.below k + 1 : ℕ) * 10 ^ k) →
        2 * v.value ≤ (v.below k + (v.below k + 1) : ℕ) * 10 ^ k) ∨
      n = v.below k + 1 ∧ (v.Inside (v.below k * 10 ^ k) →
        (v.below k + (v.below k + 1) : ℕ) * 10 ^ k ≤ 2 * v.value)) := by
  rw [← covers_iff, ← covers_iff, ← covers_iff, two_mul_value_le_iff, le_two_mul_value_iff]
  rw [onGrid.eq_def] at found
  dsimp only at found
  split at found
  case h_1 => nomatch found
  case h_2 first second =>
    obtain rfl := Option.some.inj found
    exact ⟨first, .inl ⟨rfl, fun inside => nomatch second.symm.trans inside⟩⟩
  case h_3 first second =>
    obtain rfl := Option.some.inj found
    exact ⟨second, .inr ⟨rfl, fun inside => nomatch first.symm.trans inside⟩⟩
  case h_4 first second =>
    split at found
    case h_1 nearer =>
      obtain rfl := Option.some.inj found
      exact ⟨first, .inl ⟨rfl, fun _ => (Nat.compare_eq_lt.mp nearer).le⟩⟩
    case h_2 nearer =>
      obtain rfl := Option.some.inj found
      exact ⟨second, .inr ⟨rfl, fun _ => (Nat.compare_eq_gt.mp nearer).le⟩⟩
    case h_3 same =>
      obtain rfl := Option.some.inj found
      exact ⟨second, .inr ⟨rfl, fun _ => (Nat.compare_eq_eq.mp same).ge⟩⟩
    case h_4 same =>
      have same := Nat.compare_eq_eq.mp same
      split at found
      · obtain rfl := Option.some.inj found
        exact ⟨first, .inl ⟨rfl, fun _ => same.le⟩⟩
      · obtain rfl := Option.some.inj found
        exact ⟨second, .inr ⟨rfl, fun _ => same.ge⟩⟩

theorem onGrid_eq_none {tie : Tie} (none : v.onGrid tie k = none) :
    ¬ v.Inside (v.below k * 10 ^ k) ∧ ¬ v.Inside ((v.below k + 1 : ℕ) * 10 ^ k) := by
  rw [← covers_iff, ← covers_iff, Bool.not_eq_true, Bool.not_eq_true]
  rw [onGrid.eq_def] at none
  dsimp only at none
  split at none
  case h_1 first second => exact ⟨first, second⟩
  case h_4 => split at none <;> nomatch none
  all_goals nomatch none

/-- A point above the number is at most half a step away, or else the point below is outside and so
at least as far away as the lower end of the interval. Points below the number are no different. -/
theorem onGrid_near {tie : Tie} (pos : 0 < v.mantissa) (found : v.onGrid tie k = some n) :
    (n * 10 ^ k - v.value ≤ 10 ^ k / 2 ∨ n * 10 ^ k - v.value ≤ 10 ^ k - (v.value - v.lower)) ∧
    (v.value - n * 10 ^ k ≤ 10 ^ k / 2 ∨ v.value - n * 10 ^ k ≤ 10 ^ k - (v.upper - v.value)) := by
  have unit : (0 : ℚ) < 10 ^ k := zpow_pos (by norm_num) k
  have low := v.below_le k
  have high := v.lt_above k
  obtain ⟨-, ⟨rfl, nearer⟩ | ⟨rfl, nearer⟩⟩ := onGrid_eq_some found
  · refine ⟨.inl (by linarith), ?_⟩
    by_cases other : v.Inside ((v.below k + 1 : ℕ) * 10 ^ k)
    · have := nearer other
      push_cast at this
      exact .inl (by linarith)
    · have := upper_le_of_not_inside pos high.le other
      push_cast at this
      exact .inr (by linarith)
  · refine ⟨?_, .inl (by linarith)⟩
    by_cases other : v.Inside (v.below k * 10 ^ k)
    · have := nearer other
      push_cast at this ⊢
      exact .inl (by linarith)
    · have := le_lower_of_not_inside low other
      push_cast
      exact .inr (by linarith)

theorem upper_sub_value (v : Magnitude) : v.upper - v.value = 2 ^ v.exponent / 2 := by
  rw [upper, quarter_zpow, high_eq, value]
  ring

theorem le_value_sub_lower (pos : 0 < v.mantissa) : 2 ^ v.exponent / 4 ≤ v.value - v.lower := by
  have : v.low + 1 ≤ 4 * v.mantissa := by
    rw [low]
    split <;> omega
  have : ((v.low + 1 : ℕ) : ℚ) ≤ (4 * v.mantissa : ℕ) := Nat.cast_le.mpr this
  push_cast at this
  have := mul_le_mul_of_nonneg_right this (two_zpow_pos v.exponent).le
  rw [lower, quarter_zpow, value]
  linarith

/-- If a grid has no point in the interval, its steps are at least as wide as that. -/
theorem le_step_of_onGrid_eq_none {tie : Tie} (pos : 0 < v.mantissa)
    (none : v.onGrid tie k = none) : 3 / 4 * 2 ^ v.exponent ≤ (10 : ℚ) ^ k := by
  obtain ⟨first, second⟩ := onGrid_eq_none none
  have low := le_lower_of_not_inside (v.below_le k) first
  have high := upper_le_of_not_inside pos (v.lt_above k).le second
  have top := v.upper_sub_value
  have bottom := le_value_sub_lower pos
  push_cast at high
  linarith

theorem mem_grids : k ∈ grids ↔ -45 ≤ k ∧ k ≤ 38 := by
  simp only [grids, List.mem_map, List.mem_range]
  constructor
  · rintro ⟨i, small, rfl⟩
    omega
  · rintro ⟨low, high⟩
    exact ⟨(38 - k).toNat, by omega, by omega⟩

theorem pairwise_grids : grids.Pairwise (· > ·) := by
  rw [grids, List.pairwise_map]
  exact List.pairwise_lt_range.imp fun lt => by omega

/-- The finest grid has a point in every interval. -/
theorem exists_onGrid (canonical : v.Canonical) (tie : Tie) :
    ∃ k ∈ grids, v.onGrid tie k ≠ none := by
  refine ⟨-45, mem_grids.mpr (by decide), fun none => ?_⟩
  have wide := le_step_of_onGrid_eq_none canonical.pos none
  have : (2 : ℚ) ^ (-149 : ℤ) ≤ 2 ^ v.exponent :=
    zpow_le_zpow_right₀ (by norm_num) canonical.least
  norm_num at wide this
  linarith

/-- The shortest decimal is a point of the coarsest grid that has one in the interval. -/
theorem exists_coarsest (canonical : v.Canonical) (tie : Tie) :
    ∃ (n : ℕ) (k : ℤ), v.shortest tie = ⟨n, k⟩ ∧ -45 ≤ k ∧ k ≤ 38 ∧ v.onGrid tie k = some n ∧
      (k < 38 → v.onGrid tie (k + 1) = none) := by
  rw [shortest]
  cases search : grids.findSome? fun k => (v.onGrid tie k).map fun n => (⟨n, k⟩ : Decimal) with
  | none =>
      obtain ⟨k, inside, some⟩ := exists_onGrid canonical tie
      exact absurd (Option.map_eq_none_iff.mp (List.findSome?_eq_none_iff.mp search k inside)) some
  | some d =>
      obtain ⟨coarser, k, finer, all, found', before⟩ := List.findSome?_eq_some_iff.mp search
      obtain ⟨n, found, rfl⟩ := Option.map_eq_some_iff.mp found'
      have range : k ∈ grids := all ▸ List.mem_append_right _ List.mem_cons_self
      obtain ⟨low, high⟩ := mem_grids.mp range
      refine ⟨n, k, rfl, low, high, found, fun more => ?_⟩
      -- the next coarser grid has been tried before
      have next : k + 1 ∈ coarser ++ k :: finer := all ▸ mem_grids.mpr ⟨by omega, by omega⟩
      have order := (List.pairwise_append.mp (all ▸ pairwise_grids)).2.1
      have tried : k + 1 ∈ coarser := by
        rcases List.mem_append.mp next with tried | here
        · exact tried
        rcases List.mem_cons.mp here with same | after
        · omega
        · have := List.rel_of_pairwise_cons order after
          omega
      exact Option.map_eq_none_iff.mp (before _ tried)

/-- The coefficient of a point on the coarsest grid is positive and has at most 28 bits. -/
theorem bounds_of_coarsest (canonical : v.Canonical) {tie : Tie} (found : v.onGrid tie k = some n)
    (small : k ≤ 38) (first : k < 38 → v.onGrid tie (k + 1) = none) : 0 < n ∧ n < 2 ^ 28 := by
  have unit : (0 : ℚ) < 10 ^ k := zpow_pos (by norm_num) k
  have inside := (onGrid_eq_some found).1
  constructor
  · refine Nat.pos_of_ne_zero fun zero => ?_
    have some : (1 : ℚ) ≤ v.mantissa := by exact_mod_cast canonical.pos
    have positive : 0 < v.lower := by
      rw [lower, quarter_zpow]
      exact mul_pos (by linarith [v.le_low]) (two_zpow_pos _)
    have low := inside.low
    rw [zero, Nat.cast_zero, zero_mul] at low
    linarith
  · have top : (n : ℚ) * 10 ^ k ≤ 2 ^ 24 * 2 ^ v.exponent := by
      refine inside.high.trans ?_
      have : ((v.mantissa + 1 : ℕ) : ℚ) ≤ (2 ^ 24 : ℕ) := Nat.cast_le.mpr canonical.bound
      push_cast at this
      rw [upper, quarter_zpow, high_eq]
      exact mul_le_mul_of_nonneg_right (by linarith) (two_zpow_pos _).le
    have few : (n : ℚ) < (2 ^ 28 : ℕ) := by
      refine lt_of_mul_lt_mul_right ?_ unit.le
      by_cases more : k < 38
      · have wide := le_step_of_onGrid_eq_none canonical.pos (first more)
        rw [zpow_add_one₀ (by norm_num)] at wide
        push_cast
        linarith
      · obtain rfl : k = 38 := by omega
        have : (2 : ℚ) ^ v.exponent ≤ 2 ^ (104 : ℤ) :=
          zpow_le_zpow_right₀ (by norm_num) canonical.most
        norm_num at top this ⊢
        linarith
    exact Nat.cast_lt.mp few

/-- The shortest decimal is a point of a grid in the interval, with a coefficient that is positive
and has at most 28 bits. -/
theorem shortest_spec (canonical : v.Canonical) (tie : Tie) :
    ∃ (n : ℕ) (k : ℤ), v.shortest tie = ⟨n, k⟩ ∧ -45 ≤ k ∧ k ≤ 38 ∧ v.onGrid tie k = some n ∧
      0 < n ∧ n < 2 ^ 28 := by
  obtain ⟨n, k, shortest, low, high, found, first⟩ := exists_coarsest canonical tie
  exact ⟨n, k, shortest, low, high, found, bounds_of_coarsest canonical found high first⟩

end Decimal.Magnitude

end Retrieval
