import Mathlib.Algebra.Order.Field.Power
import Mathlib.Tactic.Linarith
import Mathlib.Tactic.NormNum
import Mathlib.Tactic.Positivity
import Mathlib.Tactic.Ring
import Retrieval.Proofs.Rounding

/-!
# Decimals stay clear of binary numbers

A multiple of a power of ten is either equal to a multiple of a power of two, or clearly apart from
it, as long as the multiples are not too large: fractions with small denominators cannot come
arbitrarily near to the quotient of the two powers.
-/

namespace Retrieval

open Rounding

namespace Separation

/-- How often a number fits into its distance to another one is at most this. -/
def precision : ℕ := 15 * 2 ^ 48

def denominators : ℕ := 2 ^ 25

variable {A B a b c d n m : ℕ}

/-- The fraction `n / m` is equal to `A / B`, or apart from it by no less than a small part of that.
-/
def Apart (A B n m : ℕ) : Prop :=
  n * B = m * A ∨ n * B * precision + m * A ≤ m * A * precision ∨
    m * A * precision + m * A ≤ n * B * precision

/-- Between two such fractions, only those with larger denominators lie. -/
structure Adjacent (a b c d : ℕ) : Prop where
  next : b * c = a * d + 1
  large : denominators ≤ b + d

/-- The fraction `a / b` is far enough below `A / B`. -/
def FarBelow (A B a b : ℕ) : Prop := 0 < b ∧ a * B * precision + b * A ≤ b * A * precision

def FarAbove (A B c d : ℕ) : Prop := 0 < d ∧ d * A * precision + d * A ≤ c * B * precision

instance : Decidable (FarBelow A B a b) := inferInstanceAs (Decidable (_ ∧ _))

instance : Decidable (FarAbove A B c d) := inferInstanceAs (Decidable (_ ∧ _))

instance : Decidable (Adjacent a b c d) :=
  decidable_of_iff (b * c = a * d + 1 ∧ denominators ≤ b + d)
    ⟨fun ⟨next, large⟩ => ⟨next, large⟩, fun ⟨next, large⟩ => ⟨next, large⟩⟩

/-- A fraction with a small denominator does not lie between adjacent ones. -/
theorem Adjacent.outside (adjacent : Adjacent a b c d) (small : m < denominators) :
    n * b ≤ a * m ∨ c * m ≤ n * d := by
  by_contra between
  obtain ⟨above, below⟩ := not_or.mp between
  obtain ⟨next, large⟩ := adjacent
  have first : a * m + 1 ≤ n * b := Nat.not_le.mp above
  have second : n * d + 1 ≤ c * m := Nat.not_le.mp below
  have : d * (a * m + 1) + b * (n * d + 1) ≤ d * (n * b) + b * (c * m) :=
    Nat.add_le_add (Nat.mul_le_mul_left d first) (Nat.mul_le_mul_left b second)
  have : b * c * m = (a * d + 1) * m := congrArg (· * m) next
  nlinarith

theorem FarBelow.apart (far : FarBelow A B a b) (le : n * b ≤ a * m) :
    n * B * precision + m * A ≤ m * A * precision := by
  obtain ⟨pos, far⟩ := far
  refine Nat.le_of_mul_le_mul_left ?_ pos
  calc b * (n * B * precision + m * A) = n * b * (B * precision) + m * (b * A) := by ring
    _ ≤ a * m * (B * precision) + m * (b * A) :=
        Nat.add_le_add_right (Nat.mul_le_mul_right _ le) _
    _ = m * (a * B * precision + b * A) := by ring
    _ ≤ m * (b * A * precision) := Nat.mul_le_mul_left m far
    _ = b * (m * A * precision) := by ring

theorem FarAbove.apart (far : FarAbove A B c d) (le : c * m ≤ n * d) :
    m * A * precision + m * A ≤ n * B * precision := by
  obtain ⟨pos, far⟩ := far
  refine Nat.le_of_mul_le_mul_left ?_ pos
  calc d * (m * A * precision + m * A) = m * (d * A * precision + d * A) := by ring
    _ ≤ m * (c * B * precision) := Nat.mul_le_mul_left m far
    _ = c * m * (B * precision) := by ring
    _ ≤ n * d * (B * precision) := Nat.mul_le_mul_right _ le
    _ = d * (n * B * precision) := by ring

theorem apart_of_adjacent (adjacent : Adjacent a b c d) (below : FarBelow A B a b)
    (above : FarAbove A B c d) (n : ℕ) (small : m < denominators) : Apart A B n m :=
  .inr ((adjacent.outside small).imp below.apart above.apart)

/-- Multiples of two numbers differ by no less than a common divisor. -/
theorem apart_of_gcd (short : A / Nat.gcd A B ≤ 2 ^ 26) (n : ℕ) (small : m < denominators) :
    Apart A B n m := by
  have far : m * A ≤ Nat.gcd A B * precision := by
    have : A / Nat.gcd A B * Nat.gcd A B = A := Nat.div_mul_cancel (Nat.gcd_dvd_left A B)
    calc m * A = m * (A / Nat.gcd A B * Nat.gcd A B) := by rw [this]
      _ = m * (A / Nat.gcd A B) * Nat.gcd A B := (Nat.mul_assoc ..).symm
      _ ≤ 2 ^ 25 * 2 ^ 26 * Nat.gcd A B :=
          Nat.mul_le_mul_right _ (Nat.mul_le_mul small.le short)
      _ ≤ precision * Nat.gcd A B := Nat.mul_le_mul_right _ (by decide)
      _ = _ := Nat.mul_comm ..
  have left : Nat.gcd A B ∣ n * B := Dvd.dvd.mul_left (Nat.gcd_dvd_right A B) n
  have right : Nat.gcd A B ∣ m * A := Dvd.dvd.mul_left (Nat.gcd_dvd_left A B) m
  rcases Nat.lt_trichotomy (n * B) (m * A) with below | same | above
  · have : n * B + Nat.gcd A B ≤ m * A := by
      have := Nat.le_of_dvd (Nat.sub_pos_of_lt below) (Nat.dvd_sub right left)
      omega
    have := Nat.mul_le_mul_right precision this
    rw [Nat.add_mul] at this
    exact .inr (.inl (by omega))
  · exact .inl same
  · have : m * A + Nat.gcd A B ≤ n * B := by
      have := Nat.le_of_dvd (Nat.sub_pos_of_lt above) (Nat.dvd_sub left right)
      omega
    have := Nat.mul_le_mul_right precision this
    rw [Nat.add_mul] at this
    exact .inr (.inr (by omega))

/-- Bring two adjacent fractions on both sides of `A / B` as near to it as their denominators
allow. -/
def approach (A B : ℕ) : (fuel : ℕ) → (a b c d : ℕ) → ℕ × ℕ × ℕ × ℕ
  | 0, a, b, c, d => (a, b, c, d)
  | fuel + 1, a, b, c, d =>
    if denominators ≤ b + d then (a, b, c, d)
    else
      let s := min ((b * A - a * B - 1) / (c * B - d * A)) ((denominators - 1 - b) / d)
      let a := a + s * c
      let b := b + s * d
      let t := min ((c * B - d * A - 1) / (b * A - a * B)) ((denominators - 1 - d) / b)
      approach A B fuel a b (c + t * a) (d + t * b)

/-- Whether all fractions with small denominators are found to be apart from `A / B`. -/
def separates (A B : ℕ) : Bool :=
  decide (A / Nat.gcd A B ≤ 2 ^ 26) ||
    let (a, b, c, d) := approach A B 32 (A / B) 1 (A / B + 1) 1
    decide (Adjacent a b c d) && decide (FarBelow A B a b) && decide (FarAbove A B c d)

theorem apart_of_separates (check : separates A B = true) (n : ℕ) (small : m < denominators) :
    Apart A B n m := by
  rw [separates, Bool.or_eq_true, decide_eq_true_iff] at check
  rcases check with short | found
  · exact apart_of_gcd short n small
  · simp only [Bool.and_eq_true, decide_eq_true_iff] at found
    obtain ⟨⟨adjacent, below⟩, above⟩ := found
    exact apart_of_adjacent adjacent below above n small

/-- If a fraction is too near, all others are apart: those between it and the fractions next to it
on both sides have larger denominators. -/
theorem apart_of_ne {n₀ m₀ : ℕ} (before : Adjacent a b n₀ m₀) (after : Adjacent n₀ m₀ c d)
    (below : FarBelow A B a b) (above : FarAbove A B c d) (half : denominators ≤ 2 * m₀) (n : ℕ)
    (pos : 0 < m) (small : m < denominators) (ne : m ≠ m₀) : Apart A B n m := by
  rcases before.outside (n := n) small with low | left
  · exact .inr (.inl (below.apart low))
  rcases after.outside (n := n) small with right | high
  · -- the same fraction in other terms has a larger denominator
    have same : n * m₀ = n₀ * m := Nat.le_antisymm right left
    have multiple : m₀ ∣ m := by
      have : m + m₀ * (a * m) = m₀ * (b * n) := calc
        m + m₀ * (a * m) = (a * m₀ + 1) * m := by ring
        _ = b * n₀ * m := by rw [before.next]
        _ = b * (n₀ * m) := Nat.mul_assoc ..
        _ = b * (n * m₀) := by rw [same]
        _ = m₀ * (b * n) := by ring
      exact (Nat.dvd_add_left (Dvd.intro _ rfl)).mp (this ▸ Dvd.intro _ rfl)
    obtain ⟨t, rfl⟩ := multiple
    have : t ≠ 0 := by
      rintro rfl
      omega
    have : t ≠ 1 := by
      rintro rfl
      omega
    have := Nat.mul_le_mul_left m₀ (show 2 ≤ t by omega)
    omega
  · exact .inr (.inr (above.apart high))

/-- Numerator and denominator of `2 ^ q / 10 ^ k`. -/
def numerator (q k : ℤ) : ℕ := 2 ^ q.toNat * 10 ^ (-k).toNat

def denominator (q k : ℤ) : ℕ := 10 ^ k.toNat * 2 ^ (-q).toNat

theorem scale_numerator (q k : ℤ) : ∃ unit : ℚ, 0 < unit ∧
    (numerator q k : ℚ) = 2 ^ q * unit ∧ (denominator q k : ℚ) = 10 ^ k * unit := by
  refine ⟨2 ^ (-q).toNat * 10 ^ (-k).toNat, by positivity, ?_, ?_⟩
  · rw [← mul_assoc, zpow_mul_pow_toNat two_pos, numerator]
    push_cast
    rfl
  · rw [mul_left_comm, zpow_mul_pow_toNat (by norm_num), denominator, mul_comm]
    push_cast
    rfl

/-- A grid that is neither so fine that a point of it is near, nor so coarse that none is. -/
structure IsCoarse (A B : ℕ) : Prop where
  fine : 29 * A < 20 * B
  coarse : B ≤ 2 ^ 26 * A

instance : Decidable (IsCoarse A B) :=
  decidable_of_iff (29 * A < 20 * B ∧ B ≤ 2 ^ 26 * A)
    ⟨fun ⟨fine, coarse⟩ => ⟨fine, coarse⟩, fun ⟨fine, coarse⟩ => ⟨fine, coarse⟩⟩

/-- The exponent of the last power of two that is not above `10 ^ k`. -/
def place (k : ℤ) : ℤ :=
  if 0 ≤ k then (10 ^ k.toNat : ℕ).log2 else -((10 ^ (-k).toNat : ℕ).log2 + 1)

/-- There are two quotients of powers to which a fraction comes too near; it has the same
denominator both times. -/
def IsClose (q k : ℤ) : Prop := k = -32 ∧ (q = -108 ∨ q = -107)

instance (q k : ℤ) : Decidable (IsClose q k) := inferInstanceAs (Decidable (_ ∧ _))

def closeDenominator : ℕ := 22841339

theorem separates_powers : ∀ i < 84, ∀ j < 27,
    let k : ℤ := 38 - (i : ℕ)
    let q := place k - (j : ℕ)
    IsCoarse (numerator q k) (denominator q k) → ¬ IsClose q k →
      separates (numerator q k) (denominator q k) = true := by
  decide +kernel

theorem zpow_place (k : ℤ) : (2 : ℚ) ^ place k ≤ 10 ^ k ∧ (10 : ℚ) ^ k ≤ 2 ^ (place k + 1) := by
  rw [place]
  split
  case isTrue whole =>
    obtain ⟨n, rfl⟩ := Int.eq_ofNat_of_zero_le whole
    rw [Int.toNat_natCast, zpow_natCast, zpow_natCast]
    constructor
    · exact_mod_cast Nat.log2_self_le (Nat.pow_pos (by decide)).ne'
    · exact_mod_cast Nat.lt_log2_self.le
  case isFalse part =>
    obtain ⟨n, rfl⟩ : ∃ n : ℕ, k = -n := ⟨(-k).toNat, by omega⟩
    have pos : (0 : ℚ) < 10 ^ n := by positivity
    have least : (2 : ℚ) ^ ((10 ^ n : ℕ).log2 : ℤ) ≤ 10 ^ n := by
      exact_mod_cast Nat.log2_self_le (Nat.pow_pos (by decide)).ne'
    have most : (10 : ℚ) ^ n ≤ 2 ^ ((10 ^ n : ℕ).log2 + 1 : ℤ) := by
      exact_mod_cast Nat.lt_log2_self.le
    rw [neg_neg, Int.toNat_natCast]
    generalize (10 ^ n : ℕ).log2 = place at *
    have next : (-(place + 1) + 1 : ℤ) = -place := by ring
    rw [next, zpow_neg, zpow_neg, zpow_neg, zpow_natCast]
    exact ⟨inv_anti₀ pos most, inv_anti₀ (two_zpow_pos _) least⟩

theorem place_bounds {q k : ℤ} (coarse : IsCoarse (numerator q k) (denominator q k)) :
    q ≤ place k ∧ place k ≤ q + 26 := by
  obtain ⟨unit, pos, num, den⟩ := scale_numerator q k
  have fine : (29 * numerator q k : ℕ) < ((20 * denominator q k : ℕ) : ℚ) :=
    Nat.cast_lt.mpr coarse.fine
  have coarse : ((denominator q k : ℕ) : ℚ) ≤ (2 ^ 26 * numerator q k : ℕ) :=
    Nat.cast_le.mpr coarse.coarse
  push_cast at fine coarse
  rw [num, den, ← mul_assoc, ← mul_assoc] at fine
  rw [num, den, ← mul_assoc] at coarse
  have fine := lt_of_mul_lt_mul_right fine pos.le
  have coarse := le_of_mul_le_mul_right coarse pos
  obtain ⟨least, most⟩ := zpow_place k
  have unit := two_zpow_pos q
  constructor
  · have : (2 : ℚ) ^ q < 2 ^ (place k + 1) := by linarith
    have := (zpow_lt_zpow_iff_right₀ (by norm_num)).mp this
    omega
  · have : (2 : ℚ) ^ place k ≤ 2 ^ (q + 26) := by
      rw [zpow_add₀ two_ne_zero, mul_comm]
      exact least.trans (by exact_mod_cast coarse)
    exact (zpow_le_zpow_iff_right₀ (by norm_num)).mp this

/-- Multiples of powers of ten are apart from multiples of powers of two. -/
theorem apart_powers {q k : ℤ} (low : -45 ≤ k) (high : k ≤ 38)
    (coarse : IsCoarse (numerator q k) (denominator q k)) (n : ℕ) (pos : 0 < m)
    (small : m < denominators) (usual : IsClose q k → m ≠ closeDenominator) :
    Apart (numerator q k) (denominator q k) n m := by
  by_cases close : IsClose q k
  · have other := usual close
    obtain ⟨rfl, rfl | rfl⟩ := close
    · have before : Adjacent 9610261 31187080 7038531 closeDenominator := by decide
      have after : Adjacent 7038531 closeDenominator 4466801 14495598 := by decide
      exact apart_of_ne before after (by decide +kernel) (by decide +kernel) (by decide) n pos small
        other
    · have before : Adjacent 9610261 15593540 14077062 closeDenominator := by decide
      have after : Adjacent 14077062 closeDenominator 18543863 30089138 := by decide
      exact apart_of_ne before after (by decide +kernel) (by decide +kernel) (by decide) n pos small
        other
  · obtain ⟨above, below⟩ := place_bounds coarse
    have check := separates_powers (38 - k).toNat (by omega) (place k - q).toNat (by omega)
    have same : (38 : ℤ) - (38 - k).toNat = k := by omega
    have same' : place k - (place k - q).toNat = q := by omega
    simp only [same, same'] at check
    exact apart_of_separates (check coarse close) n small

/-- If multiples of a power of ten and of a power of two are equal, the power of ten is not large,
for its factors five are factors of one of the multipliers. -/
theorem natAbs_le_of_eq {q k : ℤ} (same : n * denominator q k = m * numerator q k) (pos : 0 < n)
    (pos' : 0 < m) (small : n < 2 ^ 28) (small' : m < 2 ^ 28) : k.natAbs ≤ 12 := by
  have few : ∀ {l t : ℕ}, 0 < t → t < 2 ^ 28 → 5 ^ l ∣ t → l ≤ 12 := by
    intro l t pos small divides
    by_contra large
    have : 5 ^ 13 ≤ 5 ^ l := Nat.pow_le_pow_right (by decide) (by omega)
    have := Nat.le_of_dvd pos divides
    omega
  have coprime : ∀ l j : ℕ, Nat.Coprime (5 ^ l) (2 ^ j) := fun l j =>
    Nat.Coprime.pow l j (by decide)
  have split : ∀ l : ℕ, 10 ^ l = 5 ^ l * 2 ^ l := fun l => by rw [← Nat.mul_pow]
  rw [numerator, denominator, split, split] at same
  rcases Int.le_total 0 k with whole | part
  · have none : (-k).toNat = 0 := by omega
    have divides : 5 ^ k.natAbs ∣ m := by
      refine Nat.Coprime.dvd_of_dvd_mul_right (coprime _ q.toNat) ?_
      rw [none] at same
      rw [show k.natAbs = k.toNat by omega]
      exact ⟨n * 2 ^ k.toNat * 2 ^ (-q).toNat, by linarith⟩
    exact few pos' small' divides
  · have none : k.toNat = 0 := by omega
    have divides : 5 ^ k.natAbs ∣ n := by
      refine Nat.Coprime.dvd_of_dvd_mul_right (coprime _ (-q).toNat) ?_
      rw [none] at same
      rw [show k.natAbs = (-k).toNat by omega]
      exact ⟨m * 2 ^ q.toNat * 2 ^ (-k).toNat, by linarith⟩
    exact few pos small divides

end Separation

end Retrieval
