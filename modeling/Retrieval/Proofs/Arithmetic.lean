import Mathlib
import Retrieval.Json.Number
import Retrieval.Proofs.Rounding

/-!
# Products and quotients are nearest

What is computed with floating-point numbers of 64 bits is what the exact result rounds to, as long
as it is neither very large nor very small.
-/

namespace Retrieval

open Float.Model (Format UnpackedFloat totalExponent)
open Float.Model.UnpackedFloat
open Rounding

namespace Double

/-- Mantissa and exponent of a number that is neither very small nor very large: all bits of the
mantissa are used. -/
structure Normal (m : ℕ) (e : ℤ) : Prop where
  full : 2 ^ 52 ≤ m
  bound : m < 2 ^ 53
  least : -1074 ≤ e
  most : e ≤ 971

instance (m : ℕ) (e : ℤ) : Decidable (Normal m e) :=
  decidable_of_iff (2 ^ 52 ≤ m ∧ m < 2 ^ 53 ∧ -1074 ≤ e ∧ e ≤ 971)
    ⟨fun ⟨full, bound, least, most⟩ => ⟨full, bound, least, most⟩,
      fun ⟨full, bound, least, most⟩ => ⟨full, bound, least, most⟩⟩

variable {m m' : ℕ} {e e' : ℤ}

theorem Normal.pos (normal : Normal m e) : 0 < m := Nat.zero_lt_of_lt normal.full

theorem Normal.log2_eq (normal : Normal m e) : m.log2 = 52 :=
  (Nat.log2_eq_iff normal.pos.ne').mpr ⟨normal.full, normal.bound⟩

/-- Such a number is unpacked as it was packed. -/
theorem Normal.unpack_pack {s : Sign} (normal : Normal m e) (pos : 0 < m) :
    UnpackedFloat.unpack .binary64 (UnpackedFloat.pack .binary64 (.finite s m e pos)) =
      .finite s m e pos := by
  have least := normal.least
  have most := normal.most
  refine Rounding.unpack_pack normal.full normal.bound ?_ ?_ pos
  · change 0 < e + (1023 : ℕ) + (52 : ℕ)
    omega
  · change e + (1023 : ℕ) + (52 : ℕ) + 1 < (2048 : ℕ)
    omega

/-- The positive number that is stored, if it is neither very small nor very large. -/
def Holds (x : Float) (w : ℚ) : Prop :=
  ∃ (m : ℕ) (e : ℤ) (pos : 0 < m), x.toModel.unpack = .finite .positive m e pos ∧ Normal m e ∧
    w = m * 2 ^ e

/-- The stored number that is nearest: it is no farther away than half of the last place, and not at
all if the number can be stored itself. -/
structure Nearest (w v : ℚ) : Prop where
  close : |w - v| ≤ v / 2 ^ 53
  exact (m : ℕ) (e : ℤ) (short : m < 2 ^ 53) (same : v = m * 2 ^ e) : w = v

variable {v w : ℚ}

/-- The numbers that are neither very small nor very large. -/
def Moderate (v : ℚ) : Prop := (2 : ℚ) ^ (-900 : ℤ) ≤ v ∧ v ≤ (2 : ℚ) ^ (900 : ℤ)

theorem moderate_of_bounds (low : (1 : ℚ) / 2 ^ 200 ≤ v) (high : v ≤ 2 ^ 250) : Moderate v := by
  constructor
  · refine le_trans ?_ low
    rw [one_div, ← zpow_natCast, ← zpow_neg]
    exact zpow_le_zpow_right₀ (by norm_num) (by norm_num)
  · refine high.trans ?_
    rw [← zpow_natCast]
    exact zpow_le_zpow_right₀ (by norm_num) (by norm_num)

theorem exists_nearest (moderate : Moderate v) :
    ∃ m e, Normal m e ∧ Rounds .binary64 v m e ∧ Nearest (m * 2 ^ e) v := by
  obtain ⟨low, high⟩ := moderate
  have pos : 0 < v := (two_zpow_pos _).trans_le low
  have normal : (2 : ℚ) ^ (Format.binary64.minExponent +
      Format.binary64.mantissaBitsWithoutImplicit) ≤ v :=
    le_trans (zpow_le_zpow_right₀ (by norm_num) (by decide)) low
  obtain ⟨m, e, rounds, full, close, exact⟩ := exists_rounds pos normal
  refine ⟨m, e, ⟨full, rounds.bound, rounds.least, ?_⟩, rounds, close, exact⟩
  have small : v / 2 ^ 53 ≤ v := div_le_self pos.le (one_le_pow₀ (by norm_num))
  have near : (m : ℚ) * 2 ^ e - v ≤ v / 2 ^ 53 := (abs_le.mp close).2
  have top : (m : ℚ) * 2 ^ e ≤ 2 ^ (901 : ℤ) := calc
    (m : ℚ) * 2 ^ e ≤ v / 2 ^ 53 + v := sub_le_iff_le_add.mp near
    _ ≤ v + v := by gcongr
    _ ≤ 2 ^ (900 : ℤ) + 2 ^ (900 : ℤ) := add_le_add high high
    _ = 2 ^ (900 : ℤ) * 2 := (mul_two _).symm
    _ = 2 ^ (901 : ℤ) := (zpow_add_one₀ two_ne_zero 900).symm
  have : (2 : ℚ) ^ (52 + e) ≤ 2 ^ (901 : ℤ) := by
    rw [zpow_add₀ (by norm_num)]
    exact (mul_le_mul_of_nonneg_right (by exact_mod_cast full) (two_zpow_pos e).le).trans top
  have := (zpow_le_zpow_iff_right₀ (by norm_num)).mp this
  omega

theorem le_targetExponent (full : 2 ^ 52 ≤ m) (e : ℤ) :
    e ≤ Format.binary64.targetExponent (totalExponent m e) := by
  have bits : 52 ≤ m.log2 := (Nat.le_log2 (Nat.zero_lt_of_lt full).ne').mpr full
  rw [Format.targetExponent, totalExponent, mantissaBits_eq]
  push_cast
  omega

/-- What is rounded is stored as the nearest number, if there are bits enough to round. -/
theorem holds_round {accuracy : Accuracy} (full : 2 ^ 52 ≤ m)
    (tells : Tells (.ofMantissaAndAccuracy m accuracy) v) (moderate : Moderate (v * 2 ^ e)) :
    ∃ w, Holds (.ofModel (.pack (roundWithAccuracy .binary64 .positive m e accuracy))) w ∧
      Nearest w (v * 2 ^ e) := by
  obtain ⟨m', e', normal, rounds, nearest⟩ := exists_nearest moderate
  rw [roundWithAccuracy_eq (Nat.zero_lt_of_lt full) tells (le_targetExponent full e) rounds
    normal.pos]
  exact ⟨_, ⟨m', e', normal.pos, normal.unpack_pack _, normal, rfl⟩, nearest⟩

variable {x y : Float} {a b : ℚ}

theorem holds_mul (first : Holds x a) (second : Holds y b) (moderate : Moderate (a * b)) :
    ∃ w, Holds (x * y) w ∧ Nearest w (a * b) := by
  obtain ⟨m, e, pos, unpacked, normal, rfl⟩ := first
  obtain ⟨m', e', pos', unpacked', normal', rfl⟩ := second
  have product : x * y =
      .ofModel (.pack (roundWithAccuracy .binary64 .positive (m * m') (e + e') .exact)) := by
    show Float.ofModel (.pack (UnpackedFloat.mul .binary64 _ _)) = _
    rw [unpacked, unpacked']
    rfl
  have value : (m * 2 ^ e : ℚ) * (m' * 2 ^ e') = (m * m' : ℕ) * 2 ^ (e + e') := by
    rw [zpow_add₀ (by norm_num)]
    push_cast
    ring
  rw [product, value]
  have full : 2 ^ 52 ≤ m * m' := normal.full.trans (Nat.le_mul_of_pos_right m pos')
  exact holds_round full (tells_exact _) (value ▸ moderate)

/-- To divide full mantissas, the first one is shifted by 53 bits, which makes the quotient full. -/
theorem divCore_eq (normal : Normal m e) (normal' : Normal m' e') (apart : -1021 ≤ e - e') :
    divCore .binary64 m e m' e' =
      (m * 2 ^ 53 / m', e - e' - 53, accuracyOfFraction (m * 2 ^ 53 % m') m') := by
  have target : min (e - e') (Format.binary64.targetExponent
      (totalExponent m e - totalExponent m' e')) = e - e' - 53 := by
    rw [Format.targetExponent, totalExponent, totalExponent, normal.log2_eq, normal'.log2_eq]
    change min (e - e') (max (_ - (53 : ℕ)) (-1074)) = _
    push_cast
    omega
  have shift : (e - e' - (e - e' - 53)).toNat = 53 := by omega
  rw [divCore, target, shift, Nat.shiftLeft_eq]

theorem quotient_eq (pos : 0 < m') : (m * 2 ^ e : ℚ) / ((m' : ℚ) * 2 ^ e') =
    ((m * 2 ^ 53 / m' : ℕ) + (m * 2 ^ 53 % m' : ℕ) / m') * 2 ^ (e - e' - 53) := by
  have division : (m' : ℚ) * (m * 2 ^ 53 / m' : ℕ) + (m * 2 ^ 53 % m' : ℕ) = m * 2 ^ 53 := by
    exact_mod_cast Nat.div_add_mod (m * 2 ^ 53) m'
  have divided : ((m * 2 ^ 53 / m' : ℕ) + (m * 2 ^ 53 % m' : ℕ) / m' : ℚ) = m * 2 ^ 53 / m' := by
    rw [← division]
    field_simp
  rw [divided, zpow_sub₀ (by norm_num) (e - e'), zpow_sub₀ (by norm_num) e]
  field_simp

theorem holds_div (first : Holds x a) (second : Holds y b) (moderate : Moderate (a / b)) :
    ∃ w, Holds (x / y) w ∧ Nearest w (a / b) := by
  obtain ⟨m, e, pos, unpacked, normal, rfl⟩ := first
  obtain ⟨m', e', pos', unpacked', normal', rfl⟩ := second
  have apart : -1021 ≤ e - e' := by
    have below : (m : ℚ) / m' < 2 ^ (1 : ℤ) := by
      have bound := normal.bound
      have full := normal'.full
      have : (m : ℚ) < (2 * m' : ℕ) := Nat.cast_lt.mpr (by omega)
      rw [div_lt_iff₀ (Nat.cast_pos.mpr pos'), zpow_one]
      exact_mod_cast this
    have low := moderate.1
    rw [mul_div_mul_comm, ← zpow_sub₀ (by norm_num)] at low
    have := place_le low below
    omega
  have quotient : x / y = .ofModel (.pack (roundWithAccuracy .binary64 .positive
      (m * 2 ^ 53 / m') (e - e' - 53) (accuracyOfFraction (m * 2 ^ 53 % m') m'))) := by
    show Float.ofModel (.pack (UnpackedFloat.div .binary64 _ _)) = _
    rw [unpacked, unpacked', UnpackedFloat.div, divCore_eq normal normal' apart]
    rfl
  have full : 2 ^ 52 ≤ m * 2 ^ 53 / m' := by
    have full := normal.full
    have bound := normal'.bound
    rw [Nat.le_div_iff_mul_le pos']
    omega
  rw [quotient_eq pos'] at moderate ⊢
  rw [quotient]
  exact holds_round full (tells_fraction _ (Nat.mod_lt _ pos')) moderate

/-- A natural number is stored exactly if it is not too large. -/
theorem holds_ofNat {n : ℕ} (pos : 0 < n) (small : n < 2 ^ 53) :
    Holds (UInt64.ofNat n).toFloat n := by
  have one : (1 : ℚ) ≤ n := by exact_mod_cast pos
  have top : (n : ℚ) ≤ 2 ^ 53 := by exact_mod_cast small.le
  have moderate : Moderate n := moderate_of_bounds (le_trans (by norm_num) one)
    (top.trans (by norm_num))
  obtain ⟨m, e, normal, rounds, nearest⟩ := exists_nearest moderate
  have rounded : UnpackedFloat.ofUInt64 .binary64 (UInt64.ofNat n) =
      .finite .positive m e normal.pos :=
    ofUInt64_eq pos (by omega) rounds normal.pos
  have stored : (UInt64.ofNat n).toFloat =
      .ofModel (.pack (.finite .positive m e normal.pos)) := by
    rw [← rounded]
    rfl
  rw [stored]
  exact ⟨m, e, normal.pos, normal.unpack_pack _, normal,
    (nearest.exact n 0 small (by simp)).symm⟩

/-- Whether a number is as near to a power of ten as half of the last place, and is that power
itself up to the largest one that can be stored. -/
def isPowerOfTen (k : ℕ) : UnpackedFloat → Bool
  | .finite .positive m e _ =>
    let stored := m * 2 ^ e.toNat
    let power := 10 ^ k * 2 ^ (-e).toNat
    decide (Normal m e ∧ power * (2 ^ 53 - 1) ≤ stored * 2 ^ 53 ∧
      stored * 2 ^ 53 ≤ power * (2 ^ 53 + 1) ∧ (k ≤ 22 → stored = power))
  | _ => false

theorem isPowerOfTen_powerOfTen :
    ∀ k < 46, isPowerOfTen k (Numeral.powerOfTen k).toModel.unpack = true := by
  decide +kernel

theorem holds_powerOfTen {k : ℕ} (small : k < 46) :
    ∃ p, Holds (Numeral.powerOfTen k) p ∧ |p - 10 ^ k| ≤ 10 ^ k / 2 ^ 53 ∧
      (k ≤ 22 → p = 10 ^ k) := by
  have check := isPowerOfTen_powerOfTen k small
  rw [isPowerOfTen.eq_def] at check
  split at check
  case h_2 => nomatch check
  case h_1 m e pos unpacked =>
    obtain ⟨normal, low, high, exact⟩ := of_decide_eq_true check
    have unit : (0 : ℚ) < 2 ^ (-e).toNat := by positivity
    have scaled : (m * 2 ^ e : ℚ) * 2 ^ (-e).toNat = (m * 2 ^ e.toNat : ℕ) := by
      rw [mul_assoc, zpow_mul_pow_toNat two_pos]
      push_cast
      rfl
    have cast : ((10 ^ k * 2 ^ (-e).toNat : ℕ) : ℚ) = 10 ^ k * 2 ^ (-e).toNat := by push_cast; rfl
    generalize m * 2 ^ e.toNat = stored at *
    generalize 10 ^ k * 2 ^ (-e).toNat = power at *
    refine ⟨m * 2 ^ e, ⟨m, e, pos, unpacked, normal, rfl⟩, ?_, fun exact' => ?_⟩
    · have low : (power : ℚ) * (2 ^ 53 - 1 : ℕ) ≤ stored * (2 ^ 53 : ℕ) := by exact_mod_cast low
      have high : (stored : ℚ) * (2 ^ 53 : ℕ) ≤ power * (2 ^ 53 + 1 : ℕ) := by exact_mod_cast high
      rw [cast, ← scaled, mul_right_comm, mul_right_comm _ (2 ^ (-e).toNat : ℚ)] at low high
      have low := le_of_mul_le_mul_right low unit
      have high := le_of_mul_le_mul_right high unit
      norm_num at low high ⊢
      exact abs_le.mpr ⟨by linarith, by linarith⟩
    · have exact := exact exact'
      rw [← Nat.cast_inj (R := ℚ), ← scaled, cast] at exact
      exact mul_right_cancel₀ unit.ne' exact

theorem Holds.isInf (holds : Holds x w) : x.isInf = false := by
  obtain ⟨m, e, pos, unpacked, -⟩ := holds
  show x.toModel.unpack.isInf = false
  rw [unpacked]
  rfl

/-- The error of two roundings, one after the other. -/
def Close (w v : ℚ) : Prop := |w - v| ≤ v / (2 ^ 52 - 1)

/-- What is made of a number that has at most 53 bits and a power of ten. If the power can be
stored, the result is nearest; if not, it is still close. -/
structure Scaled (w : ℚ) (n : ℕ) (e : ℤ) : Prop where
  close : Close w (n * 10 ^ e)
  nearest (small : e.natAbs ≤ 22) : Nearest w (n * 10 ^ e)

/-- Two numbers within half of the last place of a third one are close. -/
theorem close_of_halves {r : ℚ} (first : |w - r| ≤ r / 2 ^ 53)
    (second : |v - r| ≤ r / 2 ^ 53 ∨ |r - v| ≤ v / 2 ^ 53) : Close w v := by
  rw [Close]
  rw [abs_le] at first
  rw [abs_le, abs_le] at second
  norm_num at first second ⊢
  rw [abs_le]
  rcases second with ⟨low, high⟩ | ⟨low, high⟩
  · constructor <;> linarith
  · constructor <;> linarith

variable {n : ℕ} {p : ℚ}

/-- Divided by what is nearly a power of ten, a number is close to what it should be. -/
theorem scaled_div (negative : e < 0) (near : |p - 10 ^ e.natAbs| ≤ 10 ^ e.natAbs / 2 ^ 53)
    (exact : e.natAbs ≤ 22 → p = 10 ^ e.natAbs) (nearest : Nearest w (n / p)) : Scaled w n e := by
  have value : (n : ℚ) * 10 ^ e = n / 10 ^ e.natAbs := by
    obtain ⟨k, rfl⟩ : ∃ k : ℕ, e = -k := ⟨e.natAbs, by omega⟩
    rw [Int.natAbs_neg, Int.natAbs_natCast, zpow_neg, zpow_natCast, div_eq_mul_inv]
  have positive : (0 : ℚ) < 10 ^ e.natAbs := by positivity
  refine ⟨?_, fun few => ?_⟩
  · rw [value]
    generalize (10 : ℚ) ^ e.natAbs = t at *
    have positive' : 0 < p := by
      have := (abs_le.mp near).1
      norm_num at this
      linarith
    refine close_of_halves nearest.close (.inl ?_)
    have apart : (n : ℚ) / t - n / p = n / p * ((p - t) / t) := by field_simp
    rw [apart, abs_mul, abs_of_nonneg (by positivity), abs_div, abs_of_pos positive,
      div_eq_mul_inv _ ((2 : ℚ) ^ 53)]
    refine mul_le_mul_of_nonneg_left ?_ (by positivity)
    rw [div_le_iff₀ positive, inv_mul_eq_div]
    exact near
  · rwa [value, ← exact few]

theorem scaled_mul (whole : 0 ≤ e) (near : |p - 10 ^ e.natAbs| ≤ 10 ^ e.natAbs / 2 ^ 53)
    (exact : e.natAbs ≤ 22 → p = 10 ^ e.natAbs) (nearest : Nearest w (n * p)) : Scaled w n e := by
  have value : (n : ℚ) * 10 ^ e = n * 10 ^ e.natAbs := by
    obtain ⟨k, rfl⟩ := Int.eq_ofNat_of_zero_le whole
    rw [Int.natAbs_natCast, zpow_natCast]
  refine ⟨?_, fun few => ?_⟩
  · rw [value]
    refine close_of_halves nearest.close (.inr ?_)
    rw [← mul_sub, abs_mul, Nat.abs_cast, mul_div_assoc]
    exact mul_le_mul_of_nonneg_left near (Nat.cast_nonneg n)
  · rwa [value, ← exact few]

/-- A number of at most 53 bits is scaled by a power of ten. -/
theorem scale_eq (pos : 0 < n) (short : n < 2 ^ 53) (small : e.natAbs < 46) :
    ∃ y w, Numeral.scale (UInt64.ofNat n).toFloat e = some y ∧ Holds y w ∧ Scaled w n e := by
  have stored := holds_ofNat pos short
  obtain ⟨p, power, near, exact⟩ := holds_powerOfTen small
  have one : (1 : ℚ) ≤ n := by exact_mod_cast pos
  have top : (n : ℚ) ≤ 2 ^ 53 := by exact_mod_cast short.le
  have half : (1 : ℚ) / 2 ≤ p ∧ p ≤ 2 * 10 ^ 45 := by
    have least : (1 : ℚ) ≤ 10 ^ e.natAbs := one_le_pow₀ (by norm_num)
    have most : (10 : ℚ) ^ e.natAbs ≤ 10 ^ 45 := pow_le_pow_right₀ (by norm_num) (by omega)
    obtain ⟨low, high⟩ := abs_le.mp near
    norm_num at low high
    constructor <;> linarith
  obtain ⟨half, bound⟩ := half
  rw [Numeral.scale, if_neg (by omega)]
  by_cases negative : e < 0
  · have moderate : Moderate (n / p) := by
      refine moderate_of_bounds ?_ ?_
      · rw [div_le_div_iff₀ (by norm_num) (by linarith)]
        norm_num
        linarith
      · rw [div_le_iff₀ (by linarith)]
        norm_num
        linarith
    obtain ⟨w, result, nearest⟩ := holds_div stored power moderate
    rw [if_pos negative]
    exact ⟨_, w, rfl, result, scaled_div negative near exact nearest⟩
  · have moderate : Moderate (n * p) := by
      refine moderate_of_bounds ?_ ?_
      · calc (1 : ℚ) / 2 ^ 200 ≤ 1 * (1 / 2) := by norm_num
          _ ≤ n * p := mul_le_mul one half (by norm_num) (by linarith)
      · calc (n : ℚ) * p ≤ 2 ^ 53 * (2 * 10 ^ 45) :=
              mul_le_mul top bound (by linarith) (by norm_num)
          _ ≤ 2 ^ 250 := by norm_num
    obtain ⟨w, result, nearest⟩ := holds_mul stored power moderate
    have magnitude : e.toNat = e.natAbs := by omega
    rw [if_neg negative, if_pos (by omega), magnitude]
    dsimp only
    rw [result.isInf, if_neg Bool.false_ne_true]
    exact ⟨_, w, rfl, result, scaled_mul (by omega) near exact nearest⟩

end Double

end Retrieval
