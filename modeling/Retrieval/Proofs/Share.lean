import Retrieval.Coordination.Rule
import Retrieval.Proofs.Ranking
import Retrieval.Proofs.Rounding

/-!
# All clauses are the whole

The share of the clauses that matched is one if all of them did, however many there are: although
the number of clauses may have to be rounded, it is divided by what it was rounded to itself.
-/

namespace Retrieval

open Float.Model (Format UnpackedFloat totalExponent)
open Float.Model.UnpackedFloat
open Rounding

namespace Score

variable {x : Score}

theorem number_of_unpacked {s : Sign} {m : ℕ} {e : ℤ} {pos : 0 < m}
    (unpacked : x.unpacked = .finite s m e pos) : x.isNaN = false := by
  rw [← Bool.not_eq_true, isNaN_iff]
  intro beyond
  have exponent := x.exponent_toNat
  have greatest : @unpackExponent .binary32 x.bits.toBitVec = -1#_ := by
    refine BitVec.eq_of_toNat_eq (exponent.trans ?_)
    change _ = 255
    have := x.bits.toNat_lt
    rw [magnitude] at beyond ⊢
    omega
  rw [Score.unpacked, UnpackedFloat.unpack] at unpacked
  dsimp only at unpacked
  rw [if_pos greatest] at unpacked
  split at unpacked <;> cases unpacked

/-- A finite number other than zero is divided by itself without any error: the quotient of the
mantissas, one of them shifted, is a power of two. -/
theorem div_self {s : Sign} {m : ℕ} {e : ℤ} {pos : 0 < m} (number : x.isNaN = false)
    (unpacked : x.unpacked = .finite s m e pos) : x / x = 1 := by
  have quotient : UnpackedFloat.div .binary32 (.finite s m e pos) (.finite s m e pos) =
      roundWithAccuracy .binary32 .positive (2 ^ 24) (-24) .exact := by
    have shifted : m <<< 24 = 2 ^ 24 * m := by rw [Nat.shiftLeft_eq, Nat.mul_comm]
    have core : divCore .binary32 m e m e = (2 ^ 24, -24, .exact) := by
      have target : min (e - e) (Format.binary32.targetExponent
          (totalExponent m e - totalExponent m e)) = -24 := by
        rw [Int.sub_self, Int.sub_self]
        rfl
      rw [divCore, target, Int.sub_self]
      change (m <<< 24 / m, (-24 : ℤ), accuracyOfFraction (m <<< 24 % m) m) = _
      rw [shifted, Nat.mul_div_cancel _ pos, Nat.mul_mod_left]
      rfl
    have sign : s / s = .positive := by cases s <;> rfl
    rw [UnpackedFloat.div, core, sign]
  show combine (· / ·) x x = 1
  rw [combine, number, if_neg Bool.false_ne_true, if_neg Bool.false_ne_true]
  show ofFloat32 (.ofModel (.pack (UnpackedFloat.div .binary32 _ _))) = 1
  rw [unpack_toFloat32 number, unpacked, quotient]
  decide

/-- A positive number rounds to one that is stored with all bits of its mantissa. -/
theorem exists_rounds_ofNat {n : ℕ} (pos : 0 < n) (small : n < 2 ^ 64) :
    ∃ m e, Rounds .binary32 n m e ∧ 2 ^ 23 ≤ m ∧ e < 42 ∧ (n < 2 ^ 24 → (m : ℚ) * 2 ^ e = n) := by
  have one : (1 : ℚ) ≤ n := by exact_mod_cast pos
  have normal : (2 : ℚ) ^ (Format.binary32.minExponent +
      Format.binary32.mantissaBitsWithoutImplicit) ≤ n :=
    le_trans (zpow_le_one_of_nonpos₀ (by norm_num) (by decide)) one
  obtain ⟨m, e, rounds, full, close, exact⟩ := exists_rounds (by linarith) normal
  refine ⟨m, e, rounds, full, ?_, fun short => exact n 0 short (by simp)⟩
  have near : (m : ℚ) * 2 ^ e ≤ 2 * n := by
    have := (abs_le.mp close).2
    have : (n : ℚ) / 2 ^ Format.binary32.mantissaBits ≤ n :=
      div_le_self (by linarith) (one_le_pow₀ (by norm_num))
    linarith
  have top : (n : ℚ) < 2 ^ 64 := by exact_mod_cast small
  have : (2 : ℚ) ^ (23 + e) < 2 ^ (65 : ℤ) := by
    rw [zpow_add₀ (by norm_num)]
    have least : (2 : ℚ) ^ (23 : ℤ) * 2 ^ e ≤ m * 2 ^ e :=
      mul_le_mul_of_nonneg_right (by exact_mod_cast full) (two_zpow_pos e).le
    have : (2 : ℚ) ^ (65 : ℤ) = 2 * 2 ^ 64 := by norm_num
    linarith
  have := (zpow_lt_zpow_iff_right₀ (by norm_num)).mp this
  omega

theorem unpack_one : (Float32.ofBits 0x3f800000).toModel.unpack =
    .finite .positive (2 ^ 23) (-23) (by decide) := by
  rfl

variable {n m : ℕ} {e : ℤ}

/-- Times one, a number with a full mantissa stays what it is. -/
theorem mul_one_eq (rounds : Rounds .binary32 (m * 2 ^ e) m e) (full : 2 ^ 23 ≤ m) (pos : 0 < m) :
    UnpackedFloat.mul .binary32 (.finite .positive m e pos)
      (.finite .positive (2 ^ 23) (-23) (by decide)) = .finite .positive m e pos := by
  refine mul_eq ?_ ?_ pos
  · have bits : (m * 2 ^ 23).log2 = 46 := by
      have bound : m < 2 ^ 24 := rounds.bound
      rw [Nat.log2_eq_iff (by omega)]
      omega
    have least : -149 ≤ e := rounds.least
    rw [totalExponent, bits]
    change e + -23 ≤ max (46 + 1 + (e + -23) - (24 : ℕ)) (-149)
    omega
  · have value : ((m * 2 ^ 23 : ℕ) : ℚ) * 2 ^ (e + -23) = m * 2 ^ e := by
      rw [zpow_add₀ (by norm_num)]
      push_cast
      ring
    rwa [value]

/-- A number with a long mantissa is shifted for room and then rounded. -/
theorem ofScientific_eq (pos₀ : 0 < n) (rounds : Rounds .binary32 n m e) (pos : 0 < m) :
    UnpackedFloat.ofScientific .binary32 n 0 = .finite .positive m e pos := by
  have product : UnpackedFloat.mul .binary32
      (.finite .positive (n <<< 24) (-24) (by rw [Nat.shiftLeft_eq]; omega))
      (.finite .positive 1 0 Nat.one_pos) = .finite .positive m e pos := by
    refine mul_eq ?_ ?_ pos
    · rw [Nat.mul_one, totalExponent, log2_shiftLeft pos₀]
      change (-24 : ℤ) + 0 ≤ max (((n.log2 + 24 : ℕ) : ℤ) + 1 + (-24 + 0) - (24 : ℕ)) (-149)
      omega
    · have value : ((n <<< 24 * 1 : ℕ) : ℚ) * 2 ^ ((-24 : ℤ) + 0) = n := by
        rw [Nat.shiftLeft_eq]
        norm_num
        ring
      rwa [value]
  rw [UnpackedFloat.ofScientific, dif_neg pos₀.ne', if_neg (by norm_num), if_neg (by norm_num),
    if_pos le_rfl]
  exact product

/-- A positive number is stored as the nearest one. Below `2 ^ 23`, that is the number itself. -/
theorem float32_ofNat (pos : 0 < n) (small : n < 2 ^ 64) : ∃ (m : ℕ) (e : ℤ) (pos : 0 < m),
    Float32.ofNat n = .ofModel (.pack (.finite .positive m e pos)) ∧
      UnpackedFloat.unpack .binary32 (UnpackedFloat.pack .binary32 (.finite .positive m e pos)) =
        .finite .positive m e pos := by
  obtain ⟨m, e, rounds, full, bound, exact⟩ := exists_rounds_ofNat pos small
  have pos' : 0 < m := Nat.zero_lt_of_lt full
  have stored : UnpackedFloat.unpack .binary32
      (UnpackedFloat.pack .binary32 (.finite .positive m e pos')) = .finite .positive m e pos' := by
    have least : -149 ≤ e := rounds.least
    refine unpack_pack full rounds.bound ?_ ?_ pos'
    · change 0 < e + (127 : ℕ) + (23 : ℕ)
      omega
    · change e + (127 : ℕ) + (23 : ℕ) + 1 < (256 : ℕ)
      omega
  refine ⟨m, e, pos', ?_, stored⟩
  show Float32.ofScientific n false 0 = _
  rw [Float32.ofScientific]
  by_cases short : n < 2 ^ 23
  · have same := exact (by omega)
    rw [dif_pos ⟨short, by decide⟩]
    show Float32.ofModel (.pack (UnpackedFloat.mul .binary32 (UnpackedFloat.unpack .binary32
      (UnpackedFloat.pack .binary32 (UnpackedFloat.ofUInt64 .binary32 (.ofNat n))))
      (Float32.ofBits 0x3f800000).toModel.unpack)) = _
    rw [ofUInt64_eq pos small rounds pos', stored, unpack_one, mul_one_eq (same ▸ rounds) full]
  · rw [dif_neg (by omega)]
    show Float32.ofModel (.pack (UnpackedFloat.ofScientific .binary32 n 0)) = _
    rw [ofScientific_eq pos rounds pos']

/-- A positive number of 64 bits is rounded to a finite one, which divided by itself is one. -/
theorem ofNat_div_self (pos : 0 < n) (small : n < 2 ^ 64) : ofNat n / ofNat n = 1 := by
  obtain ⟨m, e, pos', stored, same⟩ := float32_ofNat pos small
  have unpacked : (ofNat n).unpacked = .finite .positive m e pos' := by
    rw [ofNat, stored]
    exact same
  exact div_self (number_of_unpacked unpacked) unpacked

end Score

/-- The factor for all clauses matching is one. -/
theorem CoordRule.fraction_self {n : ℕ} (pos : 0 < n) (small : n < 2 ^ 64) :
    fraction.factor n n = 1 := by
  rw [fraction]
  dsimp only
  rw [if_neg pos.ne', Score.ofNat_div_self pos small]

end Retrieval
