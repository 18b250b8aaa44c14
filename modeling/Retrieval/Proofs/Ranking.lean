import Mathlib
import Retrieval.Score

/-!
# Ranks order scores as numbers

Without its sign, the bits of a number count the numbers below it: those with the same exponent are
counted by the fraction, and a higher exponent comes after all of them. So two scores are ordered as
numbers as their ranks are, unless one of them is not a number or a zero with a minus sign.
-/

namespace Retrieval

open Float.Model (Format UnpackedFloat)
open Float.Model.UnpackedFloat

namespace Score

/-- The number that the bits stand for, or that they stand for none. -/
def unpacked (x : Score) : UnpackedFloat := UnpackedFloat.unpack .binary32 x.bits.toBitVec

/-- The bits without the sign. -/
def magnitude (x : Score) : Nat := x.bits.toNat % 2 ^ 31

def sign (x : Score) : Sign := if x.bits.toNat < 2147483648 then .positive else .negative

variable {x y : Score}

theorem exponent_toNat (x : Score) :
    (@unpackExponent .binary32 x.bits.toBitVec).toNat = x.magnitude / 2 ^ 23 := by
  have bound := x.bits.toNat_lt
  change (x.bits.toNat >>> 23) % 2 ^ 8 = x.bits.toNat % 2 ^ 31 / 2 ^ 23
  rw [Nat.shiftRight_eq_div_pow]
  omega

theorem mantissa_toNat (x : Score) :
    (@unpackMantissa .binary32 x.bits.toBitVec).toNat = x.magnitude % 2 ^ 23 := by
  change (x.bits.toNat >>> 0) % 2 ^ 23 = x.bits.toNat % 2 ^ 31 % 2 ^ 23
  rw [Nat.shiftRight_zero]
  omega

theorem sign_eq (x : Score) : Sign.ofBitVec (@unpackSign .binary32 x.bits.toBitVec) = x.sign := by
  have bound := x.bits.toNat_lt
  have field : (@unpackSign .binary32 x.bits.toBitVec).toNat = x.bits.toNat / 2 ^ 31 := by
    change (x.bits.toNat >>> 31) % 2 = _
    rw [Nat.shiftRight_eq_div_pow]
    omega
  rw [Sign.ofBitVec, sign]
  refine if_congr ?_ rfl rfl
  rw [← BitVec.toNat_inj, field]
  show x.bits.toNat / 2 ^ 31 = 0 ↔ _
  omega

theorem isNaN_iff : x.isNaN = true ↔ 255 * 2 ^ 23 < x.magnitude := by
  rw [isNaN, decide_eq_true_iff, UInt32.lt_iff_toNat_lt, UInt32.toNat_and, magnitude]
  show _ < x.bits.toNat &&& (2 ^ 31 - 1) ↔ _
  rw [Nat.and_two_pow_sub_one_eq_mod]
  rfl

theorem magnitude_le (number : x.isNaN = false) : x.magnitude ≤ 255 * 2 ^ 23 := by
  rw [← Bool.not_eq_true, isNaN_iff] at number
  exact Nat.not_lt.mp number

/-- What a sign and the bits beside it stand for. A finite number has as many bits of its
significand as there is room for, or the least exponent. -/
inductive Decodes (s : Sign) (magnitude : Nat) : UnpackedFloat → Prop
  | zero (eq : magnitude = 0) : Decodes s magnitude (.zero s)
  | finite {m : Nat} {e : Int} {pos : 0 < m} (eq : (magnitude : Int) = (e + 149) * 2 ^ 23 + m)
      (bound : m < 2 ^ 24) (full : 2 ^ 23 ≤ m ∨ e = -149) (least : -149 ≤ e) (most : e ≤ 104) :
      Decodes s magnitude (.finite s m e pos)
  | infinity (eq : magnitude = 255 * 2 ^ 23) : Decodes s magnitude (.infinity s)

theorem decodes_unpacked (number : x.isNaN = false) : Decodes x.sign x.magnitude x.unpacked := by
  have range := magnitude_le number
  have exponent := x.exponent_toNat
  have mantissa := x.mantissa_toNat
  have offset : ((@unpackExponent .binary32 x.bits.toBitVec).toNat : Int) -
      (Format.binary32.exponentBias + (23 : Nat)) = (x.magnitude / 2 ^ 23 : Nat) - 150 := by
    rw [exponent]
    rfl
  rw [unpacked, UnpackedFloat.unpack]
  dsimp only
  rw [x.sign_eq, offset]
  by_cases greatest : @unpackExponent .binary32 x.bits.toBitVec = -1#_
  · -- with the greatest exponent, only an infinity is a number
    rw [greatest] at exponent
    change 255 = _ at exponent
    have exact : x.magnitude = 255 * 2 ^ 23 := by omega
    have fraction : @unpackMantissa .binary32 x.bits.toBitVec = 0#_ := by
      rw [← BitVec.toNat_inj, mantissa, exact]
      rfl
    rw [if_pos greatest, if_pos fraction]
    exact .infinity exact
  rw [if_neg greatest]
  have below : x.magnitude / 2 ^ 23 ≠ 255 := fun same =>
    greatest (BitVec.eq_of_toNat_eq (exponent.trans same))
  by_cases least : @unpackExponent .binary32 x.bits.toBitVec = 0#_
  · rw [if_pos least]
    rw [least] at exponent
    change 0 = _ at exponent
    by_cases nothing : @unpackMantissa .binary32 x.bits.toBitVec = 0#_
    · rw [dif_pos nothing]
      rw [nothing] at mantissa
      change 0 = _ at mantissa
      exact .zero (by omega)
    · rw [dif_neg nothing]
      exact .finite (by omega) (by omega) (.inr (by omega)) (by omega) (by omega)
  · -- the bit in front of the fraction is not kept, as it is always set
    rw [if_neg least]
    have above : x.magnitude / 2 ^ 23 ≠ 0 := fun same =>
      least (BitVec.eq_of_toNat_eq (exponent.trans same))
    have significand : (1#1 ++ @unpackMantissa .binary32 x.bits.toBitVec).toNat =
        2 ^ 23 + x.magnitude % 2 ^ 23 := by
      rw [BitVec.toNat_append, mantissa, ← Nat.shiftLeft_add_eq_or_of_lt (by omega)]
      rfl
    exact .finite (by omega) (by omega) (.inl (by omega)) (by omega) (by omega)

/-- The place of a number by its sign and the bits beside it, zero being the place of zero. -/
def place : Sign → Nat → Int
  | .positive, magnitude => magnitude
  | .negative, magnitude => -1 - magnitude

theorem rank_eq (x : Score) : (x.rank : Int) = 2 ^ 31 + place x.sign x.magnitude := by
  have bound := x.bits.toNat_lt
  rw [rank, magnitude, sign]
  by_cases low : x.bits.toNat < 2147483648
  · rw [if_pos low, if_pos low, place]
    omega
  · rw [if_neg low, if_neg low, place]
    omega

/-- No two scores are of the same rank. -/
theorem eq_of_rank_eq (same : x.rank = y.rank) : x = y := by
  obtain ⟨bits⟩ := x
  obtain ⟨bits'⟩ := y
  have := bits.toNat_lt
  have := bits'.toNat_lt
  rw [rank, rank] at same
  dsimp only at same
  obtain rfl : bits = bits' := UInt32.toNat_inj.mp (by split at same <;> split at same <;> omega)
  rfl

theorem compare_sign_eq_lt {s t : Sign} :
    compare s t = .lt ↔ s = .negative ∧ t = .positive := by
  cases s <;> cases t <;> simp [compare]

variable {s t : Sign} {a b : Nat} {u v : UnpackedFloat}

/-- Two numbers are compared by their places, if zeros have a plus sign. -/
theorem compare_eq_lt (first : Decodes s a u) (second : Decodes t b v)
    (plus : s = .negative → a ≠ 0) (plus' : t = .negative → b ≠ 0) :
    u.compare v = some .lt ↔ place s a < place t b := by
  cases s with
  | positive =>
      cases t with
      | positive =>
          -- of two finite numbers, the one with the higher exponent is higher, for its significand
          -- is full; if the exponents are equal, the significands decide
          cases first <;> cases second <;>
            simp only [UnpackedFloat.compare, place, Option.some.injEq, reduceCtorEq, true_iff,
              false_iff, compare_sign_eq_lt, false_and, Ordering.then_eq_lt, Int.compare_eq_lt,
              Int.compare_eq_eq, Nat.compare_eq_lt] <;> omega
      | negative =>
          have nonzero := plus' rfl
          cases first <;> cases second <;>
            simp only [UnpackedFloat.compare, place, Option.some.injEq, reduceCtorEq, false_iff,
              compare_sign_eq_lt, false_and] <;> omega
  | negative =>
      have nonzero := plus rfl
      cases t with
      | positive =>
          cases first <;> cases second <;>
            simp only [UnpackedFloat.compare, place, Option.some.injEq, reduceCtorEq, true_iff,
              compare_sign_eq_lt, and_self] <;> omega
      | negative =>
          have nonzero' := plus' rfl
          cases first <;> cases second <;>
            simp only [UnpackedFloat.compare, place, Option.some.injEq, reduceCtorEq, true_iff,
              false_iff, compare_sign_eq_lt, and_false, Ordering.swap_eq_lt, Ordering.then_eq_gt,
              Int.compare_eq_gt, Int.compare_eq_eq, Nat.compare_eq_gt] <;> omega

/-- Packing a number yields the bits that it was unpacked from. -/
theorem pack_unpacked (number : x.isNaN = false) :
    x.unpacked.pack .binary32 = x.bits.toBitVec := by
  have exponent := x.exponent_toNat
  have mantissa := x.mantissa_toNat
  rw [unpacked, pack_unpack, isNaNBits, if_neg]
  intro both
  obtain ⟨greatest, some⟩ := of_decide_eq_true both
  rw [greatest] at exponent
  change 255 = _ at exponent
  have fraction : x.magnitude % 2 ^ 23 ≠ 0 := fun nothing =>
    some (BitVec.eq_of_toNat_eq (mantissa.trans nothing))
  have range := magnitude_le number
  omega

theorem unpack_toFloat32 (number : x.isNaN = false) : x.toFloat32.toModel.unpack = x.unpacked :=
  congrArg (UnpackedFloat.unpack .binary32) (pack_unpacked number)

theorem lt_iff_compare (number : x.isNaN = false) (number' : y.isNaN = false) :
    x < y ↔ x.unpacked.compare y.unpacked = some .lt := by
  rw [← unpack_toFloat32 number, ← unpack_toFloat32 number']
  show decide (_ = true) = true ↔ _
  rw [decide_eq_true_iff]
  exact beq_iff_eq

/-- A number other than the zero with a minus sign. -/
def Plain (x : Score) : Prop := x.isNaN = false ∧ x.bits ≠ 0x80000000

instance (x : Score) : Decidable x.Plain := inferInstanceAs (Decidable (_ ∧ _))

theorem magnitude_ne_zero (plain : x.Plain) (negative : x.sign = .negative) : x.magnitude ≠ 0 := by
  intro zero
  have bound := x.bits.toNat_lt
  have high : ¬ x.bits.toNat < 2147483648 := fun low => by
    rw [sign, if_pos low] at negative
    nomatch negative
  have same : x.bits.toNat = 2 ^ 31 := by
    rw [magnitude] at zero
    omega
  exact plain.2 (UInt32.toNat_inj.mp same)

/-- Plain numbers are ordered as their ranks. -/
theorem lt_iff_rank_lt (plain : x.Plain) (plain' : y.Plain) : x < y ↔ x.rank < y.rank := by
  rw [lt_iff_compare plain.1 plain'.1, compare_eq_lt (decodes_unpacked plain.1)
    (decodes_unpacked plain'.1) (magnitude_ne_zero plain) (magnitude_ne_zero plain')]
  have rank := x.rank_eq
  have rank' := y.rank_eq
  omega

end Score

end Retrieval
