import Retrieval.Json.Record
import Retrieval.Proofs.Legibility
import Retrieval.Proofs.Reading
import Retrieval.Proofs.Restoration

/-!
# Scores are read as they are written

A finite score is written by its shortest decimal. What that amounts to is computed with 64 bits and
then rounded to 32, and it comes out as the score again. The few scores next to which this might go
wrong are looked at one by one.
-/

namespace Retrieval

open Float.Model (UnpackedFloat)
open Float.Model.UnpackedFloat
open Rounding Separation Double

namespace Score

variable {x : Score}

theorem isFinite_iff : x.IsFinite ↔ x.magnitude < 255 * 2 ^ 23 := by
  rw [IsFinite, UInt32.lt_iff_toNat_lt, UInt32.toNat_and, magnitude]
  show x.bits.toNat &&& (2 ^ 31 - 1) < _ ↔ _
  rw [Nat.and_two_pow_sub_one_eq_mod]
  rfl

theorem IsFinite.number (finite : x.IsFinite) : x.isNaN = false := by
  rw [← Bool.not_eq_true, isNaN_iff, Nat.not_lt]
  exact (isFinite_iff.mp finite).le

/-- A number is made of what it was taken apart into. -/
theorem ofFloat32_pack_unpacked (number : x.isNaN = false) :
    ofFloat32 (.ofModel (.pack x.unpacked)) = x := by
  show (⟨UInt32.ofBitVec (x.unpacked.pack .binary32)⟩ : Score) = x
  rw [pack_unpacked number]

end Score

namespace Double

/-- What is stored, with a sign or without, becomes what it is rounded to. -/
theorem Holds.narrow_signed {n : Numeral} {y : Float} {w : ℚ} {s : Sign} {m : ℕ} {e : ℤ}
    (holds : Holds y w) (rounds : Rounds .binary32 w m e) (pos : 0 < m)
    (sign : n.negative = true ↔ s = .negative) :
    narrow (n.signed y) = .ofFloat32 (.ofModel (.pack (.finite s m e pos))) := by
  obtain ⟨m₀, e₀, pos₀, unpacked, normal, rfl⟩ := holds
  have read : UnpackedFloat.unpack .binary64 (n.signed y).toBits.toBitVec =
      .finite s m₀ e₀ pos₀ := by
    rw [Numeral.signed]
    cases s with
    | positive =>
        rw [if_neg (by simp [sign])]
        exact unpacked
    | negative =>
        rw [if_pos (sign.mpr rfl)]
        show UnpackedFloat.unpack .binary64 (UnpackedFloat.pack .binary64 y.toModel.unpack.neg) = _
        rw [unpacked]
        exact normal.unpack_pack pos₀
  rw [narrow, read]
  dsimp only
  rw [round_eq pos₀ rounds pos]

end Double

namespace Decimal.Magnitude

variable {v : Magnitude} {n : Numeral} {s : Sign}

/-- What the shortest decimal of a number amounts to is rounded to the number. -/
theorem exists_narrow (canonical : v.Canonical) (usual : ¬ v.IsHard)
    (writes : n.Writes (v.shortest .even)) (sign : n.negative = true ↔ s = .negative) :
    ∃ y, n.value? = some (.float y) ∧
      narrow y = .ofFloat32 (.ofModel (.pack (.finite s v.mantissa v.exponent canonical.pos))) := by
  obtain ⟨c, k, shortest, low, high, found, pos, few⟩ := shortest_spec canonical .even
  rw [shortest] at writes
  have value : (n.significand : ℚ) * 10 ^ n.places = c * 10 ^ k := writes.value
  have short : n.significand < 2 ^ 53 := writes.short (few.trans (by decide))
  have places : n.places.natAbs ≤ max 1 k.natAbs := writes.natAbs_places_le
  have small : n.places.natAbs < 46 := by omega
  obtain ⟨y, w, scaled, holds, result⟩ := scale_eq (writes.pos pos) short small
  have close := result.close
  have nearest := result.nearest
  rw [value] at close nearest
  have exact : ∀ {b m q}, IsEnd b m q → c * 10 ^ k = b → w = c * 10 ^ k := fun isEnd same => by
    have := isEnd.natAbs_le same pos few
    have room : denominators < 2 ^ 53 := by decide
    exact (nearest (by omega)).exact _ _ (isEnd.small.trans room) (same.trans isEnd.eq)
  have inside : v.Inside w := .of_close canonical usual low high found pos close fun ends => by
    rcases ends with lower | upper
    · obtain ⟨m, q, isEnd⟩ := exists_isLowerEnd canonical
      exact exact isEnd.toIsEnd lower
    · exact exact (isEnd_upper canonical) upper
  refine ⟨n.signed y, ?_, holds.narrow_signed (inside.rounds canonical) canonical.pos sign⟩
  rw [Numeral.value?_eq writes.broken, Numeral.float?_eq (short.trans (by decide)) writes.moderate,
    scaled]
  rfl

end Decimal.Magnitude

namespace Json

variable {x : Score}

/-- A finite score other than zero is written by its shortest decimal. -/
theorem ofScore_finite {s : Sign} {m : ℕ} {e : ℤ} {pos : 0 < m}
    (unpacked : x.unpacked = .finite s m e pos)
    (canonical : (⟨m, e⟩ : Decimal.Magnitude).Canonical) :
    ∃ n : Numeral, ofScore x = .number n ∧ (n.negative = true ↔ s = .negative) ∧
      n.Writes (Decimal.Magnitude.shortest ⟨m, e⟩ .even) := by
  obtain ⟨c, k, shortest, low, high, -, positive, few⟩ :=
    Decimal.Magnitude.shortest_spec canonical .even
  have unpacked : unpack x = .finite s m e pos := unpacked
  have length := pow_length_digits_le positive
  have length : (digits c).length - 1 < 9 :=
    (Nat.pow_lt_pow_iff_right (a := 10) (by decide)).mp (length.trans_lt (few.trans (by decide)))
  rw [ofScore]
  simp only [unpacked, shortest]
  by_cases plain : -6 ≤ k + (digits c).length - 1 ∧ k + (digits c).length - 1 ≤ 12
  · rw [if_pos plain]
    refine ⟨_, rfl, ?_, Decimal.writes_plain (d := ⟨c, k⟩) positive plain.2⟩
    cases s <;> simp
  · rw [if_neg plain]
    refine ⟨_, rfl, ?_, Decimal.writes_scientific (d := ⟨c, k⟩) positive ?_⟩
    · cases s <;> simp
    · rw [Numeral.maxExponent]
      dsimp only
      omega

/-- The two zeros, and the scores next to the fractions that come too near to an end of their
interval, by the bits. -/
def exceptions : List ℕ :=
  [0, 2 ^ 31].flatMap fun sign => sign :: [42, 43].flatMap fun exponent =>
    [11420669, 11420670].map fun mantissa => sign + exponent * 2 ^ 23 + mantissa

theorem score?_ofScore_exceptions : ∀ b ∈ exceptions,
    (ofScore ⟨.ofNat b⟩).score? = some ⟨.ofNat b⟩ := by
  decide +kernel

/-- A finite score is read back from what it is written as. -/
theorem score?_ofScore (finite : x.IsFinite) : (ofScore x).score? = some x := by
  have range := Score.isFinite_iff.mp finite
  have bits : x.bits.toNat = x.magnitude ∨ x.bits.toNat = 2 ^ 31 + x.magnitude := by
    have := x.bits.toNat_lt
    rw [Score.magnitude]
    omega
  have exception (listed : x.bits.toNat ∈ exceptions) : (ofScore x).score? = some x := by
    have := score?_ofScore_exceptions _ listed
    rwa [UInt32.ofNat_toNat] at this
  have decodes := Score.decodes_unpacked finite.number
  generalize unpacked : x.unpacked = u at decodes
  cases decodes with
  | zero eq =>
      refine exception ?_
      rw [eq] at bits
      rcases bits with bits | bits <;> rw [bits] <;> decide
  | infinity eq => omega
  | @finite m e pos eq bound full least most =>
      have canonical : (⟨m, e⟩ : Decimal.Magnitude).Canonical := ⟨pos, bound, least, most, full⟩
      by_cases hard : (⟨m, e⟩ : Decimal.Magnitude).IsHard
      · refine exception ?_
        obtain ⟨mantissa, exponent⟩ := hard
        dsimp only at mantissa exponent
        simp [exceptions]
        omega
      · obtain ⟨n, written, sign, writes⟩ := ofScore_finite unpacked canonical
        obtain ⟨y, value, narrowed⟩ :=
          Decimal.Magnitude.exists_narrow canonical hard writes sign
        rw [written, score?, number?, value, Option.map_some, Number.toScore, narrowed, ← unpacked,
          Score.ofFloat32_pack_unpacked finite.number]

/-- A finite score is written as a number. -/
theorem exists_ofScore (finite : x.IsFinite) :
    ∃ n : Numeral, IsWhole n.whole ∧ ofScore x = .number n := by
  have decodes := Score.decodes_unpacked finite.number
  generalize unpacked : x.unpacked = u at decodes
  cases decodes with
  | zero eq =>
      have unpacked : unpack x = .zero x.sign := unpacked
      rw [ofScore, unpacked]
      exact ⟨_, ⟨List.cons_ne_nil _ _, .inl rfl⟩, rfl⟩
  | infinity eq =>
      have := Score.isFinite_iff.mp finite
      omega
  | @finite m e pos eq bound full least most =>
      obtain ⟨n, written, -, writes⟩ := ofScore_finite unpacked ⟨pos, bound, least, most, full⟩
      exact ⟨n, writes.proper, written⟩

end Json

end Retrieval
