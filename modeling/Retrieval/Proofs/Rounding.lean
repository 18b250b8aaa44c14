import Mathlib

/-!
# Rounding to the nearest number

A number that is computed exactly is cut off behind the bits that there is room for. Two bits sum up
what is cut off, and they are enough to tell which of the two numbers next to the exact one is
nearest. So the result is the only number that the exact one rounds to.
-/

namespace Retrieval

open Float.Model (Format UnpackedFloat totalExponent)
open Float.Model.UnpackedFloat

namespace Rounding

/-- The natural number that is nearest to a number; halfway between two, the even one. -/
structure IsNearest (v : ℚ) (n : ℕ) : Prop where
  close : |v - n| ≤ 1 / 2
  even : |v - n| = 1 / 2 → n % 2 = 0

/-- The first bit after the mantissa is a half, and the other one tells whether anything follows. -/
def Tells (em : ExtendedMantissa) (v : ℚ) : Prop :=
  ∃ rest : ℚ, 0 ≤ rest ∧ rest < 1 / 2 ∧ (em.stickyBit = true ↔ 0 < rest) ∧
    v = em.mantissa + (if em.roundBit then 1 / 2 else 0) + rest

variable {em : ExtendedMantissa} {v : ℚ} {n : ℕ}

theorem Tells.bounds (tells : Tells em v) : em.mantissa ≤ v ∧ v < em.mantissa + 1 := by
  obtain ⟨rest, least, most, -, rfl⟩ := tells
  split <;> constructor <;> linarith

/-- Cutting off one more bit halves the number. -/
theorem Tells.shiftRightOne (tells : Tells em v) : Tells em.shiftRightOne (v / 2) := by
  obtain ⟨rest, least, most, more, rfl⟩ := tells
  have parts : (em.mantissa : ℚ) = 2 * (em.mantissa / 2 : ℕ) + (em.mantissa % 2 : ℕ) := by
    exact_mod_cast (Nat.div_add_mod em.mantissa 2).symm
  refine ⟨(if em.roundBit then 1 / 4 else 0) + rest / 2, ?_, ?_, ?_, ?_⟩
  · split <;> linarith
  · split <;> linarith
  · cases half : em.roundBit with
    | true => simpa [ExtendedMantissa.shiftRightOne, half] using by linarith
    | false => simpa [ExtendedMantissa.shiftRightOne, half] using more
  · rcases Nat.mod_two_eq_zero_or_one em.mantissa with last | last <;> rw [last] at parts <;>
      simp only [ExtendedMantissa.shiftRightOne, last] <;> split <;> push_cast at parts ⊢ <;>
      simp <;> linarith

theorem Tells.shiftRight (tells : Tells em v) (k : ℕ) : Tells (em >>> k) (v / 2 ^ k) := by
  change Tells (k.repeat ExtendedMantissa.shiftRightOne em) _
  induction k with
  | zero => simpa [Nat.repeat] using tells
  | succ k ih =>
      have next := ih.shiftRightOne
      rwa [div_div, ← pow_succ] at next

theorem eq_of_abs_lt_one {m n : ℕ} (close : |(m : ℚ) - n| < 1) : m = n := by
  obtain ⟨low, high⟩ := abs_lt.mp close
  have below : (m : ℚ) < (n + 1 : ℕ) := by push_cast; linarith
  have above : (n : ℚ) < (m + 1 : ℕ) := by push_cast; linarith
  have := Nat.cast_lt.mp below
  have := Nat.cast_lt.mp above
  omega

theorem IsNearest.le_of_le {u : ℚ} {a : ℕ} (nearest : IsNearest u n) (low : (a : ℚ) ≤ u) :
    a ≤ n := by
  have : (a : ℚ) < (n + 1 : ℕ) := by
    push_cast
    linarith [(abs_le.mp nearest.close).2]
  exact Nat.le_of_lt_succ (Nat.cast_lt.mp this)

theorem IsNearest.le_of_lt {u : ℚ} {a : ℕ} (nearest : IsNearest u n) (high : u < (a : ℕ)) :
    n ≤ a := by
  have : (n : ℚ) < (a + 1 : ℕ) := by
    push_cast
    linarith [(abs_le.mp nearest.close).1]
  exact Nat.le_of_lt_succ (Nat.cast_lt.mp this)

/-- The mantissa is rounded to the natural number that is nearest. -/
theorem Tells.roundedMantissa (tells : Tells em v) (nearest : IsNearest v n) :
    em.roundedMantissa = n := by
  obtain ⟨close, even⟩ := nearest
  obtain ⟨low, high⟩ := abs_le.mp close
  obtain ⟨m, half, more⟩ := em
  obtain ⟨rest, least, most, some, rfl⟩ := tells
  cases half with
  | false =>
      obtain rfl : m = n := eq_of_abs_lt_one (abs_lt.mpr (by
        simp only [Bool.false_eq_true, if_false] at low high
        constructor <;> linarith))
      cases more <;> rfl
  | true =>
      simp only [if_true] at low high even
      cases more with
      | true =>
          have positive : 0 < rest := some.mp rfl
          show m + 1 = n
          exact eq_of_abs_lt_one (abs_lt.mpr (by push_cast; constructor <;> linarith))
      | false =>
          obtain rfl : rest = 0 := le_antisymm (not_lt.mp fun more => nomatch some.mpr more) least
          -- halfway, both neighbours are nearest, and the even one is taken
          have least : (m : ℚ) ≤ n := by linarith
          have most : (n : ℚ) ≤ (m + 1 : ℕ) := by push_cast; linarith
          show m + m % 2 = n
          rcases Nat.le_and_le_add_one_iff.mp ⟨Nat.cast_le.mp least, Nat.cast_le.mp most⟩ with
            rfl | rfl
          · have := even (by norm_num)
            omega
          · have := even (by push_cast; ring_nf; norm_num)
            omega

variable {spec : Format}

theorem mantissaBits_eq (spec : Format) :
    spec.mantissaBits = spec.mantissaBitsWithoutImplicit + 1 :=
  Nat.add_comm ..

/-- Mantissa and exponent as they are stored: all bits of the mantissa are used, unless the exponent
is the least. -/
structure Canonical (spec : Format) (m : ℕ) (e : ℤ) : Prop where
  bound : m < 2 ^ spec.mantissaBits
  least : spec.minExponent ≤ e
  full : 2 ^ spec.mantissaBitsWithoutImplicit ≤ m ∨ e = spec.minExponent

/-- A number is rounded to `m * 2 ^ e` if that is the nearest one. Below the least full mantissa,
numbers are twice as dense. -/
structure Rounds (spec : Format) (v : ℚ) (m : ℕ) (e : ℤ) : Prop extends Canonical spec m e where
  nearest : IsNearest (v / 2 ^ e) m
  dense : m = 2 ^ spec.mantissaBitsWithoutImplicit → spec.minExponent < e →
    (m : ℚ) - 1 / 4 ≤ v / 2 ^ e

/-- A power is a natural number, or one divided by a natural number. -/
theorem zpow_mul_pow_toNat {b : ℚ} (pos : 0 < b) (e : ℤ) :
    b ^ e * b ^ (-e).toNat = b ^ e.toNat := by
  rw [← zpow_natCast, ← zpow_natCast, ← zpow_add₀ pos.ne']
  congr 1
  omega

theorem two_zpow_pos (e : ℤ) : (0 : ℚ) < 2 ^ e := zpow_pos (by norm_num) e

/-- The place of the first bit of a scaled number is bounded by that of the number. -/
theorem place_le {u : ℚ} {a e place : ℤ} (least : (2 : ℚ) ^ place ≤ u * 2 ^ e) (top : u < 2 ^ a) :
    place < a + e := by
  have : (2 : ℚ) ^ place < 2 ^ (a + e) := calc
    _ ≤ u * 2 ^ e := least
    _ < 2 ^ a * 2 ^ e := mul_lt_mul_of_pos_right top (two_zpow_pos e)
    _ = _ := (zpow_add₀ (by norm_num) _ _).symm
  exact (zpow_lt_zpow_iff_right₀ (by norm_num)).mp this

theorem le_place {u : ℚ} {a e place : ℤ} (most : u * 2 ^ e < 2 ^ place) (bottom : 2 ^ a ≤ u) :
    a + e < place := by
  have : (2 : ℚ) ^ (a + e) < 2 ^ place := calc
    _ = 2 ^ a * 2 ^ e := zpow_add₀ (by norm_num) _ _
    _ ≤ u * 2 ^ e := mul_le_mul_of_nonneg_right bottom (two_zpow_pos e).le
    _ < _ := most
  exact (zpow_lt_zpow_iff_right₀ (by norm_num)).mp this

/-- In units of the last place, a number has no more bits than the mantissa has room for. -/
theorem Rounds.lt_two_pow {m : ℕ} {e : ℤ} (rounds : Rounds spec v m e) :
    v / 2 ^ e < 2 ^ (spec.mantissaBitsWithoutImplicit + 1) := by
  have bound := rounds.bound
  rw [mantissaBits_eq] at bound
  have : ((m + 1 : ℕ) : ℚ) ≤ (2 ^ (spec.mantissaBitsWithoutImplicit + 1) : ℕ) :=
    Nat.cast_le.mpr bound
  push_cast at this
  linarith [(abs_le.mp rounds.nearest.close).2]

/-- A number below all full mantissas can only be rounded to the least of them, and it is no farther
away from that than half of what the numbers there are apart. -/
theorem Rounds.eq_of_lt_full {m : ℕ} {e : ℤ} (rounds : Rounds spec v m e)
    (outside : v / 2 ^ e < 2 ^ spec.mantissaBitsWithoutImplicit) (above : spec.minExponent < e) :
    m = 2 ^ spec.mantissaBitsWithoutImplicit ∧
      (2 : ℚ) ^ spec.mantissaBitsWithoutImplicit - 1 / 4 ≤ v / 2 ^ e := by
  have full : 2 ^ spec.mantissaBitsWithoutImplicit ≤ m := rounds.full.resolve_right above.ne'
  have same : m = 2 ^ spec.mantissaBitsWithoutImplicit := by
    refine Nat.le_antisymm ?_ full
    exact rounds.nearest.le_of_lt (by push_cast; exact outside)
  have dense := rounds.dense same above
  rw [same] at dense
  push_cast at dense
  exact ⟨same, dense⟩

/-- With one more bit, it is rounded to the next power of two. -/
theorem isNearest_two_mul {u : ℚ} {p : ℕ} (low : (2 : ℚ) ^ p - 1 / 4 ≤ u) (high : u < 2 ^ p) :
    IsNearest (2 * u) (2 ^ (p + 1)) := by
  constructor
  · push_cast
    rw [abs_le, pow_succ]
    constructor <;> linarith
  · intro _
    simp [pow_succ]

/-- The place of the first bit of a number tells which exponent the number is rounded with: its own,
or the next lower one if it is in the dense range below the least full mantissa. -/
theorem Rounds.targetExponent {m : ℕ} {e total : ℤ} (rounds : Rounds spec v m e)
    (least : (2 : ℚ) ^ (total - 1) ≤ v) (most : v < 2 ^ total) :
    spec.targetExponent total = e ∨
      spec.targetExponent total = e - 1 ∧ spec.minExponent < e ∧
        m = 2 ^ spec.mantissaBitsWithoutImplicit ∧
        IsNearest (v / 2 ^ (e - 1)) (2 ^ spec.mantissaBits) := by
  have floor := rounds.least
  have top := rounds.lt_two_pow
  have dense := rounds.eq_of_lt_full
  have some := spec.hm
  have scaled : v = v / 2 ^ e * 2 ^ e := (div_mul_cancel₀ _ (two_zpow_pos e).ne').symm
  have next : v / 2 ^ (e - 1) = 2 * (v / 2 ^ e) := by
    rw [zpow_sub_one₀ (by norm_num)]
    field_simp
  rw [next, Format.targetExponent, mantissaBits_eq]
  rw [scaled] at least most
  generalize spec.mantissaBitsWithoutImplicit = p at *
  generalize v / 2 ^ e = u at *
  have below : total - 1 < p + 1 + e := place_le least (by exact_mod_cast top)
  push_cast
  by_cases inside : (2 : ℚ) ^ p ≤ u
  · have : (p : ℤ) + e < total := le_place most (by exact_mod_cast inside)
    exact .inl (by omega)
  by_cases last : e = spec.minExponent
  · exact .inl (by omega)
  · have outside : u < 2 ^ p := not_le.mp inside
    have above : spec.minExponent < e := by omega
    obtain ⟨same, near⟩ := dense outside above
    have half : (2 : ℚ) ^ ((p : ℤ) - 1) ≤ u := by
      have : (1 : ℚ) ≤ 2 ^ p := one_le_pow₀ (by norm_num)
      rw [zpow_sub_one₀ (by norm_num), zpow_natCast]
      linarith
    have : total - 1 < p + e := place_le least (by exact_mod_cast outside)
    have : (p : ℤ) - 1 + e < total := le_place most half
    exact .inr ⟨by omega, above, same, isNearest_two_mul near outside⟩

theorem log2_bounds {m : ℕ} (pos : 0 < m) : (2 : ℚ) ^ (m.log2 : ℤ) ≤ m ∧
    (m : ℚ) + 1 ≤ 2 ^ (m.log2 + 1 : ℤ) := by
  constructor
  · exact_mod_cast Nat.log2_self_le pos.ne'
  · exact_mod_cast Nat.lt_log2_self

/-- A number as it is stored is not shifted. -/
theorem Canonical.shiftToTargetExponent {m : ℕ} {e : ℤ} (canonical : Canonical spec m e) :
    shiftToTargetExponent spec m e .exact = (⟨m, false, false⟩, e) := by
  have short : m.log2 < spec.mantissaBits := by
    rcases Nat.eq_zero_or_pos m with rfl | pos
    · rw [Nat.log2_zero, mantissaBits_eq]
      omega
    · exact (Nat.log2_lt pos.ne').mpr canonical.bound
  have least := canonical.least
  have same : (spec.targetExponent (totalExponent m e) - e).toNat = 0 := by
    rw [Format.targetExponent, totalExponent]
    omega
  rw [Float.Model.UnpackedFloat.shiftToTargetExponent, shiftToExponent, same]
  simp only [Int.natCast_zero, add_zero]
  rfl

/-- A mantissa that has been rounded up to one bit too many is shifted by that bit. -/
theorem shiftToTargetExponent_carry {e : ℤ} (least : spec.minExponent < e) :
    shiftToTargetExponent spec (2 ^ spec.mantissaBits) (e - 1) .exact =
      (⟨2 ^ spec.mantissaBitsWithoutImplicit, false, false⟩, e) := by
  have one : (spec.targetExponent (totalExponent (2 ^ spec.mantissaBits) (e - 1)) -
      (e - 1)).toNat = 1 := by
    rw [Format.targetExponent, totalExponent, Nat.log2_two_pow]
    omega
  rw [Float.Model.UnpackedFloat.shiftToTargetExponent, shiftToExponent, one]
  have half : 2 ^ spec.mantissaBits / 2 = 2 ^ spec.mantissaBitsWithoutImplicit ∧
      2 ^ spec.mantissaBits % 2 = 0 := by
    rw [mantissaBits_eq, Nat.pow_succ]
    omega
  have shifted : ExtendedMantissa.ofMantissaAndAccuracy (2 ^ spec.mantissaBits) .exact >>> 1 =
      ⟨2 ^ spec.mantissaBitsWithoutImplicit, false, false⟩ := by
    show ExtendedMantissa.shiftRightOne ⟨2 ^ spec.mantissaBits, false, false⟩ = _
    simp [ExtendedMantissa.shiftRightOne, half]
  rw [shifted]
  simp

/-- The result is what the exact number rounds to, if no bits that there is room for are missing. -/
theorem roundWithAccuracy_eq {s : Sign} {m₀ m : ℕ} {e₀ e : ℤ} {accuracy : Accuracy} (pos₀ : 0 < m₀)
    (tells : Tells (.ofMantissaAndAccuracy m₀ accuracy) v)
    (enough : e₀ ≤ spec.targetExponent (totalExponent m₀ e₀))
    (rounds : Rounds spec (v * 2 ^ e₀) m e) (pos : 0 < m) :
    roundWithAccuracy spec s m₀ e₀ accuracy = .finite s m e pos := by
  have mantissa : (ExtendedMantissa.ofMantissaAndAccuracy m₀ accuracy).mantissa = m₀ := by
    unfold ExtendedMantissa.ofMantissaAndAccuracy
    split <;> rfl
  obtain ⟨low, high⟩ := mantissa ▸ tells.bounds
  obtain ⟨first, last⟩ := log2_bounds pos₀
  have least : (2 : ℚ) ^ (totalExponent m₀ e₀ - 1) ≤ v * 2 ^ e₀ := by
    rw [totalExponent, show (m₀.log2 + 1 + e₀ - 1 : ℤ) = m₀.log2 + e₀ by ring,
      zpow_add₀ (by norm_num)]
    exact mul_le_mul_of_nonneg_right (first.trans low) (two_zpow_pos e₀).le
  have most : v * 2 ^ e₀ < 2 ^ totalExponent m₀ e₀ := by
    rw [totalExponent, zpow_add₀ (by norm_num)]
    exact mul_lt_mul_of_pos_right (high.trans_le last) (two_zpow_pos e₀)
  -- the shift makes the exact number a multiple of the power of two that it is rounded to
  obtain ⟨k, shift⟩ := Int.le.dest enough
  have shifted : Tells (ExtendedMantissa.ofMantissaAndAccuracy m₀ accuracy >>> k)
      (v * 2 ^ e₀ / 2 ^ spec.targetExponent (totalExponent m₀ e₀)) := by
    have := tells.shiftRight k
    rwa [← shift, zpow_add₀ (by norm_num), zpow_natCast, mul_comm ((2 : ℚ) ^ e₀),
      mul_div_mul_right _ _ (two_zpow_pos e₀).ne']
  have count : (spec.targetExponent (totalExponent m₀ e₀) - e₀).toNat = k := by omega
  rw [roundWithAccuracy, Float.Model.UnpackedFloat.shiftToTargetExponent, shiftToExponent, count,
    shift]
  dsimp only
  rcases rounds.targetExponent least most with own | ⟨lower, floor, full, nearest⟩
  · rw [own] at shifted ⊢
    rw [shifted.roundedMantissa rounds.nearest, rounds.toCanonical.shiftToTargetExponent]
    exact dif_neg pos.ne'
  · rw [lower] at shifted ⊢
    rw [shifted.roundedMantissa nearest, shiftToTargetExponent_carry floor]
    subst full
    exact dif_neg pos.ne'

theorem tells_exact (m : ℕ) : Tells (.ofMantissaAndAccuracy m .exact) m :=
  ⟨0, le_refl 0, by norm_num, by simp [ExtendedMantissa.ofMantissaAndAccuracy],
    by simp [ExtendedMantissa.ofMantissaAndAccuracy]⟩

/-- What is left of a division is cut off. -/
theorem tells_fraction (m : ℕ) {part whole : ℕ} (small : part < whole) :
    Tells (.ofMantissaAndAccuracy m (accuracyOfFraction part whole)) (m + part / whole) := by
  have pos : (0 : ℚ) < whole := Nat.cast_pos.mpr (Nat.zero_lt_of_lt small)
  have below : (part : ℚ) < whole := Nat.cast_lt.mpr small
  rw [accuracyOfFraction]
  by_cases none : part = 0
  · rw [if_pos none, none, Nat.cast_zero, zero_div, add_zero]
    exact tells_exact m
  rw [if_neg none]
  have some : (0 : ℚ) < part := Nat.cast_pos.mpr (Nat.pos_of_ne_zero none)
  cases half : compare (2 * part) whole with
  | lt =>
      have half : (2 * part : ℚ) < whole := by exact_mod_cast Nat.compare_eq_lt.mp half
      exact ⟨part / whole, by positivity, by rw [div_lt_div_iff₀ pos two_pos]; linarith,
        by simpa [ExtendedMantissa.ofMantissaAndAccuracy] using by positivity,
        by simp [ExtendedMantissa.ofMantissaAndAccuracy]⟩
  | eq =>
      have half : (2 * part : ℚ) = whole := by exact_mod_cast Nat.compare_eq_eq.mp half
      refine ⟨0, le_refl 0, by norm_num, by simp [ExtendedMantissa.ofMantissaAndAccuracy], ?_⟩
      rw [← half]
      simp only [ExtendedMantissa.ofMantissaAndAccuracy, if_true]
      field_simp
      ring
  | gt =>
      have half : (whole : ℚ) < 2 * part := by exact_mod_cast Nat.compare_eq_gt.mp half
      have more : (1 : ℚ) / 2 < part / whole := by
        rw [div_lt_div_iff₀ two_pos pos]
        linarith
      have less : (part : ℚ) / whole < 1 := (div_lt_one pos).mpr below
      exact ⟨part / whole - 1 / 2, by linarith, by linarith,
        by simpa [ExtendedMantissa.ofMantissaAndAccuracy] using by linarith,
        by simp [ExtendedMantissa.ofMantissaAndAccuracy]⟩

theorem log2_shiftLeft {m : ℕ} (pos : 0 < m) (k : ℕ) : (m <<< k).log2 = m.log2 + k := by
  rw [Nat.shiftLeft_eq, Nat.log2_eq_iff (Nat.mul_pos pos (Nat.two_pow_pos k)).ne']
  constructor
  · rw [Nat.pow_add]
    exact Nat.mul_le_mul_right _ (Nat.log2_self_le pos.ne')
  · rw [Nat.add_right_comm, Nat.pow_add]
    exact Nat.mul_lt_mul_of_pos_right Nat.lt_log2_self (Nat.two_pow_pos k)

/-- Any number is rounded to the nearest one, also if its mantissa is short. -/
theorem round_eq {s : Sign} {m₀ m : ℕ} {e₀ e : ℤ} (pos₀ : 0 < m₀)
    (rounds : Rounds spec (m₀ * 2 ^ e₀) m e) (pos : 0 < m) :
    UnpackedFloat.round spec s m₀ e₀ = .finite s m e pos := by
  rw [UnpackedFloat.round, decreaseExponent]
  dsimp only
  generalize target : spec.targetExponent (totalExponent m₀ e₀) = t
  generalize shift : (e₀ - t).toNat = k
  have same : totalExponent (m₀ <<< k) (e₀ - k) = totalExponent m₀ e₀ := by
    rw [totalExponent, totalExponent, log2_shiftLeft pos₀]
    push_cast
    ring
  have value : ((m₀ <<< k : ℕ) : ℚ) * 2 ^ (e₀ - k) = m₀ * 2 ^ e₀ := by
    rw [Nat.shiftLeft_eq, zpow_sub₀ (by norm_num), zpow_natCast]
    push_cast
    field_simp
  have more : 0 < m₀ <<< k := by
    rw [Nat.shiftLeft_eq]
    exact Nat.mul_pos pos₀ (Nat.two_pow_pos k)
  refine roundWithAccuracy_eq more (tells_exact _) ?_ (value ▸ rounds) pos
  rw [same, target]
  omega

theorem exists_isNearest {u : ℚ} (nonneg : 0 ≤ u) : ∃ n, IsNearest u n := by
  have least := Nat.floor_le nonneg
  have most := Nat.lt_floor_add_one u
  generalize ⌊u⌋₊ = n at least most
  rcases lt_trichotomy u (n + 1 / 2) with below | half | above
  · exact ⟨n, abs_le.mpr ⟨by linarith, by linarith⟩, fun same => by
      rw [abs_of_nonneg (by linarith)] at same
      linarith⟩
  · rcases Nat.mod_two_eq_zero_or_one n with even | odd
    · exact ⟨n, abs_le.mpr ⟨by linarith, by linarith⟩, fun _ => even⟩
    · refine ⟨n + 1, ?_, fun _ => by omega⟩
      push_cast
      exact abs_le.mpr ⟨by linarith, by linarith⟩
  · refine ⟨n + 1, ?_, ?_⟩
    · push_cast
      exact abs_le.mpr ⟨by linarith, by linarith⟩
    · push_cast
      intro same
      rw [abs_of_nonpos (by linarith)] at same
      linarith

/-- A number that needs no more bits than there is room for has its nearest natural number exactly,
in units of the last place. -/
theorem IsNearest.exact {u : ℚ} {n p m : ℕ} {d : ℤ} (nearest : IsNearest u n)
    (full : (2 : ℚ) ^ p ≤ u) (short : m < 2 ^ (p + 1)) (eq : u = m * 2 ^ d) : (n : ℚ) = u := by
  have whole : 0 ≤ d := by
    by_contra negative
    have : (2 : ℚ) ^ d ≤ 2 ^ (-1 : ℤ) := zpow_le_zpow_right₀ (by norm_num) (by omega)
    have : (m : ℚ) * 2 ^ d ≤ m * 2 ^ (-1 : ℤ) := mul_le_mul_of_nonneg_left this (Nat.cast_nonneg m)
    have short : (m : ℚ) < (2 ^ (p + 1) : ℕ) := Nat.cast_lt.mpr short
    rw [Nat.pow_succ] at short
    push_cast at short
    rw [zpow_neg_one] at this
    linarith
  obtain ⟨k, rfl⟩ := Int.eq_ofNat_of_zero_le whole
  have natural : u = (m * 2 ^ k : ℕ) := by
    rw [eq]
    push_cast
    rw [zpow_natCast]
  have close := nearest.close
  rw [natural] at close ⊢
  rw [eq_of_abs_lt_one (close.trans_lt (by norm_num))]

/-- A power of two makes the bits of a number before the point as many as wanted. -/
theorem exists_scaled (pos : 0 < v) (p : ℕ) :
    ∃ (u : ℚ) (t : ℤ), v = u * 2 ^ t ∧ 2 ^ p ≤ u ∧ u < 2 ^ (p + 1) := by
  have first : (2 : ℚ) ^ Int.log 2 v ≤ v := by
    exact_mod_cast Int.zpow_log_le_self (b := 2) (by norm_num) pos
  have last : v < (2 : ℚ) ^ (Int.log 2 v + 1) := by
    exact_mod_cast Int.lt_zpow_succ_log_self (b := 2) (by norm_num) v
  obtain ⟨t, place⟩ : ∃ t, Int.log 2 v = p + t := ⟨Int.log 2 v - p, by ring⟩
  rw [place] at first last
  have unit := two_zpow_pos t
  refine ⟨v / 2 ^ t, t, (div_mul_cancel₀ _ unit.ne').symm, ?_, ?_⟩
  · rwa [le_div_iff₀ unit, ← zpow_natCast, ← zpow_add₀ (by norm_num)]
  · have exponent : ((p + 1 : ℕ) : ℤ) + t = p + t + 1 := by
      push_cast
      ring
    rwa [div_lt_iff₀ unit, ← zpow_natCast, ← zpow_add₀ (by norm_num), exponent]

section

variable {u : ℚ} {t : ℤ}

/-- Rounded to all bits, a number is no farther away than half of the last one. -/
theorem IsNearest.error {p : ℕ} (nearest : IsNearest u n) (low : (2 : ℚ) ^ p ≤ u) :
    |n * 2 ^ t - u * 2 ^ t| ≤ u * 2 ^ t / 2 ^ (p + 1) := by
  have unit := two_zpow_pos t
  rw [← sub_mul, abs_mul, abs_of_pos unit, abs_sub_comm, mul_div_right_comm]
  refine mul_le_mul_of_nonneg_right (nearest.close.trans ?_) unit.le
  rw [pow_succ, div_le_div_iff₀ two_pos (by positivity)]
  linarith

theorem IsNearest.rounds (nearest : IsNearest u n) (least : spec.minExponent ≤ t)
    (low : (2 : ℚ) ^ spec.mantissaBitsWithoutImplicit ≤ u)
    (small : n < 2 ^ (spec.mantissaBitsWithoutImplicit + 1)) : Rounds spec (u * 2 ^ t) n t := by
  have same : u * 2 ^ t / 2 ^ t = u := mul_div_cancel_right₀ _ (two_zpow_pos t).ne'
  have full : 2 ^ spec.mantissaBitsWithoutImplicit ≤ n :=
    nearest.le_of_le (by push_cast; exact low)
  refine ⟨⟨mantissaBits_eq spec ▸ small, least, .inl full⟩, same.symm ▸ nearest, fun first _ => ?_⟩
  rw [same, first]
  push_cast
  linarith

/-- If all bits are set and the number is rounded up, there is one bit too many. The mantissa is
then the least full one, with the next exponent. -/
theorem IsNearest.rounds_carry
    (nearest : IsNearest u (2 ^ (spec.mantissaBitsWithoutImplicit + 1)))
    (least : spec.minExponent ≤ t) :
    Rounds spec (u * 2 ^ t) (2 ^ spec.mantissaBitsWithoutImplicit) (t + 1) := by
  have halved : u * 2 ^ t / 2 ^ (t + 1) = u / 2 := by
    rw [zpow_add_one₀ (by norm_num)]
    field_simp
  have quarter : |u / 2 - (2 ^ spec.mantissaBitsWithoutImplicit : ℕ)| ≤ 1 / 4 := by
    obtain ⟨below, above⟩ := abs_le.mp nearest.close
    push_cast at below above ⊢
    rw [pow_succ] at below above
    exact abs_le.mpr ⟨by linarith, by linarith⟩
  have short : 2 ^ spec.mantissaBitsWithoutImplicit < 2 ^ spec.mantissaBits := by
    rw [mantissaBits_eq]
    exact Nat.pow_lt_pow_succ (by decide)
  refine ⟨⟨short, by omega, .inl (le_refl _)⟩, ?_, fun _ _ => ?_⟩
  · rw [halved]
    exact ⟨quarter.trans (by norm_num), fun same => by linarith⟩
  · rw [halved]
    linarith [(abs_le.mp quarter).1]

end

/-- A number that is not too small is rounded to one with a full mantissa, which is no farther away
than half of the last place, and not at all if the number itself needs no more bits. -/
theorem exists_rounds (pos : 0 < v)
    (normal : (2 : ℚ) ^ (spec.minExponent + spec.mantissaBitsWithoutImplicit) ≤ v) :
    ∃ m e, Rounds spec v m e ∧ 2 ^ spec.mantissaBitsWithoutImplicit ≤ m ∧
      |m * 2 ^ e - v| ≤ v / 2 ^ spec.mantissaBits ∧
      ∀ (m' : ℕ) (e' : ℤ), m' < 2 ^ spec.mantissaBits → v = m' * 2 ^ e' → m * 2 ^ e = v := by
  obtain ⟨u, t, rfl, low, high⟩ := exists_scaled pos spec.mantissaBitsWithoutImplicit
  have least : spec.minExponent ≤ t := by
    have := place_le normal (u := u) (a := spec.mantissaBitsWithoutImplicit + 1)
      (by exact_mod_cast high)
    omega
  obtain ⟨n, nearest⟩ := exists_isNearest (le_trans (by positivity) low)
  have error := nearest.error (t := t) low
  have exact : ∀ (m' : ℕ) (e' : ℤ), m' < 2 ^ spec.mantissaBits → u * 2 ^ t = m' * 2 ^ e' →
      (n : ℚ) * 2 ^ t = u * 2 ^ t := fun m' e' short same => by
    have : u = m' * 2 ^ (e' - t) := by
      rw [zpow_sub₀ (by norm_num), ← mul_div_assoc, ← same,
        mul_div_cancel_right₀ _ (two_zpow_pos t).ne']
    rw [nearest.exact low (mantissaBits_eq spec ▸ short) this]
  rw [← mantissaBits_eq] at error
  by_cases small : n < 2 ^ (spec.mantissaBitsWithoutImplicit + 1)
  · exact ⟨n, t, nearest.rounds least low small, nearest.le_of_le (by push_cast; exact low), error,
      exact⟩
  · obtain rfl : n = 2 ^ (spec.mantissaBitsWithoutImplicit + 1) :=
      Nat.le_antisymm (nearest.le_of_lt (by push_cast; exact high)) (Nat.not_lt.mp small)
    have carry : ((2 ^ spec.mantissaBitsWithoutImplicit : ℕ) : ℚ) * 2 ^ (t + 1) =
        (2 ^ (spec.mantissaBitsWithoutImplicit + 1) : ℕ) * 2 ^ t := by
      rw [zpow_add_one₀ (by norm_num)]
      push_cast
      ring
    exact ⟨_, t + 1, nearest.rounds_carry least, le_refl _, carry ▸ error, carry ▸ exact⟩

/-- A natural number of 64 bits is rounded. -/
theorem ofUInt64_eq {n m : ℕ} {e : ℤ} (pos₀ : 0 < n) (small : n < 2 ^ 64)
    (rounds : Rounds spec n m e) (pos : 0 < m) :
    UnpackedFloat.ofUInt64 spec (UInt64.ofNat n) = .finite .positive m e pos := by
  have number : (UInt64.ofNat n).toNat = n := by
    rw [UInt64.toNat_ofNat']
    omega
  rw [ofUInt64, number, UnpackedFloat.ofNat, ofInt, UnpackedFloat.normalize,
    Int.compare_eq_gt.mpr (Int.natCast_pos.mpr pos₀)]
  refine round_eq pos₀ ?_ pos
  rwa [zpow_zero, mul_one]

/-- A product is rounded, if no bits that there is room for are missing. -/
theorem mul_eq {m m₁ m₂ : ℕ} {e e₁ e₂ : ℤ} {pos₁ : 0 < m₁} {pos₂ : 0 < m₂}
    (enough : e₁ + e₂ ≤ spec.targetExponent (totalExponent (m₁ * m₂) (e₁ + e₂)))
    (rounds : Rounds spec ((m₁ * m₂ : ℕ) * 2 ^ (e₁ + e₂)) m e) (pos : 0 < m) :
    UnpackedFloat.mul spec (.finite .positive m₁ e₁ pos₁) (.finite .positive m₂ e₂ pos₂) =
      .finite .positive m e pos :=
  roundWithAccuracy_eq (Nat.mul_pos pos₁ pos₂) (tells_exact _) enough rounds pos

/-- A number with a full mantissa is unpacked as it was packed, if there is an exponent for it other
than the least and the greatest one. -/
theorem unpack_pack {s : Sign} {m : ℕ} {e : ℤ} (full : 2 ^ spec.mantissaBitsWithoutImplicit ≤ m)
    (bound : m < 2 ^ (spec.mantissaBitsWithoutImplicit + 1))
    (least : 0 < e + spec.exponentBias + spec.mantissaBitsWithoutImplicit)
    (most : e + spec.exponentBias + spec.mantissaBitsWithoutImplicit + 1 < 2 ^ spec.exponentBits)
    (pos : 0 < m) :
    UnpackedFloat.unpack spec (UnpackedFloat.pack spec (.finite s m e pos)) =
      .finite s m e pos := by
  have bits : m.log2 = spec.mantissaBitsWithoutImplicit :=
    (Nat.log2_eq_iff pos.ne').mpr ⟨full, bound⟩
  obtain ⟨b, biased⟩ := Int.eq_ofNat_of_zero_le least.le
  rw [biased] at least most
  have range : b + 1 < 2 ^ spec.exponentBits := by exact_mod_cast most
  have place : (BitVec.ofNat spec.exponentBits b).toNat = b :=
    Nat.mod_eq_of_lt (Nat.lt_of_succ_lt range)
  have notZero : BitVec.ofNat spec.exponentBits b ≠ 0#_ := fun same => by
    rw [same, BitVec.toNat_ofNat, Nat.zero_mod] at place
    omega
  have notAll : BitVec.ofNat spec.exponentBits b ≠ -1#_ := fun same => by
    rw [same, BitVec.neg_one_eq_allOnes, BitVec.toNat_allOnes] at place
    omega
  have mantissa : (1#1 ++ BitVec.ofNat spec.mantissaBitsWithoutImplicit m).toNat = m := by
    have rest : m % 2 ^ spec.mantissaBitsWithoutImplicit =
        m - 2 ^ spec.mantissaBitsWithoutImplicit := by
      rw [Nat.pow_succ] at bound
      rw [Nat.mod_eq_sub_mod full, Nat.mod_eq_of_lt (by omega)]
    rw [BitVec.toNat_append, ← Nat.shiftLeft_add_eq_or_of_lt (BitVec.isLt _), BitVec.toNat_ofNat,
      BitVec.toNat_ofNat, Nat.shiftLeft_eq, rest]
    omega
  have packed : UnpackedFloat.pack spec (.finite s m e pos) =
      packComponents spec s (BitVec.ofNat _ b) (BitVec.ofNat _ m) := by
    rw [UnpackedFloat.pack, biased, Int.toNat_natCast, bits, if_neg (by omega),
      if_pos (mantissaBits_eq spec).symm]
  rw [packed, UnpackedFloat.unpack]
  simp only [unpackMantissa_packComponents, unpackExponent_packComponents,
    unpackSign_packComponents, Sign.ofBitVec_toBitVec]
  rw [if_neg notAll, if_neg notZero]
  simp only [UnpackedFloat.finite.injEq, true_and]
  exact ⟨mantissa, by omega⟩

end Rounding

end Retrieval
