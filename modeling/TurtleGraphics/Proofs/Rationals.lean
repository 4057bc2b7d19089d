import Mathlib
import TurtleGraphics.Proofs.Angles

namespace TurtleGraphics

/-! # Exact scalars

The geometry is written over scalars, so it can be read with exact arithmetic in place of that of
doubles: over the rational numbers, where nothing is rounded and every scalar is a number.

* `count_ceil_of_exact`: doubles below `2 ^ 64` are rounded up and counted without loss.
* `ExactReading`: what exact arithmetic leaves open. Half a turn, sines and cosines are no rationals,
  so they may be anything here, and what is proved does not depend on them.
* `Scalar ℚ`: the rationals as scalars, for any such reading.
* `Scalar.wrapDegrees_eq_iff`: an angle brought into one turn is the only one in `[0, 360)` that is
  congruent to it.
-/

/-! ## Counting doubles -/

namespace Binary64

open Float.Model Float.Model.UnpackedFloat

/-- Whole units are what is left when the digits behind the point are cut off. -/
theorem roundToInt_positive (m : ℕ) (e : ℤ) :
    roundToInt .positive m e = ((m <<< e.toNat / 2 ^ (-e).toNat : ℕ) : ℤ) := by
  have hshift : (0 - (e - ((e - 0).toNat : ℤ))).toNat = (-e).toNat := by omega
  simp only [roundToInt, decreaseExponent, shiftToExponent, hshift, shiftRight_mantissa]
  simp [Sign.apply, ofMantissaAndAccuracy_mantissa]

theorem toNat_toUInt64 {x : Float} {m : ℕ} {e : ℤ} {hm : 0 < m}
    (hx : exact x = .finite .positive m e hm) (hlt : m <<< e.toNat / 2 ^ (-e).toNat < 2 ^ 64) :
    x.toUInt64.toNat = m <<< e.toNat / 2 ^ (-e).toNat := by
  show (UInt64.ofNatClamp ((exact x).toInt 0 (UInt64.size - 1)).toNat).toNat = _
  rw [hx, toInt, roundToInt_positive, Int.toNat_natCast, UInt64.ofNatClamp]
  split
  · rfl
  · exact absurd hlt ‹_›

theorem ceil_fraction {m : ℕ} (hm : 0 < m) (k : ℕ) :
    ⌈(m : ℚ) * 2 ^ (-(k : ℤ))⌉₊ = (m + 2 ^ k - 1) / 2 ^ k := by
  have hunit : 0 < 2 ^ k := by positivity
  have hpos : 0 < (m + 2 ^ k - 1) / 2 ^ k := Nat.div_pos (by omega) hunit
  have hbelow : ((m + 2 ^ k - 1) / 2 ^ k - 1) * 2 ^ k < m := by
    have := Nat.div_mul_le_self (m + 2 ^ k - 1) (2 ^ k)
    rw [Nat.sub_mul]
    omega
  have habove : m ≤ (m + 2 ^ k - 1) / 2 ^ k * 2 ^ k := by
    have := Nat.lt_div_mul_add (a := m + 2 ^ k - 1) hunit
    omega
  rw [zpow_neg, zpow_natCast, ← div_eq_mul_inv, Nat.ceil_eq_iff hpos.ne',
    lt_div_iff₀ (by positivity), div_le_iff₀ (by positivity)]
  exact ⟨by exact_mod_cast hbelow, by exact_mod_cast habove⟩

/-- A positive double below `2 ^ 64`, rounded up, is counted exactly. Doubles that large are whole, so
none of them is rounded up to `2 ^ 64`, which would be cut off. -/
theorem count_ceil_of_exact {x : Float} {m : ℕ} {e : ℤ} {hm : 0 < m}
    (hx : exact x = .finite .positive m e hm) (hlt : (m : ℚ) * 2 ^ e < 2 ^ 64) :
    Scalar.count (Scalar.ceil x) = ⌈(m : ℚ) * 2 ^ e⌉₊ := by
  show (ceil x).toUInt64.toNat = _
  by_cases he : 0 ≤ e
  · -- the double is whole already
    rcases Int.eq_ofNat_of_zero_le he with ⟨k, rfl⟩
    have hvalue : (m : ℚ) * 2 ^ (k : ℤ) = ((m <<< k : ℕ) : ℚ) := by
      rw [Nat.shiftLeft_eq]
      push_cast
      rw [zpow_natCast]
    have hceil : ceil x = x := by
      simp only [ceil, hx, he, if_true]
    rw [hvalue] at hlt ⊢
    have hless : m <<< k < 2 ^ 64 := by exact_mod_cast hlt
    rw [hceil, Nat.ceil_natCast, toNat_toUInt64 hx (by simpa using hless)]
    simp
  · obtain ⟨k, rfl⟩ : ∃ k : ℕ, e = -(k : ℤ) := ⟨(-e).toNat, by omega⟩
    have hshort := (exact_finite hx).lt
    have hceil : ceil x = nearest .positive ((m + 2 ^ k - 1) / 2 ^ k) 0 := by
      simp only [ceil, hx, he, if_false, neg_neg, Int.toNat_natCast]
      rfl
    have hunit : 2 ^ 1 ≤ 2 ^ k := Nat.pow_le_pow_right (by decide) (by omega)
    have hpos : 0 < (m + 2 ^ k - 1) / 2 ^ k := Nat.div_pos (by omega) (by omega)
    have hless : (m + 2 ^ k - 1) / 2 ^ k < 2 ^ 53 := Nat.div_lt_of_lt_mul (by omega)
    rw [ceil_fraction hm k, hceil]
    generalize (m + 2 ^ k - 1) / 2 ^ k = n at hpos hless
    rcases exact_nearest_whole hpos hless with ⟨j, hj, hexact⟩
    have hvalue : n <<< j <<< (0 - (j : ℤ)).toNat / 2 ^ (-(0 - (j : ℤ))).toNat = n := by
      have hzero : (0 - (j : ℤ)).toNat = 0 := by omega
      have hshift : (-(0 - (j : ℤ))).toNat = j := by omega
      rw [hzero, hshift, Nat.shiftLeft_zero, Nat.shiftLeft_eq, Nat.mul_div_cancel _ (by positivity)]
    rw [toNat_toUInt64 hexact (by omega), hvalue]
end Binary64

/-! ## The rationals as scalars -/

/-- What is left open when the scalars are rational numbers. -/
class ExactReading where
  /-- Half a turn in radians. -/
  halfTurn : ℚ
  sine : ℚ → ℚ
  cosine : ℚ → ℚ
  /-- A whole number as a count. -/
  count : ℚ → ℕ
  /-- A number below `2 ^ 64`, rounded up, is counted exactly, as doubles are
  (`Binary64.count_ceil_of_exact`). What is greater may be cut off. -/
  count_ceil : ∀ x : ℚ, 0 ≤ x → x < 2 ^ 64 → count ⌈x⌉ = ⌈x⌉₊

/-- A reading for turtles that look nearly to the right, where the first terms of their series are
close to sine and cosine. -/
abbrev ExactReading.nearlyRight : ExactReading where
  halfTurn := 355 / 113
  sine x := x - x ^ 3 / 6
  cosine x := 1 - x ^ 2 / 2
  count x := ⌊x⌋₊
  count_ceil x hx _ := by rw [← Int.natCast_ceil_eq_ceil hx, Int.cast_natCast, Nat.floor_natCast]

instance [ExactReading] : Scalar ℚ where
  nat n := n
  lt x y := decide (x < y)
  le x y := decide (x ≤ y)
  eq x y := decide (x = y)
  abs x := |x|
  ceil x := ⌈x⌉
  count := ExactReading.count
  emod x y := x - |y| * ⌊x / |y|⌋
  pi := ExactReading.halfTurn
  sin := ExactReading.sine
  cos := ExactReading.cosine
  shorter x y d := decide (0 < d ∧ x * x + y * y < d * d)

namespace Scalar

theorem turn_pos : (0 : ℚ) < 360 := by norm_num

variable [ExactReading]

/-! ## Order -/

theorem smaller_eq_min (x y : ℚ) : smaller x y = min x y := by
  have hsmaller : smaller x y = if x < y then x else y := by
    unfold smaller
    simp only [eq, lt, decide_true, if_true, decide_eq_true_eq]
  rw [hsmaller]
  split
  · exact (min_eq_left (le_of_lt ‹_›)).symm
  · exact (min_eq_right (le_of_not_gt ‹_›)).symm

theorem larger_eq_max (x y : ℚ) : larger x y = max x y := by
  have hlarger : larger x y = if y < x then x else y := by
    unfold larger
    simp only [eq, lt, decide_true, if_true, decide_eq_true_eq]
  rw [hlarger]
  split
  · exact (max_eq_left (le_of_lt ‹_›)).symm
  · exact (max_eq_right (le_of_not_gt ‹_›)).symm

/-- Clamping changes nothing inside the interval. -/
theorem clamp_of_mem {low high x : ℚ} (hlow : low ≤ x) (hhigh : x ≤ high) :
    clamp low high x = x := by
  unfold clamp
  simp only [lt, decide_eq_true_eq, if_neg (not_lt_of_ge hlow), if_neg (not_lt_of_ge hhigh)]

/-! ## Angles -/

/-- An angle is brought into one turn by taking whole turns away, or adding them. -/
theorem wrapDegrees_eq_toIcoMod (x : ℚ) : wrapDegrees x = toIcoMod turn_pos 0 x := by
  have hremainder : emod x (nat 360) = toIcoMod turn_pos 0 x := by
    have hturn : |((360 : ℕ) : ℚ)| = 360 := by norm_num
    show x - |((360 : ℕ) : ℚ)| * ⌊x / |((360 : ℕ) : ℚ)|⌋ = toIcoMod turn_pos 0 x
    rw [hturn, toIcoMod, toIcoDiv_eq_floor, sub_zero, zsmul_eq_mul, mul_comm]
  have hlt : ¬ 360 ≤ toIcoMod turn_pos 0 x := by
    have hmem := (toIcoMod_mem_Ico' turn_pos x).2
    exact not_le_of_gt hmem
  unfold wrapDegrees
  rw [hremainder]
  exact if_neg (by simpa [le, nat] using hlt)

/-- The angle from 0 on and below 360 that is congruent to another one is unique. -/
theorem wrapDegrees_eq_iff {x y : ℚ} :
    wrapDegrees x = y ↔ 0 ≤ y ∧ y < 360 ∧ y ≡ x [PMOD 360] := by
  rw [wrapDegrees_eq_toIcoMod, toIcoMod_eq_iff, zero_add, Set.mem_Ico, and_assoc,
    AddCommGroup.modEq_iff_zsmul]
  constructor
  · rintro ⟨hnonneg, hlt, k, hk⟩
    refine ⟨hnonneg, hlt, k, ?_⟩
    rw [hk, add_sub_cancel_left]
  · rintro ⟨hnonneg, hlt, k, hk⟩
    refine ⟨hnonneg, hlt, k, ?_⟩
    rw [hk, add_sub_cancel]

theorem wrapDegrees_modEq (x : ℚ) : wrapDegrees x ≡ x [PMOD 360] :=
  (wrapDegrees_eq_iff.mp rfl).2.2

/-- Angles that are congruent are brought to the same place. -/
theorem wrapDegrees_congr {x y : ℚ} (h : x ≡ y [PMOD 360]) : wrapDegrees x = wrapDegrees y := by
  rcases wrapDegrees_eq_iff.mp (rfl : wrapDegrees x = _) with ⟨hnonneg, hlt, hmod⟩
  exact (wrapDegrees_eq_iff.mpr ⟨hnonneg, hlt, hmod.trans h⟩).symm

/-- Whole turns may be left out before an addition. -/
theorem wrapDegrees_wrap_add (x y : ℚ) : wrapDegrees (wrapDegrees x + y) = wrapDegrees (x + y) :=
  wrapDegrees_congr ((wrapDegrees_modEq x).add_right y)

theorem wrapDegrees_of_mem {x : ℚ} (hnonneg : 0 ≤ x) (hlt : x < 360) : wrapDegrees x = x :=
  wrapDegrees_eq_iff.mpr ⟨hnonneg, hlt, AddCommGroup.modEq_rfl⟩

end Scalar

end TurtleGraphics
