import Mathlib
import TurtleGraphics.Scalar

namespace TurtleGraphics.Binary64

open Float.Model Float.Model.UnpackedFloat

/-! # The order of doubles

Doubles are compared through their exact values. Here the comparisons are tied to a linear order, so
that what is built from them follows the laws of such an order wherever no NaN is involved.

* `rank`: where an exact value stands among all others.
* `lt_iff`, `le_iff`, `beq_self_iff`: a comparison holds if both sides are numbers and their ranks
  compare so.
* `le_smaller_larger_iff`: two bounds make an interval, whichever comes first, unless both are NaN.
* `clamp_mem`, `clamp_of_isNaN`: clamping brings every number into the interval, and leaves a NaN as
  it is.
* `IsCanonical`, `exact_finite`: the whole number and exponent of a finite double, which `rank` goes
  by.
-/

/-- Where an exact value stands: negative infinity, the negative numbers, zero, the positive numbers,
positive infinity. Among numbers of one sign the exponent counts first: whole numbers that do not
have their full length go with the least exponent only. -/
def rank : UnpackedFloat → ℤ ×ₗ ℤ ×ₗ ℤ
  | .infinity .negative => toLex (-2, toLex (0, 0))
  | .finite .negative m e _ => toLex (-1, toLex (-e, -(m : ℤ)))
  | .notANumber | .zero _ => toLex (0, toLex (0, 0))
  | .finite .positive m e _ => toLex (1, toLex (e, (m : ℤ)))
  | .infinity .positive => toLex (2, toLex (0, 0))

/-- Where a double stands. -/
def place (x : Float) : ℤ ×ₗ ℤ ×ₗ ℤ :=
  rank (exact x)

/-! ## Comparisons -/

theorem compare_natCast (m n : ℕ) : compare (m : ℤ) n = compare m n := by
  rcases Nat.lt_trichotomy m n with h | h | h
  · rw [compare_lt_iff_lt.mpr h, compare_lt_iff_lt.mpr (Int.ofNat_lt.mpr h)]
  · rw [h, compare_eq_iff_eq.mpr rfl, compare_eq_iff_eq.mpr rfl]
  · rw [compare_gt_iff_gt.mpr h, compare_gt_iff_gt.mpr (Int.ofNat_lt.mpr h)]

theorem compare_neg (a b : ℤ) : compare (-a) (-b) = (compare a b).swap := by
  rcases Int.lt_trichotomy a b with h | h | h
  · rw [compare_lt_iff_lt.mpr h, compare_gt_iff_gt.mpr (Int.neg_lt_neg h)]
    rfl
  · rw [h, compare_eq_iff_eq.mpr rfl, compare_eq_iff_eq.mpr rfl]
    rfl
  · rw [compare_gt_iff_gt.mpr h, compare_lt_iff_lt.mpr (Int.neg_lt_neg h)]
    rfl

theorem compare_toLex (a a' b b' c c' : ℤ) :
    compare (toLex (a, toLex (b, c)) : ℤ ×ₗ ℤ ×ₗ ℤ) (toLex (a', toLex (b', c'))) =
      (compare a a').then ((compare b b').then (compare c c')) := by
  simp [Prod.Lex.compare_def, compareLex, compareOn]

theorem toLex_le_toLex (a a' b b' c c' : ℤ) :
    (toLex (a, toLex (b, c)) : ℤ ×ₗ ℤ ×ₗ ℤ) ≤ toLex (a', toLex (b', c')) ↔
      a < a' ∨ a = a' ∧ (b < b' ∨ b = b' ∧ c ≤ c') := by
  simp [Prod.Lex.toLex_le_toLex]

theorem toLex_lt_toLex (a a' b b' c c' : ℤ) :
    (toLex (a, toLex (b, c)) : ℤ ×ₗ ℤ ×ₗ ℤ) < toLex (a', toLex (b', c')) ↔
      a < a' ∨ a = a' ∧ (b < b' ∨ b = b' ∧ c < c') := by
  simp [Prod.Lex.toLex_lt_toLex]

/-- Numbers compare as their ranks do. -/
theorem compare_eq_rank {a b : UnpackedFloat} (ha : a.isNaN = false) (hb : b.isNaN = false) :
    a.compare b = some (compare (rank a) (rank b)) := by
  rcases a with ⟨_ | _⟩ | _ | _ | ⟨_ | _, m, e, hm⟩
  all_goals rcases b with ⟨_ | _⟩ | _ | _ | ⟨_ | _, n, f, hn⟩
  all_goals first
    | exact Bool.noConfusion ha
    | exact Bool.noConfusion hb
    | simp only [rank, compare_toLex]
  -- the kinds decide, unless both are finite and have one sign
  all_goals first | rfl | skip
  · show some ((compare e f).then (compare m n)).swap = some (Ordering.eq.then _)
    rw [compare_neg, compare_neg, compare_natCast, Ordering.swap_then]
    rfl
  · show some ((compare e f).then (compare m n)) = some (Ordering.eq.then _)
    rw [compare_natCast]
    rfl

/-- A NaN compares with nothing. -/
theorem compare_eq_none {a b : UnpackedFloat} (h : a.isNaN = true ∨ b.isNaN = true) :
    a.compare b = none := by
  rcases h with h | h
  · rw [isNaN_iff.mp h]
    rfl
  · rw [isNaN_iff.mp h]
    cases a <;> rfl

/-- What a comparison finds, if it finds anything. -/
theorem compare_eq_some_iff {a b : UnpackedFloat} {o : Ordering} :
    a.compare b = some o ↔ a.isNaN = false ∧ b.isNaN = false ∧ compare (rank a) (rank b) = o := by
  by_cases h : a.isNaN = false ∧ b.isNaN = false
  · rw [compare_eq_rank h.1 h.2]
    simp [h.1, h.2]
  · have hnan : a.isNaN = true ∨ b.isNaN = true := by
      cases ha : a.isNaN <;> cases hb : b.isNaN <;> simp_all
    rw [compare_eq_none hnan]
    rcases hnan with hnan | hnan <;> simp [hnan]

section Comparisons

variable {x y : Float}

theorem lt_iff :
    Float.lt x y = true ↔ x.isNaN = false ∧ y.isNaN = false ∧ place x < place y := by
  rw [← compare_lt_iff_lt]
  exact (decide_eq_true_iff.trans beq_iff_eq).trans compare_eq_some_iff

theorem le_iff :
    Float.le x y = true ↔ x.isNaN = false ∧ y.isNaN = false ∧ place x ≤ place y := by
  have hle : Float.le x y = true ↔ ∃ o, (exact x).compare (exact y) = some o ∧ o.isLE = true :=
    decide_eq_true_iff.trans (Option.any_eq_true ..)
  rw [hle, ← compare_le_iff_le]
  constructor
  · rintro ⟨o, ho, hisLE⟩
    rcases compare_eq_some_iff.mp ho with ⟨hx, hy, rfl⟩
    exact ⟨hx, hy, Ordering.isLE_iff_ne_gt.mp hisLE⟩
  · rintro ⟨hx, hy, hne⟩
    exact ⟨_, compare_eq_some_iff.mpr ⟨hx, hy, rfl⟩, Ordering.isLE_iff_ne_gt.mpr hne⟩

theorem beq_self_iff : Float.beq x x = true ↔ x.isNaN = false := by
  have hbeq : Float.beq x x = true ↔ (exact x).compare (exact x) = some .eq :=
    beq_iff_eq (a := (exact x).compare (exact x))
  rw [hbeq, compare_eq_some_iff, compare_eq_iff_eq]
  exact ⟨fun h => h.1, fun h => ⟨h, h, rfl⟩⟩

/-- Of two numbers one is less than the other, or not above it. -/
theorem le_of_not_lt (hx : x.isNaN = false) (hy : y.isNaN = false) (h : ¬ Float.lt x y = true) :
    Float.le y x = true := by
  rw [le_iff]
  refine ⟨hy, hx, ?_⟩
  by_contra hlt
  exact h (lt_iff.mpr ⟨hx, hy, lt_of_not_ge hlt⟩)

theorem le_of_lt (h : Float.lt x y = true) : Float.le x y = true := by
  rcases lt_iff.mp h with ⟨hx, hy, hlt⟩
  exact le_iff.mpr ⟨hx, hy, hlt.le⟩

theorem le_self (hx : x.isNaN = false) : Float.le x x = true :=
  le_iff.mpr ⟨hx, hx, le_refl _⟩

theorem lt_of_isNaN (h : x.isNaN = true ∨ y.isNaN = true) : Float.lt x y = false := by
  by_contra hlt
  rcases lt_iff.mp (by simpa using hlt) with ⟨hx, hy, -⟩
  rw [hx, hy] at h
  rcases h with h | h <;> cases h

end Comparisons

/-! ## Intervals -/

open Scalar (smaller larger clamp)

/-- The smaller and the larger of two bounds are an interval, unless both bounds are NaN. -/
theorem le_smaller_larger_iff (a b : Float) :
    Float.le (smaller a b) (larger a b) = true ↔ ¬ (a.isNaN = true ∧ b.isNaN = true) := by
  show Float.le
    (if Float.beq b b then (if Float.lt a b then a else b) else a)
    (if Float.beq b b then (if Float.lt b a then a else b) else a) = true ↔ _
  cases hb : b.isNaN with
  | true =>
    -- the first bound counts for both ends
    have hnot : ¬ Float.beq b b = true := by rw [beq_self_iff, hb]; simp
    rw [if_neg hnot, if_neg hnot, le_iff]
    simp
  | false =>
    rw [if_pos (beq_self_iff.mpr hb), if_pos (beq_self_iff.mpr hb)]
    simp only [Bool.false_eq_true, and_false, not_false_eq_true, iff_true]
    split
    · rename_i hlt
      rcases lt_iff.mp hlt with ⟨-, -, hplace⟩
      rw [if_neg fun hgt => absurd (lt_iff.mp hgt).2.2 (lt_asymm hplace)]
      exact le_of_lt hlt
    · split
      · exact le_of_lt ‹_›
      · exact le_self hb

section Clamp

variable {low high x : Float}

/-- Clamping brings a number into the interval. -/
theorem clamp_mem (h : Float.le low high = true) (hx : x.isNaN = false) :
    Float.le low (clamp low high x) = true ∧ Float.le (clamp low high x) high = true := by
  rcases le_iff.mp h with ⟨hlow, hhigh, hplace⟩
  show Float.le low (if Float.lt high (if Float.lt x low then low else x) then high
      else if Float.lt x low then low else x) = true ∧
    Float.le (if Float.lt high (if Float.lt x low then low else x) then high
      else if Float.lt x low then low else x) high = true
  by_cases hbelow : Float.lt x low = true
  · have hnot : ¬ Float.lt high low = true := by
      intro hlt
      exact absurd (lt_iff.mp hlt).2.2 (not_lt_of_ge hplace)
    rw [if_pos hbelow, if_neg hnot]
    exact ⟨le_self hlow, h⟩
  · rw [if_neg hbelow]
    by_cases habove : Float.lt high x = true
    · rw [if_pos habove]
      exact ⟨h, le_self hhigh⟩
    · rw [if_neg habove]
      exact ⟨le_of_not_lt hx hlow hbelow, le_of_not_lt hhigh hx habove⟩

/-- A NaN comes through clamping. -/
theorem clamp_of_isNaN (hx : x.isNaN = true) : clamp low high x = x := by
  have hbelow : Float.lt x low = false := lt_of_isNaN (.inl hx)
  have habove : Float.lt high x = false := lt_of_isNaN (.inr hx)
  show (if Float.lt high (if Float.lt x low then low else x) then high
      else if Float.lt x low then low else x) = x
  simp only [hbelow, habove, Bool.false_eq_true, if_false]

end Clamp

/-- A difference from a NaN is a NaN. -/
theorem isNaN_sub (x : Float) {y : Float} (h : y.isNaN = true) : (x - y).isNaN = true := by
  have hsub : UnpackedFloat.sub Format.binary64 (exact x) (exact y) = .notANumber := by
    rw [show exact y = .notANumber from isNaN_iff.mp h]
    cases exact x <;> rfl
  show (UnpackedFloat.unpack Format.binary64 (UnpackedFloat.pack Format.binary64
    (UnpackedFloat.sub Format.binary64 (exact x) (exact y)))).isNaN = true
  rw [hsub]
  rfl

/-! ## Finite doubles -/

/-- The whole numbers and exponents of finite doubles: a number of full length, or the least exponent
that there is. -/
structure IsCanonical (m : ℕ) (e : ℤ) : Prop where
  lt : m < 2 ^ 53
  least_le : -1074 ≤ e
  le_greatest : e ≤ 971
  full : e = -1074 ∨ 2 ^ 52 ≤ m

/-- The whole number of a normal double, whose first digit is left out in writing. -/
theorem toNat_withFirstDigit (mantissa : BitVec 52) :
    (1#1 ++ mantissa).toNat = 2 ^ 52 + mantissa.toNat := by
  rw [BitVec.toNat_append, ← Nat.shiftLeft_add_eq_or_of_lt mantissa.isLt]
  simp [Nat.shiftLeft_eq]

theorem exact_finite {x : Float} {s : Sign} {m : ℕ} {e : ℤ} {hm : 0 < m}
    (h : exact x = .finite s m e hm) : IsCanonical m e := by
  let bits : BitVec Format.binary64.numBits := x.toModel.toBits.toBitVec
  have hlt : (unpackMantissa bits).toNat < 2 ^ 52 := (unpackMantissa bits).isLt
  have hbound : (unpackExponent bits).toNat < 2048 := (unpackExponent bits).isLt
  have hbias : (Format.binary64.exponentBias : ℤ) = 1023 := rfl
  have hunpack : UnpackedFloat.unpack Format.binary64 bits = .finite s m e hm := h
  unfold UnpackedFloat.unpack at hunpack
  dsimp only at hunpack
  rw [hbias] at hunpack
  split at hunpack
  · split at hunpack <;> cases hunpack
  · rename_i hgreatest
    split at hunpack
    · rename_i hexponent
      split at hunpack
      · cases hunpack
      · -- a subnormal number
        rcases UnpackedFloat.finite.inj hunpack with ⟨-, rfl, rfl⟩
        rw [hexponent]
        exact ⟨by omega, by decide, by decide, .inl rfl⟩
    · -- a normal number
      rename_i hleast
      rcases UnpackedFloat.finite.inj hunpack with ⟨-, rfl, rfl⟩
      have hne : (unpackExponent bits).toNat ≠ 2047 := fun heq =>
        hgreatest (BitVec.eq_of_toNat_eq heq)
      have hpos : (unpackExponent bits).toNat ≠ 0 := fun heq =>
        hleast (BitVec.eq_of_toNat_eq heq)
      have hfull := toNat_withFirstDigit (unpackMantissa bits)
      exact ⟨by omega, by omega, by omega, .inr (by omega)⟩

end TurtleGraphics.Binary64
