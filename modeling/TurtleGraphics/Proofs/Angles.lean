import TurtleGraphics.Proofs.DoubleRounding

namespace TurtleGraphics.Binary64

open Float.Model Float.Model.UnpackedFloat

/-! # Angles in doubles

Angles in degrees are added, divided and brought into one turn in doubles, and never become anything
but finite numbers on the way.

* `zero_le_euclideanRemainder`: the remainder of a finite double by a whole turn is a number that is
  not negative.
* `isFinite_add`, `isFinite_sub`: a finite double and a moderate one have a finite sum and difference.
* `isFinite_div_ceil`: a finite double divided into as many parts as it has whole units, rounded up,
  gives a finite double.
* `le_larger`: the larger of two scalars is not below the second, unless that is a NaN.

`wrapDegrees_mem` is the consequence for angles that are brought into one turn.
-/

/-! ## Operations on exact values -/

section Operations

variable (x y : Float)

theorem exact_add :
    exact (x + y) = stored (UnpackedFloat.add Format.binary64 (exact x) (exact y)) := rfl

theorem exact_sub :
    exact (x - y) = stored (UnpackedFloat.sub Format.binary64 (exact x) (exact y)) := rfl

theorem exact_div :
    exact (x / y) = stored (UnpackedFloat.div Format.binary64 (exact x) (exact y)) := rfl

theorem exact_abs : exact x.abs = stored (exact x).abs := rfl

theorem exact_nearest (s : Sign) (m : ℕ) (e : ℤ) :
    exact (nearest s m e) = stored (UnpackedFloat.round Format.binary64 s m e) := rfl

theorem exact_turn : exact 360 = .finite .positive (360 * 2 ^ 44) (-44) (by decide) := rfl

end Operations

/-- A finite double is a zero or a canonical value. -/
theorem isFinite_cases {x : Float} (h : x.isFinite = true) :
    (∃ s, exact x = .zero s) ∨ ∃ s m e hm, exact x = .finite s m e hm ∧ IsCanonical m e := by
  have hexact : (exact x).isFinite = true := h
  cases hx : exact x with
  | infinity s =>
    rw [hx] at hexact
    cases hexact
  | notANumber =>
    rw [hx] at hexact
    cases hexact
  | zero s => exact .inl ⟨s, rfl⟩
  | finite s m e hm => exact .inr ⟨s, m, e, hm, rfl, exact_finite hx⟩

theorem HasSign.isNaN {s : Sign} {f : UnpackedFloat} (h : HasSign s f) : f.isNaN = false := by
  cases f with
  | notANumber => exact h.elim
  | _ => rfl

/-- A number whose sign is positive is not below zero. -/
theorem zero_le_of_hasSign {x : Float} (h : HasSign .positive (exact x)) : Float.le 0 x = true := by
  have hrank : ∀ f, HasSign .positive f → toLex (0, toLex (0, 0)) ≤ rank f := by
    intro f hf
    cases f with
    | notANumber => exact hf.elim
    | zero s => exact le_refl _
    | infinity s =>
      have hs : s = .positive := hf
      rw [hs]
      exact (toLex_le_toLex ..).mpr (by omega)
    | finite s m e hm =>
      have hs : s = .positive := hf
      rw [hs]
      exact (toLex_le_toLex ..).mpr (by omega)
  exact le_iff.mpr ⟨rfl, h.isNaN, hrank _ h⟩

/-! ## Sums and differences -/

/-- A moderate double and a finite one are together less than half a unit beyond the greatest finite
double. -/
theorem shifted_sum_lt {m n : ℕ} {e f E : ℤ} (hm : m < 2 ^ 53) (he : e ≤ 917) (hn : n < 2 ^ 53)
    (hf : f ≤ 971) (hE : E ≤ e) :
    m <<< (e - E).toNat + n <<< (f - E).toNat < (2 ^ 54 - 1) * 2 ^ (970 - E).toNat := by
  have hfirst : m <<< (e - E).toNat < 2 ^ (970 - E).toNat := by
    rw [Nat.shiftLeft_eq]
    calc m * 2 ^ (e - E).toNat < 2 ^ 53 * 2 ^ (e - E).toNat :=
          Nat.mul_lt_mul_of_pos_right hm (by positivity)
      _ = 2 ^ (53 + (e - E).toNat) := (Nat.pow_add ..).symm
      _ ≤ 2 ^ (970 - E).toNat := Nat.pow_le_pow_right (by decide) (by omega)
  have hsecond : n <<< (f - E).toNat ≤ (2 ^ 53 - 1) * (2 * 2 ^ (970 - E).toNat) := by
    rw [Nat.shiftLeft_eq, ← Nat.pow_succ']
    exact Nat.mul_le_mul (by omega) (Nat.pow_le_pow_right (by decide) (by omega))
  omega

theorem normalize_sum_within {m n : ℕ} {e f M : ℤ} (hm : m < 2 ^ 53) (he : e ≤ 917)
    (hn : n < 2 ^ 53) (hf : f ≤ 971)
    (hM : M.natAbs ≤ m <<< (e - min e f).toNat + n <<< (f - min e f).toNat) :
    Within 971 (UnpackedFloat.normalize Format.binary64 M (min e f) .positive) := by
  have hsum := shifted_sum_lt hm he hn hf (min_le_left e f)
  have hmin : min e f ≤ 970 := by omega
  unfold UnpackedFloat.normalize
  split
  · exact round_within hmin (by omega)
  · trivial
  · exact round_within hmin (by omega)

/-- The value is zero, or has at most 53 digits and an exponent that does not exceed `E`. -/
def Short (E : ℤ) : UnpackedFloat → Prop
  | .zero _ => True
  | .finite _ m e _ => m < 2 ^ 53 ∧ e ≤ E
  | .infinity _ | .notANumber => False

theorem short_of_isFinite {x : Float} (h : x.isFinite = true) : Short 971 (exact x) := by
  rcases isFinite_cases h with ⟨s, hx⟩ | ⟨s, m, e, hm, hx, hcanonical⟩
  · rw [hx]
    trivial
  · rw [hx]
    exact ⟨hcanonical.lt, hcanonical.le_greatest⟩

theorem Short.neg {E : ℤ} {f : UnpackedFloat} (h : Short E f) : Short E f.neg := by
  cases f with
  | notANumber | infinity => exact h.elim
  | zero => trivial
  | finite => exact h

theorem natAbs_apply (s : Sign) (m : ℕ) : (s.apply m).natAbs = m := by
  cases s with
  | positive => exact Int.natAbs_natCast m
  | negative => exact (Int.natAbs_neg _).trans (Int.natAbs_natCast m)

theorem add_within {f g : UnpackedFloat} (hf : Short 917 f) (hg : Short 971 g) :
    Within 971 (UnpackedFloat.add Format.binary64 f g) := by
  cases f with
  | notANumber | infinity => exact hf.elim
  | zero s =>
    cases g with
    | notANumber | infinity => exact hg.elim
    | zero s' => cases s <;> cases s' <;> trivial
    | finite s' n e' hn => exact hg.2
  | finite s m e hm =>
    cases g with
    | notANumber | infinity => exact hg.elim
    | zero s' =>
      have he : e ≤ 917 := hf.2
      show e ≤ 971
      omega
    | finite s' n e' hn =>
      apply normalize_sum_within hf.1 hf.2 hg.1 hg.2
      apply (Int.natAbs_add_le _ _).trans_eq
      rw [natAbs_apply, natAbs_apply]

/-- A difference is the sum with the negative. -/
theorem sub_eq_add_neg (f g : UnpackedFloat) :
    UnpackedFloat.sub Format.binary64 f g = UnpackedFloat.add Format.binary64 f g.neg := by
  cases f with
  | notANumber => cases g <;> rfl
  | infinity s => cases g <;> rfl
  | zero s => cases g <;> rfl
  | finite s m e hm =>
    cases g with
    | finite s' n e' hn =>
      have hneg : ∀ a b : ℤ, a - s'.apply b = a + (-s').apply b := by
        intro a b
        cases s' with
        | positive => rfl
        | negative => exact Int.sub_neg a b
      simp only [UnpackedFloat.sub, UnpackedFloat.add, UnpackedFloat.neg, decreaseExponent, hneg]
    | _ => rfl

section Sums

variable {x y : Float}

theorem isFinite_add (hx : Short 917 (exact x)) (hy : y.isFinite = true) :
    (x + y).isFinite = true :=
  isFinite_stored (add_within hx (short_of_isFinite hy))

theorem isFinite_sub (hx : Short 917 (exact x)) (hy : y.isFinite = true) :
    (x - y).isFinite = true := by
  show (exact (x - y)).isFinite = true
  rw [exact_sub, sub_eq_add_neg]
  exact isFinite_stored (add_within hx (short_of_isFinite hy).neg)

end Sums

/-! ## Remainders by a whole turn -/

/-- A remainder by a whole turn is less than a turn, and short enough to be a double. -/
theorem truncatedRemainder_turn {x : Float} {s : Sign} {m : ℕ} {e : ℤ} {hm : 0 < m}
    (hx : exact x = .finite s m e hm) :
    ∃ (r : ℕ) (f : ℤ), -1074 ≤ f ∧ f ≤ -44 ∧ r < 2 ^ 53 ∧
      r < (360 * 2 ^ 44) <<< (-44 - f).toNat ∧ truncatedRemainder x 360 = nearest s r f := by
  have hlt := (exact_finite hx).lt
  have hleast := (exact_finite hx).least_le
  have hturn : atExponent m e (min e (-44)) % atExponent (360 * 2 ^ 44) (-44) (min e (-44)) <
      (360 * 2 ^ 44) <<< (-44 - min e (-44)).toNat :=
    Nat.mod_lt _ (by rw [atExponent, Nat.shiftLeft_eq]; positivity)
  refine ⟨_, min e (-44), by omega, by omega, ?_, hturn, ?_⟩
  · by_cases he : e ≤ -44
    · -- the unit is that of the double
      rw [min_eq_left he]
      have hsame : atExponent m e e = m := by simp [atExponent]
      rw [hsame]
      exact lt_of_le_of_lt (Nat.mod_le _ _) hlt
    · -- the unit is that of a whole turn
      rw [min_eq_right (by omega)] at hturn ⊢
      have hshort : (360 * 2 ^ 44) <<< (-44 - (-44 : ℤ)).toNat < 2 ^ 53 := by decide
      omega
  · rw [truncatedRemainder, hx, exact_turn]

/-- Rounding gives a number, with the sign of what is rounded. -/
theorem hasSign_nearest (s : Sign) (m : ℕ) (e : ℤ) : HasSign s (exact (nearest s m e)) := by
  rw [exact_nearest]
  apply hasSign_stored
  exact hasSign_roundWithAccuracy ..

theorem hasSign_normalize {M : ℤ} (e : ℤ) (h : 0 ≤ M) :
    HasSign .positive (UnpackedFloat.normalize Format.binary64 M e .positive) := by
  unfold UnpackedFloat.normalize
  split
  · rename_i hlt
    have := compare_lt_iff_lt.mp hlt
    omega
  · rfl
  · exact hasSign_roundWithAccuracy ..

/-- A negative remainder is not further from zero than a whole turn. -/
theorem zero_le_add_turn {r : ℕ} {f : ℤ} (hleast : -1074 ≤ f) (hf : f ≤ -44) (hpos : 0 < r)
    (hshort : r < 2 ^ 53) (hturn : r < (360 * 2 ^ 44) <<< (-44 - f).toNat) :
    Float.le 0 (nearest .negative r f + (360 : Float).abs) = true := by
  rcases round_eq_finite hpos hshort hleast (by omega) with ⟨k, hk, hcanonical, hround⟩
  have hexact : exact (nearest .negative r f) = .finite .negative (r <<< k) (f - k) hk := by
    rw [exact_nearest, hround, stored_of_isCanonical hcanonical]
  have habs : exact (360 : Float).abs = .finite .positive (360 * 2 ^ 44) (-44) (by decide) := rfl
  apply zero_le_of_hasSign
  rw [exact_add, hexact, habs]
  apply hasSign_stored
  apply hasSign_normalize
  -- in units of the remainder, a turn is the greater of the two numbers
  have hmin : min (f - k) (-44) = f - k := min_eq_left (by omega)
  have hle : r <<< k ≤ (360 * 2 ^ 44) <<< (-44 - (f - k)).toNat := by
    have hshift : (-44 - (f - k)).toNat = (-44 - f).toNat + k := by omega
    rw [hshift, Nat.shiftLeft_add, Nat.shiftLeft_eq, Nat.shiftLeft_eq _ k]
    exact Nat.mul_le_mul_right _ hturn.le
  rw [hmin, sub_self]
  simp only [Sign.apply, Int.toNat_zero, Nat.shiftLeft_zero]
  omega

theorem euclideanRemainder_of_le {x y : Float} (h : Float.le 0 (truncatedRemainder x y) = true) :
    euclideanRemainder x y = truncatedRemainder x y := by
  rw [euclideanRemainder, if_neg]
  intro hlt
  exact absurd (lt_iff.mp hlt).2.2 (not_lt_of_ge (le_iff.mp h).2.2)

theorem zero_le_of_exact {x : Float} {s : Sign} (h : exact x = .zero s) : Float.le 0 x = true := by
  have hnan : x.isNaN = false := by
    show (exact x).isNaN = false
    rw [h]
    rfl
  refine le_iff.mpr ⟨rfl, hnan, ?_⟩
  show place 0 ≤ rank (exact x)
  rw [h]
  exact le_refl _

theorem zero_le_euclideanRemainder {x : Float} (hx : x.isFinite = true) :
    Float.le 0 (euclideanRemainder x 360) = true := by
  rcases isFinite_cases hx with ⟨s, hx⟩ | ⟨s, m, e, hm, hx, -⟩
  · have hremainder : truncatedRemainder x 360 = x := by rw [truncatedRemainder, hx, exact_turn]
    have hle := zero_le_of_exact hx
    rwa [euclideanRemainder_of_le (by rwa [hremainder]), hremainder]
  · rcases truncatedRemainder_turn hx with ⟨r, f, hleast, hf, hshort, hturn, hremainder⟩
    by_cases hzero : r = 0
    · have hle : Float.le 0 (truncatedRemainder x 360) = true := by
        rw [hremainder, hzero]
        apply zero_le_of_exact (s := s)
        rw [exact_nearest, round_zero s hleast, stored_zero]
      rwa [euclideanRemainder_of_le hle]
    cases s with
    | positive =>
      have hle : Float.le 0 (truncatedRemainder x 360) = true := by
        rw [hremainder]
        exact zero_le_of_hasSign (hasSign_nearest ..)
      rwa [euclideanRemainder_of_le hle]
    | negative =>
      rw [euclideanRemainder, hremainder]
      split
      · exact zero_le_add_turn hleast hf (Nat.pos_of_ne_zero hzero) hshort hturn
      · exact le_of_not_lt (hasSign_nearest ..).isNaN rfl ‹_›

/-! ## Parts of an angle -/

theorem log2_div_le {a b : ℕ} (h : a / b ≠ 0) : (a / b).log2 + b.log2 ≤ a.log2 := by
  have ha : a ≠ 0 := by
    intro ha
    rw [ha, Nat.zero_div] at h
    exact h rfl
  have hb : b ≠ 0 := by
    intro hb
    rw [hb, Nat.div_zero] at h
    exact h rfl
  rw [Nat.le_log2 ha, Nat.pow_add]
  calc 2 ^ (a / b).log2 * 2 ^ b.log2 ≤ a / b * b :=
        Nat.mul_le_mul (Nat.log2_self_le h) (Nat.log2_self_le hb)
    _ ≤ a := Nat.div_mul_le_self a b

/-- Whole numbers of up to 53 digits are doubles. -/
theorem exact_nearest_whole {n : ℕ} (hpos : 0 < n) (hshort : n < 2 ^ 53) :
    ∃ (k : ℕ) (hk : 0 < n <<< k),
      exact (nearest .positive n 0) = .finite .positive (n <<< k) (0 - k) hk := by
  rcases round_eq_finite (s := .positive) (e := 0) hpos hshort (by decide) (by decide) with
    ⟨k, hk, hcanonical, hround⟩
  exact ⟨k, hk, by rw [exact_nearest, hround, stored_of_isCanonical hcanonical]⟩

/-- The whole units of a double, rounded up, are not much less than it. -/
theorem exact_ceil_abs {d : Float} {s : Sign} {m : ℕ} {e : ℤ} {hm : 0 < m}
    (hd : exact d = .finite s m e hm) :
    ∃ (n : ℕ) (f : ℤ) (hn : 0 < n), exact (ceil d.abs) = .finite .positive n f hn ∧
      m.log2 + e ≤ n.log2 + f + 52 := by
  have hcanonical := exact_finite hd
  have habs : exact d.abs = .finite .positive m e hm := by
    rw [exact_abs, hd]
    exact stored_of_isCanonical hcanonical
  by_cases he : 0 ≤ e
  · -- the double is whole already
    refine ⟨m, e, hm, ?_, by omega⟩
    rw [ceil, habs]
    simp only [he, if_true]
    exact habs
  · have hlt := hcanonical.lt
    have hlog : m.log2 ≤ 52 := log2_le_of_lt hlt
    let unit := Nat.pow 2 (-e).toNat
    have hunit : 0 < unit := Nat.pow_pos (by decide)
    have hceil : ceil d.abs = nearest .positive ((m + unit - 1) / unit) 0 := by
      rw [ceil, habs]
      simp only [he, if_false]
      rfl
    have hpos : 0 < (m + unit - 1) / unit := Nat.div_pos (by omega) hunit
    have hshort : (m + unit - 1) / unit < 2 ^ 53 := Nat.div_lt_of_lt_mul (by omega)
    generalize (m + unit - 1) / unit = n at hceil hpos hshort
    rcases exact_nearest_whole hpos hshort with ⟨k, hk, hexact⟩
    refine ⟨n <<< k, 0 - k, hk, by rw [hceil, hexact], ?_⟩
    have hlength : k ≤ (n <<< k).log2 := by
      rw [Nat.le_log2 hk.ne', Nat.shiftLeft_eq]
      exact Nat.le_mul_of_pos_left _ hpos
    omega

/-- A quotient that is not great is finite. -/
theorem div_within {s s' : Sign} {m n : ℕ} {e f : ℤ} {hm : 0 < m} {hn : 0 < n}
    (h : m.log2 + e ≤ n.log2 + f + 52) :
    Within 971 (UnpackedFloat.div Format.binary64 (.finite s m e hm) (.finite s' n f hn)) := by
  simp only [UnpackedFloat.div, divCore, targetExponent_eq, totalExponent]
  -- the exponent at which the quotient is taken
  generalize ht : min (e - f) (max ((m.log2 : ℤ) + 1 + e - (n.log2 + 1 + f) - 53) (-1074)) = t
  have hquotient : ((m <<< (e - f - t).toNat / n).log2 : ℤ) + t ≤ 52 := by
    by_cases hzero : m <<< (e - f - t).toNat / n = 0
    · rw [hzero, Nat.log2_zero]
      omega
    · have hdiv := log2_div_le hzero
      have hshift := log2_shiftLeft_le m (e - f - t).toNat
      omega
  apply roundWithAccuracy_within
  · omega
  · right
    omega

theorem isFinite_div_ceil {d : Float} (hd : d.isFinite = true) (hne : Float.beq d 0 = false) :
    (d / ceil d.abs).isFinite = true := by
  rcases isFinite_cases hd with ⟨s, hd⟩ | ⟨s, m, e, hm, hd, -⟩
  · have heq : Float.beq d 0 = true := by
      show ((exact d).compare (exact 0) == some .eq) = true
      rw [hd]
      cases s <;> rfl
    rw [hne] at heq
    cases heq
  · rcases exact_ceil_abs hd with ⟨n, f, hn, hceil, hlog⟩
    show (exact (d / ceil d.abs)).isFinite = true
    rw [exact_div, hd, hceil]
    exact isFinite_stored (div_within hlog)

/-! ## Angles within one turn -/

/-- The larger of two scalars is not below the second, unless that is a NaN. -/
theorem le_larger {x y : Float} (hy : y.isNaN = false) : Float.le y (Scalar.larger x y) = true := by
  show Float.le y (if Float.beq y y then (if Float.lt y x then x else y) else x) = true
  rw [if_pos (beq_self_iff.mpr hy)]
  split
  · exact le_of_lt ‹_›
  · exact le_self hy

/-- Zero is an angle within one turn. -/
theorem zero_mem : Float.le 0 0 = true ∧ Float.lt 0 360 = true :=
  ⟨by rfl, by rfl⟩

/-- Bringing a finite angle into one turn gives a number from 0 on and below 360. -/
theorem wrapDegrees_mem {x : Float} (hx : x.isFinite = true) :
    Float.le 0 (Scalar.wrapDegrees x) = true ∧ Float.lt (Scalar.wrapDegrees x) 360 = true := by
  have hle := zero_le_euclideanRemainder hx
  show Float.le 0 (if Float.le 360 (euclideanRemainder x 360) then 0 else euclideanRemainder x 360) =
      true ∧
    Float.lt (if Float.le 360 (euclideanRemainder x 360) then 0 else euclideanRemainder x 360) 360 =
      true
  split
  · exact zero_mem
  · rename_i hnot
    refine ⟨hle, ?_⟩
    by_contra hlt
    exact hnot (le_of_not_lt (le_iff.mp hle).2.1 rfl hlt)

/-- An angle within one turn is a zero, or positive with some binary digits behind its point and less
than a turn. -/
theorem exact_of_mem {x : Float} (hle : Float.le 0 x = true) (hlt : Float.lt x 360 = true) :
    (∃ s, exact x = .zero s) ∨
      ∃ (m k : ℕ) (hm : 0 < m), exact x = .finite .positive m (-(k : ℤ)) hm ∧ m < 2 ^ 53 ∧
        (44 < k ∨ k = 44 ∧ m < 360 * 2 ^ 44) := by
  rcases le_iff.mp hle with ⟨-, hnan, habove⟩
  have hbelow := (lt_iff.mp hlt).2.2
  have hturn : place 360 = toLex (1, toLex (-44, 360 * 2 ^ 44)) := rfl
  rw [hturn, place] at hbelow
  change toLex (0, toLex (0, 0)) ≤ rank (exact x) at habove
  cases hx : exact x with
  | notANumber =>
    have hexact : (exact x).isNaN = false := hnan
    rw [hx] at hexact
    cases hexact
  | zero s => exact .inl ⟨s, rfl⟩
  | infinity s =>
    rw [hx] at habove hbelow
    cases s with
    | positive =>
      have := (toLex_lt_toLex ..).mp hbelow
      omega
    | negative =>
      have := (toLex_le_toLex ..).mp habove
      omega
  | finite s m e hm =>
    rw [hx] at habove hbelow
    cases s with
    | positive =>
      have := (toLex_lt_toLex ..).mp hbelow
      obtain ⟨k, rfl⟩ : ∃ k : ℕ, e = -(k : ℤ) := ⟨(-e).toNat, by omega⟩
      exact .inr ⟨m, k, hm, rfl, (exact_finite hx).lt, by omega⟩
    | negative =>
      have := (toLex_le_toLex ..).mp habove
      omega

/-- An angle within one turn is moderate. -/
theorem short_of_mem {x : Float} (hle : Float.le 0 x = true) (hlt : Float.lt x 360 = true) :
    Short 917 (exact x) := by
  rcases exact_of_mem hle hlt with ⟨s, hx⟩ | ⟨m, k, hm, hx, hshort, -⟩
  · rw [hx]
    trivial
  · rw [hx]
    exact ⟨hshort, by omega⟩

end TurtleGraphics.Binary64
