import TurtleGraphics.Proofs.DoubleOrder

namespace TurtleGraphics.Binary64

open Float.Model Float.Model.UnpackedFloat

/-! # Rounding to doubles

An operation on doubles is carried out on exact values; its result is rounded, and written as a
double. What becomes of it there can largely be said without the value itself.

* `stored`: an exact value after it was written as a double. A canonical one is unchanged
  (`stored_of_isCanonical`); any other keeps its sign (`hasSign_stored`), and is finite unless its
  exponent is too great (`isFinite_stored`).
* `round_eq_finite`: a whole number of at most 53 digits, times a power of two, is not rounded at all.
* `roundWithAccuracy_within`: the exponent that rounding gives. It is that of the digits kept, or one
  more if rounding up carries through all of them.
* `round_within`: what lies below `(2 ^ 54 - 1) * 2 ^ 970`, which is halfway from the greatest finite
  double to the next power of two, is rounded to a finite one.
-/

/-! ## Packing -/

theorem unpackSign_packComponents {spec : Format} (s : Sign) (e : BitVec spec.exponentBits)
    (m : BitVec spec.mantissaBitsWithoutImplicit) :
    unpackSign (packComponents spec s e m) = s.toBitVec := by
  ext i hi
  have hzero : i = 0 := by omega
  simp [hzero, unpackSign, packComponents, BitVec.getLsbD_append, BitVec.getElem_append]

/-- What is read from a sign, an exponent and a mantissa. -/
theorem unpack_packComponents (s : Sign) (e : BitVec 11) (m : BitVec 52) :
    unpack Format.binary64 (packComponents Format.binary64 s e m) =
      if e = -1#11 then if m = 0#52 then .infinity s else .notANumber
      else if e = 0#11 then
        if h : m = 0#52 then .zero s
        else .finite s m.toNat (-1074) (by simpa [BitVec.toNat_pos, BitVec.pos_iff_ne_zero])
      else .finite s (2 ^ 52 + m.toNat) (e.toNat - 1075) (by omega) := by
  have hsign : Sign.ofBitVec s.toBitVec = s := by cases s <;> rfl
  have hbias : (Format.binary64.exponentBias : ℤ) = 1023 := rfl
  unfold UnpackedFloat.unpack
  simp only [unpackMantissa_packComponents, unpackExponent_packComponents, unpackSign_packComponents,
    hsign, hbias, toNat_withFirstDigit]
  split
  · rfl
  · split
    · rename_i h
      subst h
      rfl
    · rfl

/-- How a finite value is written: what is too great as infinity, what has full length with its
exponent, and what has not with the exponent zero. -/
theorem pack_finite (s : Sign) (m : ℕ) (e : ℤ) (hm : 0 < m) :
    UnpackedFloat.pack Format.binary64 (.finite s m e hm) =
      if 972 ≤ e then packComponents Format.binary64 s (-1#11) 0#52
      else if m.log2 = 52 then
        packComponents Format.binary64 s (BitVec.ofNat 11 (e + 1075).toNat) (BitVec.ofNat 52 m)
      else packComponents Format.binary64 s 0#11 (BitVec.ofNat 52 m) := by
  have hbias : (Format.binary64.exponentBias : ℤ) = 1023 := rfl
  have hgreat : 2 ^ Format.binary64.exponentBits ≤ (e + 1023 + 52).toNat + 1 ↔ 972 ≤ e := by
    show 2048 ≤ (e + 1023 + 52).toNat + 1 ↔ 972 ≤ e
    omega
  have hfull : m.log2 + 1 = Format.binary64.mantissaBits ↔ m.log2 = 52 := by
    show m.log2 + 1 = 53 ↔ m.log2 = 52
    omega
  have hsum : e + 1023 + 52 = e + 1075 := by omega
  simp only [UnpackedFloat.pack, hbias]
  simp only [Nat.cast_ofNat, hgreat, hfull]
  rw [hsum]
  rfl

/-- What is left of an exact value when it is written as a double and read again. -/
def stored (f : UnpackedFloat) : UnpackedFloat :=
  UnpackedFloat.unpack Format.binary64 (UnpackedFloat.pack Format.binary64 f)

/-- The value has this sign, and is not a NaN. -/
def HasSign (s : Sign) : UnpackedFloat → Prop
  | .infinity s' | .zero s' | .finite s' .. => s' = s
  | .notANumber => False

/-- The value is zero, or its exponent does not exceed `E`. -/
def Within (E : ℤ) : UnpackedFloat → Prop
  | .zero _ => True
  | .finite _ _ e _ => e ≤ E
  | .infinity _ | .notANumber => False

section Stored

variable {s : Sign} {m : ℕ} {e : ℤ} {hm : 0 < m}

theorem stored_zero (s : Sign) : stored (.zero s) = .zero s := by
  cases s <;> rfl

theorem stored_infinity (s : Sign) : stored (.infinity s) = .infinity s := by
  cases s <;> rfl

theorem stored_of_great (he : 972 ≤ e) : stored (.finite s m e hm) = .infinity s := by
  rw [stored, pack_finite, if_pos he, unpack_packComponents, if_pos rfl, if_pos rfl]

/-- The greatest exponent field stands for no number. -/
theorem ofNat_ne_greatest {n : ℕ} (h : n < 2047) : BitVec.ofNat 11 n ≠ -1#11 := by
  intro heq
  have hmod : n % 2 ^ 11 = 2047 := congrArg BitVec.toNat heq
  rw [Nat.mod_eq_of_lt (by omega)] at hmod
  omega

/-- What is not too great stays finite, and keeps its sign. -/
theorem stored_of_not_great (he : e ≤ 971) :
    HasSign s (stored (.finite s m e hm)) ∧ (stored (.finite s m e hm)).isFinite = true := by
  have hunpack : ∀ (field : BitVec 11) (mantissa : BitVec 52), field ≠ -1#11 →
      HasSign s (UnpackedFloat.unpack _ (packComponents Format.binary64 s field mantissa)) ∧
        (UnpackedFloat.unpack _ (packComponents Format.binary64 s field mantissa)).isFinite =
          true := by
    intro field mantissa hfield
    rw [unpack_packComponents, if_neg hfield]
    split
    · split
      · exact ⟨rfl, rfl⟩
      · exact ⟨rfl, rfl⟩
    · exact ⟨rfl, rfl⟩
  rw [stored, pack_finite, if_neg (by omega)]
  split
  · exact hunpack _ _ (ofNat_ne_greatest (by omega))
  · exact hunpack _ _ (by decide)

/-- A canonical value is a double already. -/
theorem stored_of_isCanonical (h : IsCanonical m e) :
    stored (.finite s m e hm) = .finite s m e hm := by
  have hlt := h.lt
  have hleast := h.least_le
  have hgreatest := h.le_greatest
  rw [stored, pack_finite, if_neg (by omega)]
  by_cases hfull : 2 ^ 52 ≤ m
  · have hlog : m.log2 = 52 := (Nat.log2_eq_iff hm.ne').mpr ⟨hfull, hlt⟩
    have hmantissa : (BitVec.ofNat 52 m).toNat = m - 2 ^ 52 := by
      rw [BitVec.toNat_ofNat]
      omega
    have hfield : (BitVec.ofNat 11 (e + 1075).toNat).toNat = (e + 1075).toNat := by
      rw [BitVec.toNat_ofNat]
      exact Nat.mod_eq_of_lt (by omega)
    have hpos : BitVec.ofNat 11 (e + 1075).toNat ≠ 0#11 := by
      intro heq
      rw [heq] at hfield
      have : (0#11).toNat = 0 := rfl
      omega
    rw [if_pos hlog, unpack_packComponents, if_neg (ofNat_ne_greatest (by omega)), if_neg hpos]
    simp only [hmantissa, hfield, finite.injEq, true_and]
    omega
  · -- without full length, the exponent is the least one
    have hexponent : e = -1074 := h.full.resolve_right hfull
    have hlog : m.log2 ≠ 52 := by
      intro heq
      exact hfull ((Nat.log2_eq_iff hm.ne').mp heq).1
    have hmantissa : (BitVec.ofNat 52 m).toNat = m := by
      rw [BitVec.toNat_ofNat]
      exact Nat.mod_eq_of_lt (by omega)
    have hpos : BitVec.ofNat 52 m ≠ 0#52 := by
      intro heq
      rw [heq] at hmantissa
      have : (0#52).toNat = 0 := rfl
      omega
    rw [if_neg hlog, unpack_packComponents, if_neg (by decide), if_pos rfl, dif_neg hpos]
    simp only [hmantissa, hexponent]

end Stored

/-- A sign is never lost, and nothing but a NaN becomes one. -/
theorem hasSign_stored {s : Sign} {f : UnpackedFloat} (h : HasSign s f) : HasSign s (stored f) := by
  cases f with
  | notANumber => exact h.elim
  | zero s' => rwa [stored_zero]
  | infinity s' => rwa [stored_infinity]
  | finite s' m e hm =>
    have hs : s' = s := h
    rw [hs]
    by_cases he : e ≤ 971
    · exact (stored_of_not_great he).1
    · rw [stored_of_great (by omega)]
      rfl

theorem isFinite_stored {f : UnpackedFloat} (h : Within 971 f) : (stored f).isFinite = true := by
  cases f with
  | notANumber => exact h.elim
  | infinity s => exact h.elim
  | zero s =>
    rw [stored_zero]
    rfl
  | finite s m e hm => exact (stored_of_not_great h).2

/-! ## Rounding -/

theorem targetExponent_eq (t : ℤ) : Format.binary64.targetExponent t = max (t - 53) (-1074) := rfl

/-- The exponent at which a value has 53 digits, or the least one. -/
theorem targetExponent_totalExponent (m : ℕ) (e : ℤ) :
    Format.binary64.targetExponent (totalExponent m e) = max (m.log2 + e - 52) (-1074) := by
  rw [targetExponent_eq, totalExponent]
  congr 1
  omega

theorem log2_le_of_lt {m n : ℕ} (h : m < 2 ^ (n + 1)) : m.log2 ≤ n := by
  by_cases hm : m = 0
  · simp [hm]
  · exact Nat.lt_succ_iff.mp ((Nat.log2_lt hm).mpr h)

theorem log2_shiftLeft_le (m k : ℕ) : (m <<< k).log2 ≤ m.log2 + k := by
  apply log2_le_of_lt
  rw [Nat.shiftLeft_eq]
  calc m * 2 ^ k < 2 ^ (m.log2 + 1) * 2 ^ k :=
        Nat.mul_lt_mul_of_pos_right Nat.lt_log2_self (by positivity)
    _ = 2 ^ (m.log2 + k + 1) := by
        rw [← Nat.pow_add]
        congr 1
        omega

theorem shiftRight_mantissa (em : ExtendedMantissa) (n : ℕ) :
    (em >>> n).mantissa = em.mantissa / 2 ^ n := by
  induction n with
  | zero => exact (Nat.div_one _).symm
  | succ n ih =>
    have hstep : (em >>> (n + 1)).mantissa = (em >>> n).mantissa / 2 := rfl
    rw [hstep, ih, Nat.div_div_eq_div_mul, Nat.pow_succ]

/-- Rounding adds one at most, and nothing if the first digit behind the kept ones is zero. -/
theorem roundedMantissa_le (em : ExtendedMantissa) :
    em.roundedMantissa ≤ em.mantissa + em.roundBit.toNat := by
  rcases em with ⟨m, r, s⟩
  cases r <;> cases s <;>
    simp [ExtendedMantissa.roundedMantissa, ExtendedMantissa.accuracy, Accuracy.roundToNearestEven]
  omega

/-- Half of a unit is the most that rounding adds. -/
theorem two_mul_roundedMantissa_le (em : ExtendedMantissa) (n : ℕ) :
    2 * (em >>> (n + 1)).roundedMantissa ≤ em.mantissa / 2 ^ n + 1 := by
  have hrounded := roundedMantissa_le (em >>> (n + 1))
  have hmantissa : (em >>> (n + 1)).mantissa = em.mantissa / 2 ^ n / 2 := by
    rw [← shiftRight_mantissa em n]
    rfl
  have hbit : (em >>> (n + 1)).roundBit = (em.mantissa / 2 ^ n % 2 != 0) := by
    rw [← shiftRight_mantissa em n]
    rfl
  rw [hmantissa, hbit] at hrounded
  have hodd : (em.mantissa / 2 ^ n % 2 != 0).toNat = em.mantissa / 2 ^ n % 2 := by
    rcases Nat.mod_two_eq_zero_or_one (em.mantissa / 2 ^ n) with h | h
    · rw [h]
      rfl
    · rw [h]
      rfl
  omega

theorem ofMantissaAndAccuracy_mantissa (m : ℕ) (a : Accuracy) :
    (ExtendedMantissa.ofMantissaAndAccuracy m a).mantissa = m := by
  cases a with
  | exact => rfl
  | inexact o => cases o <;> rfl

/-- The digits that are kept of a value, with what is known of the others. -/
def kept (m : ℕ) (e : ℤ) (a : Accuracy) : ExtendedMantissa :=
  ExtendedMantissa.ofMantissaAndAccuracy m a >>> (max (m.log2 + e - 52) (-1074) - e).toNat

theorem shiftToTargetExponent_eq (m : ℕ) (e : ℤ) (a : Accuracy) :
    shiftToTargetExponent Format.binary64 m e a =
      (kept m e a, max e (max (m.log2 + e - 52) (-1074))) := by
  rw [shiftToTargetExponent, targetExponent_totalExponent, shiftToExponent, kept]
  simp only [Prod.mk.injEq, true_and]
  omega

/-- No more than 53 digits are kept. -/
theorem kept_mantissa_lt (m : ℕ) (e : ℤ) (a : Accuracy) : (kept m e a).mantissa < 2 ^ 53 := by
  rw [kept, shiftRight_mantissa, ofMantissaAndAccuracy_mantissa, Nat.div_lt_iff_lt_mul (by positivity),
    ← Nat.pow_add]
  have hpow : 2 ^ (m.log2 + 1) ≤ 2 ^ (53 + (max (m.log2 + e - 52) (-1074) - e).toNat) :=
    Nat.pow_le_pow_right (by decide) (by omega)
  exact lt_of_lt_of_le Nat.lt_log2_self hpow

/-- The exponent after rounding is that of the digits kept, or one more if rounding up carries through
all of them. -/
theorem roundWithAccuracy_within {s : Sign} {m : ℕ} {e E : ℤ} {a : Accuracy}
    (he : max e (max (m.log2 + e - 52) (-1074)) ≤ E)
    (hcarry : (kept m e a).roundedMantissa < 2 ^ 53 ∨
      max e (max (m.log2 + e - 52) (-1074)) < E) :
    Within E (roundWithAccuracy Format.binary64 s m e a) := by
  have hrounded := roundedMantissa_le (kept m e a)
  have hkept := kept_mantissa_lt m e a
  have hbit : (kept m e a).roundBit.toNat ≤ 1 := Bool.toNat_le _
  have hleast : -1074 ≤ max e (max (m.log2 + e - 52) (-1074)) := by omega
  rw [roundWithAccuracy, shiftToTargetExponent_eq]
  dsimp only
  rw [shiftToTargetExponent_eq]
  generalize (kept m e a).roundedMantissa = r at *
  generalize max e (max (m.log2 + e - 52) (-1074)) = e₁ at *
  dsimp only
  split
  · trivial
  · show max e₁ (max (r.log2 + e₁ - 52) (-1074)) ≤ E
    rcases hcarry with hlt | hlt
    · have hlog : r.log2 ≤ 52 := log2_le_of_lt hlt
      omega
    · have hlog : r.log2 ≤ 53 := log2_le_of_lt (by omega)
      omega

theorem hasSign_roundWithAccuracy (s : Sign) (m : ℕ) (e : ℤ) (a : Accuracy) :
    HasSign s (roundWithAccuracy Format.binary64 s m e a) := by
  unfold roundWithAccuracy
  dsimp only
  split
  · rfl
  · rfl

/-- Without digits to spare nothing is rounded. -/
theorem roundWithAccuracy_exact {s : Sign} {m : ℕ} {e : ℤ}
    (h : max (m.log2 + e - 52) (-1074) ≤ e) :
    roundWithAccuracy Format.binary64 s m e .exact =
      if hm : m = 0 then .zero s else .finite s m e (Nat.pos_of_ne_zero hm) := by
  have hshift : shiftToTargetExponent Format.binary64 m e .exact = (⟨m, false, false⟩, e) := by
    have hnone : (max (m.log2 + e - 52) (-1074) - e).toNat = 0 := by omega
    rw [shiftToTargetExponent_eq, max_eq_left h, kept, hnone]
    rfl
  have hrounded : (⟨m, false, false⟩ : ExtendedMantissa).roundedMantissa = m := rfl
  rw [roundWithAccuracy, hshift]
  dsimp only
  rw [hrounded, hshift]

/-- Before rounding, a value is written with more digits if it has too few. -/
theorem round_eq (s : Sign) (m : ℕ) (e : ℤ) :
    ∃ k : ℕ, (k : ℤ) = max 0 (e - max (m.log2 + e - 52) (-1074)) ∧
      UnpackedFloat.round Format.binary64 s m e =
        roundWithAccuracy Format.binary64 s (m <<< k) (e - k) .exact := by
  refine ⟨(e - max (m.log2 + e - 52) (-1074)).toNat, by omega, ?_⟩
  rw [UnpackedFloat.round, targetExponent_totalExponent]
  rfl

/-- A whole number of 53 digits or fewer is not rounded; at most it gets more digits. -/
theorem round_eq_finite {s : Sign} {m : ℕ} {e : ℤ} (hpos : 0 < m) (hlt : m < 2 ^ 53)
    (he : -1074 ≤ e) (he' : e ≤ 971) :
    ∃ (k : ℕ) (h : 0 < m <<< k), IsCanonical (m <<< k) (e - k) ∧
      UnpackedFloat.round Format.binary64 s m e = .finite s (m <<< k) (e - k) h := by
  have hlog : m.log2 ≤ 52 := log2_le_of_lt hlt
  rcases round_eq s m e with ⟨k, hk, hround⟩
  have hlog' : (m <<< k).log2 ≤ m.log2 + k := log2_shiftLeft_le m k
  have hne : m <<< k ≠ 0 := by simp [Nat.shiftLeft_eq, hpos.ne']
  rw [roundWithAccuracy_exact (by omega), dif_neg hne] at hround
  have hlt' : m <<< k < 2 ^ 53 := (Nat.log2_lt hne).mp (by omega)
  have hfull : e - k = -1074 ∨ 2 ^ 52 ≤ m <<< k := by
    by_cases hleast : e - k = -1074
    · exact .inl hleast
    · right
      have hlength : 52 = m.log2 + k := by omega
      rw [hlength, Nat.pow_add, Nat.shiftLeft_eq]
      exact Nat.mul_le_mul_right _ (Nat.log2_self_le hpos.ne')
  exact ⟨k, Nat.pos_of_ne_zero hne, ⟨hlt', by omega, by omega, hfull⟩, hround⟩

theorem round_zero (s : Sign) {e : ℤ} (he : -1074 ≤ e) :
    UnpackedFloat.round Format.binary64 s 0 e = .zero s := by
  rcases round_eq s 0 e with ⟨k, hk, hround⟩
  rw [Nat.log2_zero] at hk
  rw [hround, Nat.zero_shiftLeft, roundWithAccuracy_exact (by rw [Nat.log2_zero]; omega), dif_pos rfl]

/-- What lies below half a unit beyond the greatest finite double is rounded to a finite one. -/
theorem round_within {s : Sign} {m : ℕ} {e : ℤ} (he : e ≤ 970)
    (hlt : m < (2 ^ 54 - 1) * 2 ^ (970 - e).toNat) :
    Within 971 (UnpackedFloat.round Format.binary64 s m e) := by
  have hlog : m.log2 ≤ 53 + (970 - e).toNat := by
    apply log2_le_of_lt
    have hpow : 2 ^ (53 + (970 - e).toNat + 1) = 2 ^ 54 * 2 ^ (970 - e).toNat := by
      rw [← Nat.pow_add]
      congr 1
      omega
    rw [hpow]
    exact lt_of_lt_of_le hlt (Nat.mul_le_mul_right _ (by decide))
  rcases round_eq s m e with ⟨k, hk, hround⟩
  have hlog' : (m <<< k).log2 ≤ m.log2 + k := log2_shiftLeft_le m k
  rw [hround]
  apply roundWithAccuracy_within
  · omega
  · by_cases hless : max (e - k) (max ((m <<< k).log2 + (e - k) - 52) (-1074)) < 971
    · exact .inr hless
    · -- all digits behind the 53rd are dropped, and half a unit is not reached
      left
      have hzero : k = 0 := by omega
      rw [hzero, Nat.shiftLeft_zero, Int.natCast_zero, Int.sub_zero] at hless ⊢
      have hshift : (max (m.log2 + e - 52) (-1074) - e).toNat = (970 - e).toNat + 1 := by omega
      have hhalf := two_mul_roundedMantissa_le (ExtendedMantissa.ofMantissaAndAccuracy m .exact)
        (970 - e).toNat
      rw [ofMantissaAndAccuracy_mantissa] at hhalf
      have hdiv : m / 2 ^ (970 - e).toNat < 2 ^ 54 - 1 :=
        (Nat.div_lt_iff_lt_mul (by positivity)).mpr hlt
      rw [kept, hshift]
      omega

end TurtleGraphics.Binary64
