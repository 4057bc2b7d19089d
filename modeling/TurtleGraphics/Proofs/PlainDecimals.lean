import Mathlib
import TurtleGraphics.Decimal.Digits
import TurtleGraphics.Decimal.Shortest

namespace TurtleGraphics.Decimal

/-! # Plain decimals

What the written form of a number stands for when it is read as a decimal without a sign.

* `plain?`: the number that digits stand for, with a point between them or without one.
* `plain?_positional`: a numeral in positional notation stands for its digits times its power of ten.
* `shortest_le`: the shortest numeral of a positive double is not greater than the numbers that round
  to it.
-/

/-! ## Reading -/

/-- The number that a text of digits stands for, with a point between two of them or without one. -/
def plain? (cs : List Char) : Option ℚ :=
  let whole := cs.takeWhile Char.isDigit
  match cs.dropWhile Char.isDigit with
  | [] => if isDigits whole then some (natOfDigits whole) else none
  | '.' :: part =>
    if isDigits whole && isDigits part then
      some (natOfDigits (whole ++ part) / 10 ^ part.length)
    else none
  | _ => none

theorem isDigits_iff {ds : List Char} :
    isDigits ds = true ↔ ds ≠ [] ∧ ∀ d ∈ ds, d.isDigit = true := by
  simp [isDigits]

theorem natOfDigits_eq (ds : List Char) : natOfDigits ds = Nat.ofDigitChars 10 ds 0 := rfl

section Digits

variable {ds es : List Char}

theorem plain?_digits (h : isDigits ds = true) : plain? ds = some (natOfDigits ds : ℚ) := by
  have hall := (isDigits_iff.mp h).2
  have htake : ds.takeWhile Char.isDigit = ds := List.takeWhile_eq_self_iff.mpr hall
  have hdrop : ds.dropWhile Char.isDigit = [] := List.dropWhile_eq_nil_iff.mpr hall
  simp only [plain?, htake, hdrop, h, if_true]

/-- Digits end where another character comes. -/
theorem span_isDigit (hds : isDigits ds = true) {c : Char} (hc : c.isDigit = false)
    (es : List Char) :
    (ds ++ c :: es).takeWhile Char.isDigit = ds ∧
      (ds ++ c :: es).dropWhile Char.isDigit = c :: es := by
  have hall := (isDigits_iff.mp hds).2
  constructor
  · rw [List.takeWhile_append_of_pos hall, List.takeWhile_cons_of_neg (by simp [hc]),
      List.append_nil]
  · rw [List.dropWhile_append_of_pos hall, List.dropWhile_cons_of_neg (by simp [hc])]

theorem plain?_point (hds : isDigits ds = true) (hes : isDigits es = true) :
    plain? (ds ++ '.' :: es) = some ((natOfDigits (ds ++ es) : ℚ) / 10 ^ es.length) := by
  rcases span_isDigit hds (c := '.') rfl es with ⟨htake, hdrop⟩
  simp only [plain?, htake, hdrop, hds, hes, Bool.and_self, if_true]

/-- A sign is no part of a plain decimal. -/
theorem plain?_minus (cs : List Char) : plain? ('-' :: cs) = none := by
  have hminus : Char.isDigit '-' = false := by decide
  simp [plain?, hminus]

/-- Zeros may stand before or after other digits. -/
theorem isDigits_append (h : isDigits ds = true) (k : ℕ) :
    isDigits (ds ++ List.replicate k '0') = true ∧
      isDigits (List.replicate k '0' ++ ds) = true := by
  rcases isDigits_iff.mp h with ⟨hne, hall⟩
  have hzero : ∀ d ∈ List.replicate k '0', d.isDigit = true := by
    intro d hd
    rw [List.eq_of_mem_replicate hd]
    rfl
  rw [isDigits_iff, isDigits_iff, List.forall_mem_append, List.forall_mem_append]
  exact ⟨⟨List.append_ne_nil_of_left_ne_nil hne _, hall, hzero⟩,
    List.append_ne_nil_of_right_ne_nil _ hne, hzero, hall⟩

end Digits

theorem isDigits_toDigits (n : ℕ) : isDigits (Nat.toDigits 10 n) = true :=
  isDigits_iff.mpr ⟨Nat.toDigits_ne_nil,
    fun _ hd => Nat.isDigit_of_mem_toDigits (by decide) (by decide) hd⟩

theorem natOfDigits_toDigits (n : ℕ) : natOfDigits (Nat.toDigits 10 n) = n :=
  Nat.ofDigitChars_ten_toDigits

/-- A numeral stands for its digits times its power of ten. -/
theorem plain?_positional (n : Numeral) :
    plain? n.positional = some ((n.digits : ℚ) * 10 ^ n.exponent) := by
  have hdigits := isDigits_toDigits n.digits
  rcases isDigits_iff.mp hdigits with ⟨hne, hall⟩
  have hvalue := natOfDigits_toDigits n.digits
  unfold Numeral.positional
  dsimp only
  generalize Nat.toDigits 10 n.digits = ds at *
  by_cases hwhole : 0 ≤ n.exponent
  · -- zeros follow the digits
    rcases Int.eq_ofNat_of_zero_le hwhole with ⟨k, hk⟩
    rw [if_pos hwhole, hk, Int.toNat_natCast, plain?_digits (isDigits_append hdigits k).1,
      natOfDigits_eq, Nat.ofDigitChars_append, Nat.ofDigitChars_replicate_zero, ← natOfDigits_eq,
      hvalue, zpow_natCast]
    push_cast
    rw [mul_comm]
  · obtain ⟨k, hk⟩ : ∃ k : ℕ, n.exponent = -(k : ℤ) := ⟨(-n.exponent).toNat, by omega⟩
    have hplaces : (-n.exponent).toNat = k := by omega
    have hpow : (10 : ℚ) ^ n.exponent = (10 ^ k)⁻¹ := by rw [hk, zpow_neg, zpow_natCast]
    rw [if_neg hwhole, hplaces, hpow, ← div_eq_mul_inv]
    split
    · -- the point stands among the digits
      rename_i hshort
      have hfront : isDigits (ds.take (ds.length - k)) = true := by
        rw [isDigits_iff, ne_eq, List.take_eq_nil_iff, not_or]
        exact ⟨⟨by omega, hne⟩, fun d hd => hall d (List.mem_of_mem_take hd)⟩
      have hback : isDigits (ds.drop (ds.length - k)) = true := by
        rw [isDigits_iff, ne_eq, List.drop_eq_nil_iff]
        exact ⟨by omega, fun d hd => hall d (List.mem_of_mem_drop hd)⟩
      have hlength : (ds.drop (ds.length - k)).length = k := by
        rw [List.length_drop]
        omega
      rw [plain?_point hfront hback, List.take_append_drop, hvalue, hlength]
    · -- the point stands before them, after a zero
      rename_i hlong
      have hback := (isDigits_append hdigits (k - ds.length)).2
      have hlength : (List.replicate (k - ds.length) '0' ++ ds).length = k := by
        rw [List.length_append, List.length_replicate]
        omega
      have hzeros : natOfDigits (['0'] ++ (List.replicate (k - ds.length) '0' ++ ds)) =
          natOfDigits ds := by
        rw [natOfDigits_eq, Nat.ofDigitChars_append, Nat.ofDigitChars_append,
          Nat.ofDigitChars_replicate_zero]
        rfl
      have hzero : isDigits ['0'] = true := rfl
      have hpoint := plain?_point hzero hback
      rwa [hzeros, hvalue, hlength] at hpoint

/-! ## Shortest numerals -/

/-- The numbers that round to a double go as far as `high`, and a multiple among them too. -/
theorem multiple?_le {i : Interval} {k : ℤ} {n : ℕ} (h : i.multiple? k = some n) :
    (n * 10 ^ k : ℚ) ≤ i.high * 2 ^ i.unit := by
  -- the numeral and the bound, as whole numbers of one unit
  have hcontains : (i.onGrid k).1.contains (n * (i.onGrid k).2) = true := by
    unfold Interval.multiple? at h
    dsimp only at h
    split at h
    · rename_i hbelow habove
      split at h
      · rwa [← Option.some.inj h]
      · rwa [← Option.some.inj h]
    · rename_i hbelow _
      rwa [← Option.some.inj h]
    · rename_i _ habove
      rwa [← Option.some.inj h]
    · cases h
  have hle : n * (10 ^ k.toNat * 2 ^ (-i.unit).toNat) ≤
      i.high * (2 ^ i.unit.toNat * 10 ^ (-k).toNat) := by
    unfold Interval.contains at hcontains
    split at hcontains
    · rw [Bool.and_eq_true, decide_eq_true_eq, decide_eq_true_eq] at hcontains
      exact hcontains.2
    · rw [Bool.and_eq_true, decide_eq_true_eq, decide_eq_true_eq] at hcontains
      exact hcontains.2.le
  have hten : (10 : ℚ) ^ k = 10 ^ k.toNat / 10 ^ (-k).toNat := by
    rw [← zpow_natCast, ← zpow_natCast, ← zpow_sub₀ (by norm_num)]
    congr 1
    omega
  have htwo : (2 : ℚ) ^ i.unit = 2 ^ i.unit.toNat / 2 ^ (-i.unit).toNat := by
    rw [← zpow_natCast, ← zpow_natCast, ← zpow_sub₀ (by norm_num)]
    congr 1
    omega
  rw [hten, htwo, ← mul_div_assoc, ← mul_div_assoc, div_le_div_iff₀ (by positivity) (by positivity)]
  calc (n : ℚ) * 10 ^ k.toNat * 2 ^ (-i.unit).toNat
      = ((n * (10 ^ k.toNat * 2 ^ (-i.unit).toNat) : ℕ) : ℚ) := by push_cast; ring
    _ ≤ ((i.high * (2 ^ i.unit.toNat * 10 ^ (-k).toNat) : ℕ) : ℚ) := by exact_mod_cast hle
    _ = i.high * 2 ^ i.unit.toNat * 10 ^ (-k).toNat := by push_cast; ring

theorem search_le (i : Interval) (k : ℤ) (tries : ℕ) :
    ((i.search k tries).digits * 10 ^ (i.search k tries).exponent : ℚ) ≤ i.high * 2 ^ i.unit := by
  induction tries generalizing k with
  | zero =>
    have hzero : i.search k 0 = ⟨0, 0⟩ := rfl
    rw [hzero, Nat.cast_zero, zero_mul]
    positivity
  | succ tries ih =>
    unfold Interval.search
    cases hmultiple : i.multiple? k with
    | some n => exact multiple?_le hmultiple
    | none => exact ih (k - 1)

/-- The shortest numeral of a double is at most half a unit of its last binary digit greater. -/
theorem shortest_le (m : ℕ) (e : ℤ) :
    ((shortest m e).digits * 10 ^ (shortest m e).exponent : ℚ) ≤ (4 * m + 2) * 2 ^ (e - 2) := by
  have hhigh := search_le (Interval.around m e) (exponentBound m e) 21
  have hcast : ((Interval.around m e).high : ℚ) = 4 * m + 2 := by
    show ((4 * m + 2 : ℕ) : ℚ) = _
    push_cast
    rfl
  rwa [hcast] at hhigh

end TurtleGraphics.Decimal
