import Mathlib
import TurtleGraphics.Text.Token

namespace TurtleGraphics.Text

/-! # Upper case, character by character

Every character is its own upper case or a small one, and the upper case of a small one consists of
capitals, which are not small. So upper case is final, and it has no effect on what parts a text into
its words: it leaves every blank, bracket and double quote as it is, and makes none of any other
character.

* `upperChar_cases`: the two kinds of characters. This is read off the tables; nothing after it looks
  into them.
* `upper_upper`: upper case is its own upper case.
* `upperChar_of_mark`, `eq_of_mem_upperChar`: marks stay what they are, and nothing else turns into
  one.
* `eq_of_upperChar_eq`: so no other character has the same upper case as a blank or a bracket, and
  characters with the same upper case belong to words alike (`isWordChar_congr`).
-/

/-! ## Small characters and capitals -/

/-- The numbers of the characters of a run. -/
def CaseRun.members (r : CaseRun) : List Nat :=
  List.range' r.first ((r.last - r.first) / r.step + 1) r.step

/-- The numbers of their partners. -/
def CaseRun.partners (r : CaseRun) : List Nat :=
  List.range' r.target ((r.last - r.first) / r.step + 1) r.step

theorem CaseRun.mem_members {r : CaseRun} {n : Nat} (h : r.contains n = true) :
    n ∈ r.members ∧ r.partner n ∈ r.partners := by
  simp only [contains, Bool.and_eq_true, decide_eq_true_eq, beq_iff_eq] at h
  rcases h with ⟨⟨hfirst, hlast⟩, hstep⟩
  have hn : n - r.first = r.step * ((n - r.first) / r.step) :=
    (Nat.mul_div_cancel' (Nat.dvd_of_mod_eq_zero hstep)).symm
  have hle : (n - r.first) / r.step ≤ (r.last - r.first) / r.step :=
    Nat.div_le_div_right (by omega)
  constructor
  · rw [members, List.mem_range']
    exact ⟨(n - r.first) / r.step, Nat.lt_succ_of_le hle, by omega⟩
  · rw [partners, List.mem_range', partner]
    exact ⟨(n - r.first) / r.step, Nat.lt_succ_of_le hle, by omega⟩

/-- The numbers of all characters with another upper case. -/
def smalls : List Nat :=
  List.range' 0x61 26 ++ caseRuns.flatMap (·.members) ++ caseExpansions.map (·.1)

/-- The numbers of all characters in the upper case of others. -/
def capitals : List Nat :=
  List.range' 0x41 26 ++ caseRuns.flatMap (·.partners) ++ caseExpansions.flatMap (·.2)

theorem toUpper_ascii : ∀ n < 128, (Char.ofNat n).toUpper = Char.ofNat n ∨
    n ∈ List.range' 0x61 26 ∧ (Char.ofNat n).toUpper.toNat ∈ List.range' 0x41 26 := by
  decide +kernel

/-- A character is its own upper case, or it is small and its upper case consists of capitals. -/
theorem upperChar_cases (c : Char) :
    upperChar c = [c] ∨
      c.toNat ∈ smalls ∧ ∀ d ∈ upperChar c, ∃ n ∈ capitals, d = Char.ofNat n := by
  unfold upperChar
  split
  · rename_i hascii
    have hupper := toUpper_ascii c.toNat hascii
    rw [Char.ofNat_toNat] at hupper
    rcases hupper with hsame | ⟨hsmall, hcapital⟩
    · left
      rw [hsame]
    · right
      constructor
      · simp [smalls, hsmall]
      · intro d hd
        rw [List.mem_singleton.mp hd]
        exact ⟨c.toUpper.toNat, by simp [capitals, hcapital], (Char.ofNat_toNat _).symm⟩
  · split
    · rename_i r hr
      have hmem := List.mem_of_find?_eq_some hr
      have hcontains : r.contains c.toNat = true :=
        List.find?_some (p := fun r : CaseRun => r.contains c.toNat) hr
      rcases CaseRun.mem_members hcontains with ⟨hsmall, hcapital⟩
      right
      constructor
      · rw [smalls, List.mem_append, List.mem_append]
        exact .inl (.inr (List.mem_flatMap.mpr ⟨r, hmem, hsmall⟩))
      · intro d hd
        refine ⟨r.partner c.toNat, ?_, List.mem_singleton.mp hd⟩
        rw [capitals, List.mem_append, List.mem_append]
        exact .inl (.inr (List.mem_flatMap.mpr ⟨r, hmem, hcapital⟩))
    · split
      · rename_i ns hns
        rcases List.lookup_eq_some_iff.mp hns with ⟨before, after, hsplit, -⟩
        have hmem : (c.toNat, ns) ∈ caseExpansions := by simp [hsplit]
        right
        constructor
        · rw [smalls, List.mem_append]
          exact .inr (List.mem_map.mpr ⟨_, hmem, rfl⟩)
        · intro d hd
          rcases List.mem_map.mp hd with ⟨n, hn, rfl⟩
          refine ⟨n, ?_, rfl⟩
          rw [capitals, List.mem_append]
          exact .inr (List.mem_flatMap.mpr ⟨_, hmem, hn⟩)
      · exact .inl rfl

/-! ## Sets of characters as numbers

The lists are long, so they are compared as sets of bits. -/

/-- The number whose bits are set at these places. -/
def bits (ns : List Nat) : Nat :=
  ns.foldr (fun n m => 2 ^ n ||| m) 0

theorem testBit_bits (ns : List Nat) (n : Nat) : (bits ns).testBit n = true ↔ n ∈ ns := by
  induction ns with
  | nil => simp [bits]
  | cons m ns ih =>
    rw [bits, List.foldr_cons, Nat.testBit_or, Bool.or_eq_true, ← bits, ih, Nat.testBit_two_pow]
    simp [eq_comm]

theorem not_mem_of_bits {ms ns : List Nat} (h : bits ms &&& bits ns = 0) : ∀ n ∈ ms, n ∉ ns := by
  intro n hm hn
  have hbit : (bits ms &&& bits ns).testBit n = true := by
    rw [Nat.testBit_and, Bool.and_eq_true, testBit_bits, testBit_bits]
    exact ⟨hm, hn⟩
  rw [h, Nat.zero_testBit] at hbit
  cases hbit

theorem not_mem_smalls_of_capital : ∀ n ∈ capitals, n ∉ smalls :=
  not_mem_of_bits (by decide +kernel)

/-! ## Upper case is final -/

theorem upperChar_of_not_mem {c : Char} (h : c.toNat ∉ smalls) : upperChar c = [c] := by
  rcases upperChar_cases c with hsame | ⟨hsmall, -⟩
  · exact hsame
  · exact absurd hsmall h

/-- A number that is none of a character stands for the character numbered zero. -/
theorem toNat_ofNat_cases (n : Nat) : (Char.ofNat n).toNat = n ∨ Char.ofNat n = '\x00' := by
  by_cases h : n.isValidChar
  · left
    simp [Char.toNat_ofNat, h]
  · right
    rw [Char.ofNat, dif_neg h]
    rfl

/-- What is in upper case is its own upper case. -/
theorem upperChar_of_mem {c d : Char} (h : d ∈ upperChar c) : upperChar d = [d] := by
  rcases upperChar_cases c with hsame | ⟨-, hcapitals⟩
  · rw [hsame, List.mem_singleton] at h
    rw [h, hsame]
  · rcases hcapitals d h with ⟨n, hn, rfl⟩
    rcases toNat_ofNat_cases n with heq | hzero
    · apply upperChar_of_not_mem
      rw [heq]
      exact not_mem_smalls_of_capital n hn
    · rw [hzero]
      decide

/-- Upper case is its own upper case. -/
theorem upper_upper (s : String) : upper (upper s) = upper s := by
  apply String.toList_injective
  rw [toList_upper, toList_upper, List.flatMap_assoc]
  apply List.flatMap_congr
  intro c _
  rw [List.flatMap_congr fun d hd => upperChar_of_mem hd, List.flatMap_singleton']

/-! ## Marks -/

/-- The numbers of all blanks and brackets. -/
def separators : List Nat :=
  [0x09, 0x0A, 0x0B, 0x0C, 0x0D, 0x20, 0x5B, 0x5D, 0x85, 0xA0, 0x1680, 0x2000, 0x2001, 0x2002,
    0x2003, 0x2004, 0x2005, 0x2006, 0x2007, 0x2008, 0x2009, 0x200A, 0x2028, 0x2029, 0x202F, 0x205F,
    0x3000]

/-- The numbers of all characters that part words or stand around names. -/
def marks : List Nat := '"'.toNat :: separators

theorem mem_marks_of_separator {c : Char} (h : isWordChar c = false) : c.toNat ∈ marks := by
  simp only [isWordChar, isBlank, isBracket, Bool.and_eq_false_iff, Bool.not_eq_false',
    Bool.or_eq_true, Bool.and_eq_true, decide_eq_true_eq, beq_iff_eq] at h
  apply List.mem_cons_of_mem
  rcases h with hblank | rfl | rfl
  · simp only [separators, List.mem_cons, List.not_mem_nil, or_false]
    omega
  · decide
  · decide

theorem not_mem_smalls_of_mark : ∀ n ∈ marks, n ∉ smalls :=
  not_mem_of_bits (by decide +kernel)

theorem not_mem_capitals_of_mark : ∀ n ∈ marks, n ∉ capitals :=
  not_mem_of_bits (by decide +kernel)

/-- Upper case leaves marks alone. -/
theorem upperChar_of_mark {c : Char} (h : c.toNat ∈ marks) : upperChar c = [c] :=
  upperChar_of_not_mem (not_mem_smalls_of_mark c.toNat h)

/-- Nothing becomes a mark in upper case that was none before. -/
theorem eq_of_mem_upperChar {c d : Char} (h : d ∈ upperChar c) (hd : d.toNat ∈ marks) : c = d := by
  rcases upperChar_cases c with hsame | ⟨-, hcapitals⟩
  · rw [hsame, List.mem_singleton] at h
    exact h.symm
  · rcases hcapitals d h with ⟨n, hn, rfl⟩
    exfalso
    rcases toNat_ofNat_cases n with heq | hzero
    · rw [heq] at hd
      exact not_mem_capitals_of_mark n hd hn
    · rw [hzero] at hd
      revert hd
      decide

/-- Nothing becomes a blank or a bracket in upper case that was none before. -/
theorem mem_upperChar {c d : Char} (h : d ∈ upperChar c) (hd : isWordChar d = false) : c = d :=
  eq_of_mem_upperChar h (mem_marks_of_separator hd)

/-- No other character has the same upper case as a blank or a bracket. -/
theorem eq_of_upperChar_eq {c d : Char} (hc : isWordChar c = false)
    (h : upperChar d = upperChar c) : d = c := by
  apply mem_upperChar (d := c) _ hc
  rw [h, upperChar_of_mark (mem_marks_of_separator hc)]
  exact List.mem_singleton_self c

/-- Characters with the same upper case belong to words alike. -/
theorem isWordChar_congr {c d : Char} (h : upperChar d = upperChar c) :
    isWordChar d = isWordChar c := by
  by_cases hc : isWordChar c = false
  · rw [eq_of_upperChar_eq hc h]
  by_cases hd : isWordChar d = false
  · rw [eq_of_upperChar_eq hd h.symm]
  · simp only [Bool.not_eq_false] at hc hd
    rw [hc, hd]

end TurtleGraphics.Text
