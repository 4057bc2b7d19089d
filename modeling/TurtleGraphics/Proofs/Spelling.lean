import Mathlib
import TurtleGraphics.Color
import TurtleGraphics.Decimal.Shortest

namespace TurtleGraphics

/-! # The spelling of numbers and colors

What the written forms of doubles and colors consist of.

* `Decimal.isNumeralChar_of_mem`: a double is written with digits, a minus sign, a point, and the
  letters of `NaN` and `inf`, so that its text can stand between any other characters.
* `Color.ofHex?_text`: a color is read back from its written form.
-/

namespace Decimal

open Float.Model

/-- A character that the written form of a double can have. -/
def IsNumeralChar (c : Char) : Prop :=
  c.isDigit = true ∨ c ∈ ['-', '.', 'N', 'a', 'i', 'n', 'f']

theorem isNumeralChar_of_mem_positional {n : Numeral} {c : Char} (h : c ∈ n.positional) :
    IsNumeralChar c := by
  have hdigit : ∀ {d}, d ∈ Nat.toDigits 10 n.digits → IsNumeralChar d :=
    fun hd => .inl (Nat.isDigit_of_mem_toDigits (by decide) (by decide) hd)
  have hzero : IsNumeralChar '0' := .inl rfl
  have hpoint : IsNumeralChar '.' := .inr (by decide)
  unfold Numeral.positional at h
  dsimp only at h
  split at h
  · rcases List.mem_append.mp h with h | h
    · exact hdigit h
    · rwa [List.eq_of_mem_replicate h]
  split at h
  · -- the point stands among the digits
    rcases List.mem_append.mp h with h | h
    · exact hdigit (List.mem_of_mem_take h)
    rcases List.mem_cons.mp h with rfl | h
    · exact hpoint
    · exact hdigit (List.mem_of_mem_drop h)
  · -- the point stands before them
    rcases List.mem_append.mp h with h | h
    · rcases List.mem_cons.mp h with rfl | h
      · exact hzero
      rcases List.mem_cons.mp h with rfl | h
      · exact hpoint
      · rwa [List.eq_of_mem_replicate h]
    · exact hdigit h

theorem isNumeralChar_of_mem_signed {s : UnpackedFloat.Sign} {cs : List Char}
    (hcs : ∀ c ∈ cs, IsNumeralChar c) : ∀ c ∈ signed s cs, IsNumeralChar c := by
  cases s with
  | positive => exact hcs
  | negative => exact List.forall_mem_cons.mpr ⟨.inr (by decide), hcs⟩

/-- The written form of a double has no other characters. -/
theorem isNumeralChar_of_mem {x : Float} {c : Char} (h : c ∈ (text x).toList) :
    IsNumeralChar c := by
  rw [text, String.toList_ofList, characters] at h
  split at h
  · have hletters : ∀ d ∈ ['N', 'a', 'N'], IsNumeralChar d := by simp [IsNumeralChar]
    exact hletters c h
  · have hletters : ∀ d ∈ ['i', 'n', 'f'], IsNumeralChar d := by simp [IsNumeralChar]
    exact isNumeralChar_of_mem_signed hletters c h
  · refine isNumeralChar_of_mem_signed (fun d hd => .inl ?_) c h
    rw [List.mem_singleton.mp hd]
    rfl
  · exact isNumeralChar_of_mem_signed (fun _ => isNumeralChar_of_mem_positional) c h

end Decimal

namespace Color

theorem hexValue?_hexDigit : ∀ n < 16, hexValue? (hexDigit n) = some n := by decide

theorem channel_digits (v : UInt8) : channel (v.toNat / 16) (v.toNat % 16) = v := by
  rw [channel, Nat.div_add_mod]
  exact UInt8.ofNat_toNat

/-- A color is read back from its written form. -/
theorem ofHex?_text (c : Color) : ofHex? c.text = some c := by
  have hhigh : ∀ v : UInt8, hexValue? (hexDigit (v.toNat / 16)) = some (v.toNat / 16) := by
    intro v
    have := v.toNat_lt
    exact hexValue?_hexDigit _ (by omega)
  have hlow : ∀ v : UInt8, hexValue? (hexDigit (v.toNat % 16)) = some (v.toNat % 16) :=
    fun v => hexValue?_hexDigit _ (by omega)
  simp [ofHex?, text, channelText, hhigh, hlow, ofDigits?, channel_digits]

end Color

end TurtleGraphics
