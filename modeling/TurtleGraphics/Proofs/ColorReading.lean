import TurtleGraphics.Proofs.Lines
import TurtleGraphics.Proofs.Partition
import TurtleGraphics.Proofs.Spelling

namespace TurtleGraphics.Color

open Text (byteLength byteLength_cons dropBytes? dropBytes?_byteLength takeBytes? encode)

/-! # How colors are read

The rules for a color in writing, stated without a reader, and what reading by them comes to.

* `IsHexDigit`, `IsSpelling`: a digit of either case, and a number sign with three digits or six.
* `ofHex?_eq_some`: what is read as a color is a spelling of it, and every spelling is read.
* `cutDigits?`, `cutColor?`: the same reading at byte positions, which can fail altogether where a
  position is inside a character. `cutColor?_eq` says that it never does: only digits are cut, and
  each of them is one byte.
* `text_of_isSpelling`: six digits are written again as they were, in lower case.

`ofHex?_exact` puts this together for all texts and all colors.
-/

/-- The digits in lower case, in the order of their values. -/
def lowerDigits : List Char :=
  ['0', '1', '2', '3', '4', '5', '6', '7', '8', '9', 'a', 'b', 'c', 'd', 'e', 'f']

/-- The digits in upper case. -/
def upperDigits : List Char :=
  ['0', '1', '2', '3', '4', '5', '6', '7', '8', '9', 'A', 'B', 'C', 'D', 'E', 'F']

/-- The character is the hexadecimal digit of value `v`, in either case. -/
def IsHexDigit (d : Char) (v : Nat) : Prop :=
  lowerDigits[v]? = some d ∨ upperDigits[v]? = some d

/-- The characters are a written form of the color. -/
inductive IsSpelling (c : Color) : List Char → Prop where
  /-- A digit for each channel, which stands for itself doubled. -/
  | short {r g b : Char} {x y z : Nat} : IsHexDigit r x → IsHexDigit g y → IsHexDigit b z →
      c.red.toNat = 17 * x → c.green.toNat = 17 * y → c.blue.toNat = 17 * z →
      IsSpelling c ['#', r, g, b]
  /-- Two digits for each channel. -/
  | long {r₁ r₀ g₁ g₀ b₁ b₀ : Char} {x₁ x₀ y₁ y₀ z₁ z₀ : Nat} : IsHexDigit r₁ x₁ →
      IsHexDigit r₀ x₀ → IsHexDigit g₁ y₁ → IsHexDigit g₀ y₀ → IsHexDigit b₁ z₁ →
      IsHexDigit b₀ z₀ → c.red.toNat = 16 * x₁ + x₀ → c.green.toNat = 16 * y₁ + y₀ →
      c.blue.toNat = 16 * z₁ + z₀ → IsSpelling c ['#', r₁, r₀, g₁, g₀, b₁, b₀]

/-! ## Digits -/

theorem hexValue?_ascii : ∀ n < 128, ∀ v < 16,
    hexValue? (Char.ofNat n) = some v ↔ IsHexDigit (Char.ofNat n) v := by
  unfold IsHexDigit
  decide +kernel

/-- A digit is a character of ASCII, and its value is below sixteen. -/
theorem hexValue?_lt {d : Char} {v : Nat} (h : hexValue? d = some v) : d.toNat < 128 ∧ v < 16 := by
  have hle : ∀ {a b : Char}, a ≤ b → a.toNat ≤ b.toNat := UInt32.le_iff_toNat_le.mp
  unfold hexValue? at h
  split_ifs at h with hdigit hlower hupper
  · simp only [Char.isDigit, Bool.and_eq_true, decide_eq_true_eq, ge_iff_le,
      UInt32.le_iff_toNat_le] at hdigit
    rcases hdigit with ⟨(hlow : 48 ≤ d.toNat), (hhigh : d.toNat ≤ 57)⟩
    have hv : d.toNat - 48 = v := Option.some_inj.mp h
    constructor <;> omega
  · have hlow : 97 ≤ d.toNat := hle hlower.1
    have hhigh : d.toNat ≤ 102 := hle hlower.2
    have hv : d.toNat - 97 + 10 = v := Option.some_inj.mp h
    constructor <;> omega
  · have hlow : 65 ≤ d.toNat := hle hupper.1
    have hhigh : d.toNat ≤ 70 := hle hupper.2
    have hv : d.toNat - 65 + 10 = v := Option.some_inj.mp h
    constructor <;> omega

/-- What holds of the sixteen digits in both cases holds of every digit. -/
theorem IsHexDigit.forall {P : Char → Nat → Prop} {d : Char} {v : Nat} (h : IsHexDigit d v)
    (hlower : ∀ i : Fin 16, P lowerDigits[i] i) (hupper : ∀ i : Fin 16, P upperDigits[i] i) :
    P d v := by
  rcases h with h | h
  · rcases List.getElem?_eq_some_iff.mp h with ⟨hv, rfl⟩
    exact hlower ⟨v, hv⟩
  · rcases List.getElem?_eq_some_iff.mp h with ⟨hv, rfl⟩
    exact hupper ⟨v, hv⟩

theorem hexValue?_eq_some {d : Char} {v : Nat} : hexValue? d = some v ↔ IsHexDigit d v := by
  constructor
  · intro h
    rcases hexValue?_lt h with ⟨hd, hv⟩
    have hascii := hexValue?_ascii d.toNat hd v hv
    rw [Char.ofNat_toNat] at hascii
    exact hascii.mp h
  · intro h
    exact h.forall (P := fun d v => hexValue? d = some v) (by decide) (by decide)

theorem IsHexDigit.lt {d : Char} {v : Nat} (h : IsHexDigit d v) : v < 16 :=
  (hexValue?_lt (hexValue?_eq_some.mpr h)).2

/-- A value is written as its digit in lower case. -/
theorem IsHexDigit.hexDigit_eq {d : Char} {v : Nat} (h : IsHexDigit d v) :
    hexDigit v = d.toLower :=
  h.forall (P := fun d v => hexDigit v = d.toLower) (by decide) (by decide)

/-! ## Spellings -/

theorem channel_eq_iff {x y : Nat} (hx : x < 16) (hy : y < 16) {v : UInt8} :
    channel x y = v ↔ v.toNat = 16 * x + y := by
  have hchannel : (channel x y).toNat = 16 * x + y := by
    rw [channel, UInt8.toNat_ofNat']
    omega
  rw [← UInt8.toNat_inj, hchannel, eq_comm]

theorem mapM_hexValue?_eq_some {ds : List Char} {vs : List Nat} :
    ds.mapM hexValue? = some vs ↔ List.Forall₂ IsHexDigit ds vs := by
  induction ds generalizing vs with
  | nil => simp [eq_comm]
  | cons d ds ih =>
    rw [List.mapM_cons, List.forall₂_cons_left_iff]
    simp only [Option.bind_eq_bind, Option.bind_eq_some_iff, Option.pure_def, Option.some.injEq, ih,
      hexValue?_eq_some]
    constructor
    · rintro ⟨v, hv, ws, hws, rfl⟩
      exact ⟨v, ws, hv, hws, rfl⟩
    · rintro ⟨v, ws, hv, hws, rfl⟩
      exact ⟨v, hv, ws, hws, rfl⟩

theorem ofDigits?_three {x y z : Nat} (hx : x < 16) (hy : y < 16) (hz : z < 16) {c : Color} :
    ofDigits? [x, y, z] = some c ↔
      c.red.toNat = 17 * x ∧ c.green.toNat = 17 * y ∧ c.blue.toNat = 17 * z := by
  have hdouble : ∀ v : Nat, 17 * v = 16 * v + v := by
    intro v
    omega
  rcases c with ⟨r, g, b⟩
  rw [hdouble, hdouble, hdouble, ← channel_eq_iff hx hx, ← channel_eq_iff hy hy,
    ← channel_eq_iff hz hz]
  simp [ofDigits?]

theorem ofDigits?_six {x₁ x₀ y₁ y₀ z₁ z₀ : Nat} (hx₁ : x₁ < 16) (hx₀ : x₀ < 16) (hy₁ : y₁ < 16)
    (hy₀ : y₀ < 16) (hz₁ : z₁ < 16) (hz₀ : z₀ < 16) {c : Color} :
    ofDigits? [x₁, x₀, y₁, y₀, z₁, z₀] = some c ↔
      c.red.toNat = 16 * x₁ + x₀ ∧ c.green.toNat = 16 * y₁ + y₀ ∧ c.blue.toNat = 16 * z₁ + z₀ := by
  rcases c with ⟨r, g, b⟩
  rw [← channel_eq_iff hx₁ hx₀, ← channel_eq_iff hy₁ hy₀, ← channel_eq_iff hz₁ hz₀]
  simp [ofDigits?]

/-- A text is read as a color if and only if it is a spelling of the color. -/
theorem ofHex?_eq_some {s : String} {c : Color} : ofHex? s = some c ↔ IsSpelling c s.toList := by
  unfold ofHex?
  constructor
  · intro h
    split at h
    · rename_i ds hs
      rw [hs]
      rcases Option.bind_eq_some_iff.mp h with ⟨vs, hvs, hc⟩
      rw [mapM_hexValue?_eq_some] at hvs
      unfold ofDigits? at hc
      split at hc
      · rcases hvs with _ | ⟨hr, _ | ⟨hg, _ | ⟨hb, _ | _⟩⟩⟩
        rcases (ofDigits?_three hr.lt hg.lt hb.lt).mp hc with ⟨hred, hgreen, hblue⟩
        exact .short hr hg hb hred hgreen hblue
      · rcases hvs with _ | ⟨hr₁, _ | ⟨hr₀, _ | ⟨hg₁, _ | ⟨hg₀, _ | ⟨hb₁, _ | ⟨hb₀, _ | _⟩⟩⟩⟩⟩⟩
        rcases (ofDigits?_six hr₁.lt hr₀.lt hg₁.lt hg₀.lt hb₁.lt hb₀.lt).mp hc
          with ⟨hred, hgreen, hblue⟩
        exact .long hr₁ hr₀ hg₁ hg₀ hb₁ hb₀ hred hgreen hblue
      · cases hc
    · cases h
  · intro h
    generalize s.toList = cs at h
    cases h with
    | short hr hg hb hred hgreen hblue =>
      have hvs := mapM_hexValue?_eq_some.mpr (.cons hr (.cons hg (.cons hb .nil)))
      simp only [hvs, Option.bind_some]
      exact (ofDigits?_three hr.lt hg.lt hb.lt).mpr ⟨hred, hgreen, hblue⟩
    | long hr₁ hr₀ hg₁ hg₀ hb₁ hb₀ hred hgreen hblue =>
      have hvs := mapM_hexValue?_eq_some.mpr
        (.cons hr₁ (.cons hr₀ (.cons hg₁ (.cons hg₀ (.cons hb₁ (.cons hb₀ .nil))))))
      simp only [hvs, Option.bind_some]
      exact (ofDigits?_six hr₁.lt hr₀.lt hg₁.lt hg₀.lt hb₁.lt hb₀.lt).mpr ⟨hred, hgreen, hblue⟩

theorem exists_values {ds : List Char} (h : ∀ d ∈ ds, ∃ v, IsHexDigit d v) :
    ∃ vs, List.Forall₂ IsHexDigit ds vs := by
  induction ds with
  | nil => exact ⟨[], .nil⟩
  | cons d ds ih =>
    rcases List.forall_mem_cons.mp h with ⟨⟨v, hv⟩, hrest⟩
    rcases ih hrest with ⟨vs, hvs⟩
    exact ⟨v :: vs, .cons hv hvs⟩

theorem length_eq_six {vs : List Nat} (h : vs.length = 6) :
    ∃ x₁ x₀ y₁ y₀ z₁ z₀, vs = [x₁, x₀, y₁, y₀, z₁, z₀] := by
  rcases vs with _ | ⟨x₁, _ | ⟨x₀, vs⟩⟩
  · cases h
  · cases h
  · rcases List.length_eq_four.mp (Nat.succ.inj (Nat.succ.inj h)) with ⟨y₁, y₀, z₁, z₀, rfl⟩
    exact ⟨x₁, x₀, y₁, y₀, z₁, z₀, rfl⟩

/-- What has a number sign and three digits or six is a spelling of some color, and nothing else
is. -/
theorem exists_isSpelling_iff {cs : List Char} :
    (∃ c, IsSpelling c cs) ↔ ∃ ds, cs = '#' :: ds ∧ (ds.length = 3 ∨ ds.length = 6) ∧
      ∀ d ∈ ds, ∃ v, IsHexDigit d v := by
  constructor
  · rintro ⟨c, h⟩
    cases h with
    | short hr hg hb =>
      refine ⟨_, rfl, .inl rfl, ?_⟩
      simp only [List.forall_mem_cons]
      exact ⟨⟨_, hr⟩, ⟨_, hg⟩, ⟨_, hb⟩, by simp⟩
    | long hr₁ hr₀ hg₁ hg₀ hb₁ hb₀ =>
      refine ⟨_, rfl, .inr rfl, ?_⟩
      simp only [List.forall_mem_cons]
      exact ⟨⟨_, hr₁⟩, ⟨_, hr₀⟩, ⟨_, hg₁⟩, ⟨_, hg₀⟩, ⟨_, hb₁⟩, ⟨_, hb₀⟩, by simp⟩
  · rintro ⟨ds, rfl, hlen, hds⟩
    rcases exists_values hds with ⟨vs, hvs⟩
    have hsome : ∃ c, ofDigits? vs = some c := by
      rw [hvs.length_eq] at hlen
      rcases hlen with hthree | hsix
      · rcases List.length_eq_three.mp hthree with ⟨x, y, z, rfl⟩
        exact ⟨_, rfl⟩
      · rcases length_eq_six hsix with ⟨x₁, x₀, y₁, y₀, z₁, z₀, rfl⟩
        exact ⟨_, rfl⟩
    rcases hsome with ⟨c, hc⟩
    refine ⟨c, ?_⟩
    have hread : ofHex? (String.ofList ('#' :: ds)) = some c := by
      simp only [ofHex?, String.toList_ofList, mapM_hexValue?_eq_some.mpr hvs, Option.bind_some, hc]
    rwa [ofHex?_eq_some, String.toList_ofList] at hread

/-! ## Reading at byte positions -/

/-- The byte is that of a hexadecimal digit. -/
def isHexByte (b : UInt8) : Bool :=
  (0x30 ≤ b && b ≤ 0x39) || (0x41 ≤ b && b ≤ 0x46) || (0x61 ≤ b && b ≤ 0x66)

/-- The characters from one byte position to another. There are none if either position lies inside
a character or past the end. -/
def slice? (cs : List Char) (start stop : Nat) : Option (List Char) :=
  (dropBytes? start cs).bind (takeBytes? (stop - start))

/-- A number of eight bits in base sixteen. A plus sign may stand before it. -/
def byte? (cs : List Char) : Option UInt8 :=
  let ds := match cs with
    | '+' :: ds => ds
    | ds => ds
  if ds.isEmpty then none
  else (ds.mapM hexValue?).bind fun vs =>
    let n := vs.foldl (fun n v => 16 * n + v) 0
    if n < 256 then some (.ofNat n) else none

/-- The channel whose digits begin at a byte position. -/
def channelAt? (cs : List Char) (start : Nat) : OptionT Option UInt8 :=
  OptionT.mk ((slice? cs start (start + 2)).map byte?)

/-- The color of three channels, one after the other. -/
def channels? (cs : List Char) : OptionT Option Color := do
  let r ← channelAt? cs 0
  let g ← channelAt? cs 2
  let b ← channelAt? cs 4
  return ⟨r, g, b⟩

/-- The color that the characters after a number sign stand for, found by the lengths and positions
of bytes. It is an option of an option: there is no answer at all where a text is cut inside a
character. -/
def cutDigits? (cs : List Char) : Option (Option Color) :=
  if !(encode cs).all isHexByte then some none
  else match (encode cs).length with
    | 3 => match cs.filterMap hexValue? with
      | r :: g :: b :: _ => some (some ⟨.ofNat (17 * r), .ofNat (17 * g), .ofNat (17 * b)⟩)
      | _ => some none
    | 6 => (channels? cs).run
    | _ => some none

/-- The color that a text stands for, found in the same way. -/
def cutColor? (s : String) : Option (Option Color) :=
  match s.toList with
  | '#' :: cs => cutDigits? cs
  | _ => some none

theorem isHexByte_ascii : ∀ n < 128,
    isHexByte (UInt8.ofNat n) = (hexValue? (Char.ofNat n)).isSome := by decide +kernel

theorem isHexByte_of_le : ∀ n < 256, 128 ≤ n → isHexByte (UInt8.ofNat n) = false := by
  decide +kernel

theorem utf8EncodeChar_of_lt {c : Char} (h : c.toNat < 128) :
    String.utf8EncodeChar c = [UInt8.ofNat c.toNat] := by
  have hval : c.val.toNat ≤ 127 := Nat.le_of_lt_succ h
  simp only [String.utf8EncodeChar, hval, ↓reduceIte]
  rfl

/-- The bytes of a character are those of digits if and only if it is a digit. -/
theorem all_isHexByte (c : Char) :
    (String.utf8EncodeChar c).all isHexByte = (hexValue? c).isSome := by
  by_cases hascii : c.toNat < 128
  · have hbyte := isHexByte_ascii c.toNat hascii
    rw [Char.ofNat_toNat] at hbyte
    rw [utf8EncodeChar_of_lt hascii, List.all_cons, hbyte, List.all_nil, Bool.and_true]
  · have hnone : hexValue? c = none := by
      rw [Option.eq_none_iff_forall_ne_some]
      intro v hv
      exact hascii (hexValue?_lt hv).1
    have hlong : ¬ c.val.toNat ≤ 127 := fun h => hascii (Nat.lt_succ_of_le h)
    rw [hnone, Option.isSome_none]
    unfold String.utf8EncodeChar
    dsimp only
    -- the first byte of a longer character is above 127
    split_ifs <;>
      rw [List.all_cons, isHexByte_of_le _ (by omega) (by omega), Bool.false_and]

theorem all_isHexByte_encode (cs : List Char) :
    (encode cs).all isHexByte = true ↔ ∃ vs, List.Forall₂ IsHexDigit cs vs := by
  induction cs with
  | nil => simp [encode]
  | cons c cs ih =>
    rw [encode, List.flatMap_cons, List.all_append, ← encode, Bool.and_eq_true, ih, all_isHexByte,
      Option.isSome_iff_exists]
    constructor
    · rintro ⟨⟨v, hv⟩, vs, hvs⟩
      exact ⟨v :: vs, .cons (hexValue?_eq_some.mp hv) hvs⟩
    · rintro ⟨_, _ | ⟨hv, hvs⟩⟩
      exact ⟨⟨_, hexValue?_eq_some.mpr hv⟩, _, hvs⟩

theorem length_encode (cs : List Char) : (encode cs).length = byteLength cs := by
  induction cs with
  | nil => rfl
  | cons c cs ih =>
    rw [encode, List.flatMap_cons, List.length_append, ← encode, ih, String.length_utf8EncodeChar,
      byteLength_cons]

section Digits

variable {ds : List Char} {vs : List Nat}

/-- Digits take up a byte each. -/
theorem byteLength_digits (h : List.Forall₂ IsHexDigit ds vs) : byteLength ds = vs.length := by
  induction h with
  | nil => rfl
  | @cons d v ds vs hd _ ih =>
    have hascii := (hexValue?_lt (hexValue?_eq_some.mpr hd)).1
    have hsize : d.utf8Size = 1 := by
      rw [← String.length_utf8EncodeChar, utf8EncodeChar_of_lt hascii, List.length_singleton]
    rw [byteLength_cons, hsize, ih, List.length_cons, Nat.add_comm]

theorem filterMap_hexValue? (h : List.Forall₂ IsHexDigit ds vs) : ds.filterMap hexValue? = vs := by
  induction h with
  | nil => rfl
  | cons hd _ ih => rw [List.filterMap_cons, hexValue?_eq_some.mpr hd, ih]

end Digits

section Pair

variable {d₁ d₀ : Char} {x₁ x₀ : Nat}

/-- Two digits make a channel. Neither of them is a sign. -/
theorem byte?_pair (h₁ : IsHexDigit d₁ x₁) (h₀ : IsHexDigit d₀ x₀) :
    byte? [d₁, d₀] = some (channel x₁ x₀) := by
  have hsign : d₁ ≠ '+' := by
    rintro rfl
    cases hexValue?_eq_some.mpr h₁
  have hvs := mapM_hexValue?_eq_some.mpr (.cons h₁ (.cons h₀ .nil))
  have hlt : 16 * x₁ + x₀ < 256 := by
    have hx₁ := h₁.lt
    have hx₀ := h₀.lt
    omega
  unfold byte?
  simp [hsign, hvs, hlt, channel]

/-- Behind some digits, two more are cut out as they are. -/
theorem channelAt?_eq {before : List Char} {vs : List Nat}
    (hbefore : List.Forall₂ IsHexDigit before vs) (h₁ : IsHexDigit d₁ x₁) (h₀ : IsHexDigit d₀ x₀)
    (after : List Char) :
    channelAt? (before ++ ([d₁, d₀] ++ after)) vs.length = pure (channel x₁ x₀) := by
  have hpair : byteLength [d₁, d₀] = 2 := byteLength_digits (.cons h₁ (.cons h₀ .nil))
  have hslice : slice? (before ++ ([d₁, d₀] ++ after)) vs.length (vs.length + 2) =
      some [d₁, d₀] := by
    rw [slice?, ← byteLength_digits hbefore, dropBytes?_byteLength, Option.bind_some,
      Nat.add_sub_cancel_left, ← hpair, takeBytes?_byteLength]
  rw [channelAt?, hslice, Option.map_some, byte?_pair h₁ h₀]
  rfl

end Pair

theorem run_channels? {ds : List Char} {x₁ x₀ y₁ y₀ z₁ z₀ : Nat}
    (h : List.Forall₂ IsHexDigit ds [x₁, x₀, y₁, y₀, z₁, z₀]) :
    (channels? ds).run = some (ofDigits? [x₁, x₀, y₁, y₀, z₁, z₀]) := by
  match ds, h with
  | [r₁, r₀, g₁, g₀, b₁, b₀],
      .cons hr₁ (.cons hr₀ (.cons hg₁ (.cons hg₀ (.cons hb₁ (.cons hb₀ .nil))))) =>
    have hred : channelAt? [r₁, r₀, g₁, g₀, b₁, b₀] 0 = pure (channel x₁ x₀) :=
      channelAt?_eq .nil hr₁ hr₀ _
    have hgreen : channelAt? [r₁, r₀, g₁, g₀, b₁, b₀] 2 = pure (channel y₁ y₀) :=
      channelAt?_eq (.cons hr₁ (.cons hr₀ .nil)) hg₁ hg₀ _
    have hblue : channelAt? [r₁, r₀, g₁, g₀, b₁, b₀] 4 = pure (channel z₁ z₀) :=
      channelAt?_eq (.cons hr₁ (.cons hr₀ (.cons hg₁ (.cons hg₀ .nil)))) hb₁ hb₀ _
    rw [channels?, hred, pure_bind, hgreen, pure_bind, hblue, pure_bind]
    rfl

/-- Digits are cut into channels as they are. -/
theorem cutDigits?_of_digits {ds : List Char} {vs : List Nat} (h : List.Forall₂ IsHexDigit ds vs) :
    cutDigits? ds = some (ofDigits? vs) := by
  have hbytes : (encode ds).all isHexByte = true := (all_isHexByte_encode ds).mpr ⟨vs, h⟩
  have hdouble : ∀ v, UInt8.ofNat (17 * v) = channel v v := by
    intro v
    rw [channel, ← Nat.succ_mul]
  simp only [cutDigits?, hbytes, Bool.not_true, Bool.false_eq_true, ↓reduceIte, length_encode,
    byteLength_digits h, filterMap_hexValue? h]
  split
  · rename_i hthree
    rcases List.length_eq_three.mp hthree with ⟨x, y, z, rfl⟩
    simp only [hdouble, ofDigits?]
  · rename_i hsix
    rcases length_eq_six hsix with ⟨x₁, x₀, y₁, y₀, z₁, z₀, rfl⟩
    exact run_channels? h
  · -- neither way of reading has a color for so many digits
    rename_i hthree hsix
    unfold ofDigits?
    split
    · exact absurd rfl hthree
    · exact absurd rfl hsix
    · rfl

theorem cutDigits?_eq (cs : List Char) :
    cutDigits? cs = some ((cs.mapM hexValue?).bind ofDigits?) := by
  cases hvs : cs.mapM hexValue? with
  | some vs => exact cutDigits?_of_digits (mapM_hexValue?_eq_some.mp hvs)
  | none =>
    -- what is not all digits is not all bytes of digits, and is never cut
    have hbytes : ¬ (encode cs).all isHexByte = true := by
      intro hall
      rcases (all_isHexByte_encode cs).mp hall with ⟨vs, hdigits⟩
      rw [mapM_hexValue?_eq_some.mpr hdigits] at hvs
      cases hvs
    simp [cutDigits?, hbytes]

/-- No text is cut inside a character, and both ways of reading agree. -/
theorem cutColor?_eq (s : String) : cutColor? s = some (ofHex? s) := by
  by_cases hsign : ∃ cs, s.toList = '#' :: cs
  · rcases hsign with ⟨cs, hs⟩
    simp only [cutColor?, ofHex?, hs, cutDigits?_eq]
  · have hcut : cutColor? s = some none := by
      unfold cutColor?
      split
      · exact absurd ⟨_, ‹_›⟩ hsign
      · rfl
    have hread : ofHex? s = none := by
      unfold ofHex?
      split
      · exact absurd ⟨_, ‹_›⟩ hsign
      · rfl
    rw [hcut, hread]

/-! ## Writing -/

/-- Two digits of a channel are written again as they were, in lower case. -/
theorem channelText_eq {v : UInt8} {d₁ d₀ : Char} {x₁ x₀ : Nat} (h₁ : IsHexDigit d₁ x₁)
    (h₀ : IsHexDigit d₀ x₀) (hv : v.toNat = 16 * x₁ + x₀) :
    channelText v = [d₁.toLower, d₀.toLower] := by
  have hx₀ := h₀.lt
  have hhigh : v.toNat / 16 = x₁ := by omega
  have hlow : v.toNat % 16 = x₀ := by omega
  rw [channelText, hhigh, hlow, h₁.hexDigit_eq, h₀.hexDigit_eq]

theorem text_of_isSpelling {s : String} {c : Color} (h : IsSpelling c s.toList)
    (hlen : s.length = 7) : c.text = s.toLower := by
  apply String.toList_injective
  rw [← String.length_toList] at hlen
  rw [text, String.toList_ofList, String.toLower, String.toList_map]
  generalize s.toList = cs at h hlen
  cases h with
  | short => simp at hlen
  | long hr₁ hr₀ hg₁ hg₀ hb₁ hb₀ hred hgreen hblue =>
    rw [channelText_eq hr₁ hr₀ hred, channelText_eq hg₁ hg₀ hgreen, channelText_eq hb₁ hb₀ hblue]
    rfl

/-- A digit that is written twice stands for what it stands for alone. -/
theorem ofHex?_doubled (r g b : Char) :
    ofHex? (String.ofList ['#', r, g, b]) = ofHex? (String.ofList ['#', r, r, g, g, b, b]) := by
  simp only [ofHex?, String.toList_ofList, List.mapM_cons, List.mapM_nil]
  cases hexValue? r <;> cases hexValue? g <;> cases hexValue? b <;> rfl

/-- Colors are read by their rules and no others. For every text there is an answer, also when it is
cut at byte positions. It is a color if and only if the text is a number sign with three digits or
six of either case; six give the channels two by two, and three the same as six with each written
twice. What is written for a color is read as that color, and what is read from six digits is
written as those digits in lower case. -/
theorem ofHex?_exact :
    (∀ s, cutColor? s = some (ofHex? s)) ∧
      (∀ s, (ofHex? s).isSome = true ↔ ∃ ds, s.toList = '#' :: ds ∧
        (ds.length = 3 ∨ ds.length = 6) ∧ ∀ d ∈ ds, ∃ v, IsHexDigit d v) ∧
      (∀ s c, ofHex? s = some c ↔ IsSpelling c s.toList) ∧
      (∀ r g b, ofHex? (String.ofList ['#', r, g, b]) =
        ofHex? (String.ofList ['#', r, r, g, g, b, b])) ∧
      (∀ c, ofHex? c.text = some c) ∧
      ∀ s c, ofHex? s = some c → s.length = 7 → c.text = s.toLower := by
  refine ⟨cutColor?_eq, ?_, fun s c => ofHex?_eq_some, ofHex?_doubled, ofHex?_text, ?_⟩
  · intro s
    rw [Option.isSome_iff_exists]
    simp only [ofHex?_eq_some]
    exact exists_isSpelling_iff
  · intro s c h hlen
    exact text_of_isSpelling (ofHex?_eq_some.mp h) hlen

end TurtleGraphics.Color
