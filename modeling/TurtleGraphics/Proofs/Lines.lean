import Mathlib
import TurtleGraphics.Text.Lines

namespace TurtleGraphics.Text

/-! # The lines of a text

The bytes of a text are split into lines as its characters are, and each line is read back.

* `splitAfter`: the pieces of a list that end with a mark. `splitAfter_induction` goes from piece to
  piece.
* `byteLines_toUTF8`: the lines of a text's bytes are the bytes of its lines. In UTF-8 the byte that
  ends a line is part of no other character (`eq_lineFeed_of_mem`).
* `lines`: the lines of a text without their ends, which is what its bytes are read as
  (`map_decodeLine?_byteLines`).
-/

/-! ## Pieces -/

section Pieces

variable {α : Type} [DecidableEq α] {mark : α}

/-- The pieces that end with the mark; what comes after the last mark is a piece too. -/
def splitAfter (mark : α) : List α → List (List α)
  | [] => []
  | a :: as =>
    if a = mark then [a] :: splitAfter mark as
    else match splitAfter mark as with
      | [] => [[a]]
      | piece :: pieces => (a :: piece) :: pieces

theorem splitAfter_of_not_mem {as : List α} (h : mark ∉ as) (hne : as ≠ []) :
    splitAfter mark as = [as] := by
  induction as with
  | nil => exact absurd rfl hne
  | cons a as ih =>
    obtain ⟨ha, has⟩ := List.ne_and_not_mem_of_not_mem_cons h
    rw [splitAfter, if_neg (Ne.symm ha)]
    cases as with
    | nil => rfl
    | cons b bs => rw [ih has (List.cons_ne_nil b bs)]

theorem splitAfter_append {as : List α} (h : mark ∉ as) (bs : List α) :
    splitAfter mark (as ++ mark :: bs) = (as ++ [mark]) :: splitAfter mark bs := by
  induction as with
  | nil => rw [List.nil_append, splitAfter, if_pos rfl, List.nil_append]
  | cons a as ih =>
    obtain ⟨ha, has⟩ := List.ne_and_not_mem_of_not_mem_cons h
    rw [List.cons_append, splitAfter, if_neg (Ne.symm ha), ih has]
    rfl

/-- A list has no pieces, or one without a mark, or it begins with one that a mark ends. -/
theorem splitAfter_induction (mark : α) {motive : List α → Prop} (nil : motive [])
    (last : ∀ as, mark ∉ as → as ≠ [] → motive as)
    (piece : ∀ as bs, mark ∉ as → motive bs → motive (as ++ mark :: bs)) (as : List α) :
    motive as := by
  induction hn : as.length using Nat.strong_induction_on generalizing as with
  | _ n ih =>
    by_cases hmark : mark ∈ as
    · obtain ⟨before, after, rfl, hbefore⟩ := List.eq_append_cons_of_mem hmark
      refine piece before after hbefore (ih after.length ?_ after rfl)
      rw [← hn, List.length_append, List.length_cons]
      omega
    · by_cases hnil : as = []
      · exact hnil ▸ nil
      · exact last as hmark hnil

end Pieces

/-! ## Bytes -/

theorem toList_byteLinesFrom {current : List UInt8} (h : lineFeed ∉ current)
    (lines : Array ByteArray) (bytes : List UInt8) :
    (byteLinesFrom current lines bytes).toList =
      lines.toList ++ (splitAfter lineFeed (current.reverse ++ bytes)).map (⟨·.toArray⟩) := by
  have hreverse : lineFeed ∉ current.reverse := by simpa using h
  induction bytes generalizing current lines with
  | nil =>
    rw [byteLinesFrom, List.append_nil]
    cases current with
    | nil => simp [splitAfter]
    | cons b current =>
      rw [splitAfter_of_not_mem hreverse (by simp)]
      simp
  | cons b bytes ih =>
    rw [byteLinesFrom]
    split_ifs with hb
    · rw [hb, splitAfter_append hreverse, ih (by simp) _ (by simp)]
      simp
    · have hcurrent : lineFeed ∉ b :: current := by simp [h, Ne.symm hb]
      rw [ih hcurrent _ (by simpa [and_comm] using hcurrent)]
      simp

/-- The lines of some bytes. -/
theorem byteLines_eq (input : ByteArray) :
    byteLines input = (splitAfter lineFeed input.data.toList).map (⟨·.toArray⟩) := by
  rw [byteLines, toList_byteLinesFrom List.not_mem_nil]
  rfl

/-! ## Characters -/

/-- In UTF-8 the byte that ends a line is part of no other character. -/
theorem eq_lineFeed_of_mem {c : Char} (h : lineFeed ∈ String.utf8EncodeChar c) : c = '\n' := by
  have hbyte : ∀ n : Nat, lineFeed = UInt8.ofNat n → n % 256 = 10 := by
    intro n hn
    have hnat := congrArg UInt8.toNat hn
    simpa [lineFeed, eq_comm] using hnat
  have hval : c.val.toNat = 10 := by
    unfold String.utf8EncodeChar at h
    dsimp only at h
    -- all bytes of a longer character are above 127
    split_ifs at h <;> simp only [List.mem_cons, List.not_mem_nil, or_false] at h
    · have := hbyte _ h
      omega
    · rcases h with h | h <;> have := hbyte _ h <;> omega
    · rcases h with h | h | h <;> have := hbyte _ h <;> omega
    · rcases h with h | h | h | h <;> have := hbyte _ h <;> omega
  rw [Char.ext_iff, ← UInt32.toNat_inj, hval]
  rfl

/-- The bytes of some characters. -/
def encode (cs : List Char) : List UInt8 :=
  cs.flatMap String.utf8EncodeChar

theorem lineFeed_mem_encode {cs : List Char} : lineFeed ∈ encode cs ↔ '\n' ∈ cs := by
  rw [encode, List.mem_flatMap]
  constructor
  · rintro ⟨c, hc, hmem⟩
    rwa [← eq_lineFeed_of_mem hmem]
  · intro h
    exact ⟨'\n', h, by decide⟩

theorem encode_ne_nil {cs : List Char} (h : cs ≠ []) : encode cs ≠ [] := by
  obtain ⟨c, cs, rfl⟩ := List.exists_cons_of_ne_nil h
  simp [encode]

theorem encode_line (cs ds : List Char) :
    encode (cs ++ '\n' :: ds) = encode cs ++ lineFeed :: encode ds := by
  rw [encode, List.flatMap_append, List.flatMap_cons]
  rfl

theorem splitAfter_encode (cs : List Char) :
    splitAfter lineFeed (encode cs) = (splitAfter '\n' cs).map encode := by
  induction cs using splitAfter_induction '\n' with
  | nil => rfl
  | last cs hmark hne =>
    have hbytes : lineFeed ∉ encode cs := fun h => hmark (lineFeed_mem_encode.mp h)
    rw [splitAfter_of_not_mem hbytes (encode_ne_nil hne), splitAfter_of_not_mem hmark hne]
    rfl
  | piece cs ds hmark ih =>
    have hbytes : lineFeed ∉ encode cs := fun h => hmark (lineFeed_mem_encode.mp h)
    rw [encode_line, splitAfter_append hbytes, splitAfter_append hmark, ih, List.map_cons, encode_line]
    rfl

theorem toUTF8_ofList (cs : List Char) : (String.ofList cs).toUTF8 = ⟨(encode cs).toArray⟩ := by
  rw [String.toUTF8_eq_toByteArray, String.toByteArray_ofList]
  apply ByteArray.ext
  simp [encode, List.utf8Encode]

/-! ## Lines -/

/-- The lines of a text, without their ends. -/
def lines (text : String) : List String :=
  (splitAfter '\n' text.toList).map fun cs => String.ofList (dropLineEnd cs)

/-- The lines of a text's bytes are the bytes of its lines. -/
theorem byteLines_toUTF8 (text : String) :
    byteLines text.toUTF8 =
      (splitAfter '\n' text.toList).map fun cs => (String.ofList cs).toUTF8 := by
  have htext := toUTF8_ofList text.toList
  rw [String.ofList_toList] at htext
  rw [byteLines_eq, htext]
  simp only [splitAfter_encode, List.map_map, Function.comp_def, toUTF8_ofList]

theorem fromUTF8?_toUTF8 (s : String) : String.fromUTF8? s.toUTF8 = some s := by
  simp only [String.fromUTF8?, String.toUTF8_eq_toByteArray, dif_pos s.isValidUTF8]
  rfl

/-- The bytes of a text are read as its lines. -/
theorem map_decodeLine?_byteLines (text : String) :
    (byteLines text.toUTF8).map decodeLine? = (lines text).map some := by
  simp only [byteLines_toUTF8, lines, List.map_map]
  apply List.map_congr_left
  intro cs _
  simp only [Function.comp_apply, decodeLine?, fromUTF8?_toUTF8, Option.map_some,
    String.toList_ofList]

/-! ## Line ends -/

theorem dropLineEnd_of_not_mem {cs : List Char} (h : '\n' ∉ cs) : dropLineEnd cs = cs := by
  unfold dropLineEnd
  have hreverse : ∀ front, cs.reverse ≠ '\n' :: front := by
    intro front hfront
    exact h (List.mem_reverse.mp (hfront ▸ List.mem_cons_self))
  split
  · exact absurd ‹_› (hreverse _)
  · exact absurd ‹_› (hreverse _)
  · rfl

/-- A line ends in a line feed, with or without a carriage return before it. -/
theorem dropLineEnd_line (cs : List Char) :
    dropLineEnd (cs ++ ['\n']) = cs ∨ cs = dropLineEnd (cs ++ ['\n']) ++ ['\r'] := by
  have hreverse : (cs ++ ['\n']).reverse = '\n' :: cs.reverse := by simp
  unfold dropLineEnd
  split
  · rename_i front hfront
    right
    rw [hreverse, List.cons.injEq] at hfront
    rw [← List.reverse_reverse cs, hfront.2, List.reverse_cons]
  · rename_i front _ hfront
    left
    rw [hreverse, List.cons.injEq] at hfront
    rw [← hfront.2, List.reverse_reverse]
  · rename_i hother
    exact absurd hreverse (hother _)

theorem lines_empty : lines "" = [] := by
  rw [lines, String.toList_empty, splitAfter, List.map_nil]

theorem lines_of_not_mem {cs : List Char} (h : '\n' ∉ cs) (hne : cs ≠ []) :
    lines (String.ofList cs) = [String.ofList cs] := by
  rw [lines, String.toList_ofList, splitAfter_of_not_mem h hne, List.map_singleton,
    dropLineEnd_of_not_mem h]

theorem lines_append {cs : List Char} (h : '\n' ∉ cs) (ds : List Char) :
    lines (String.ofList (cs ++ '\n' :: ds)) =
      String.ofList (dropLineEnd (cs ++ ['\n'])) :: lines (String.ofList ds) := by
  simp only [lines, String.toList_ofList, splitAfter_append h, List.map_cons]

end TurtleGraphics.Text
