import TurtleGraphics.Proofs.LetterCase

namespace TurtleGraphics.Text

/-! # Scanning

How a text falls into tokens, stated rule by rule, and what the rules give for parts of a text.

* `Lexes`: the text at a position consists of blanks and of these tokens.
* `lexes_tokensAt`, `Lexes.tokensAt_eq`: the scanner finds exactly the tokens that the rules give.
* `Lexes.append`: two texts side by side have the tokens of the first and then those of the second,
  if no word runs across the join (`Parted`).
* `Lexes.split_at`: the part of a text before one of its tokens has exactly the tokens before it.
* `Lexes.moved`: the same text further on, by some bytes and lines, has the same tokens further
  on.
* `placeless`: the tokens of a text without their places, which are the same wherever it stands and in
  whichever letter case it is written (`Lexes.recased`).
* `Lexes.offsets`: tokens come in the order of their offsets, so no two begin at the same place.
-/

/-- The text `cs`, which stands at a position, consists of blanks and these tokens. -/
inductive Lexes : Position → List Char → List Token → Prop where
  | nil {p} : Lexes p [] []
  | blank {p c cs ts} : isBlank c = true → Lexes (p.advance c) cs ts → Lexes p (c :: cs) ts
  | bracket {p c cs ts} : isBracket c = true → Lexes (p.advance c) cs ts →
      Lexes p (c :: cs) (Token.of p [c] :: ts)
  /-- A word ends where the next character cannot be part of it. -/
  | word {p c word cs ts} : isWordChar c = true → (∀ d ∈ word, isWordChar d = true) →
      (∀ d, cs.head? = some d → isWordChar d = false) →
      Lexes (p.advanceOver (c :: word)) cs ts →
      Lexes p (c :: (word ++ cs)) (Token.of p (c :: word) :: ts)

/-! ## Positions -/

theorem Position.offset_advance (p : Position) (c : Char) :
    (p.advance c).offset = p.offset + c.utf8Size := by
  unfold Position.advance
  split <;> rfl

theorem Position.offset_advanceOver (p : Position) (cs : List Char) :
    (p.advanceOver cs).offset = p.offset + byteLength cs := by
  induction cs generalizing p with
  | nil => rfl
  | cons c cs ih =>
    rw [advanceOver_cons, ih, offset_advance, byteLength_cons, Nat.add_assoc]

theorem Position.line_advanceOver (p : Position) (cs : List Char) :
    (p.advanceOver cs).line = p.line + cs.count '\n' := by
  induction cs generalizing p with
  | nil => rfl
  | cons c cs ih =>
    rw [advanceOver_cons, ih, List.count_cons]
    by_cases hc : c = '\n'
    · simp only [advance, hc, ↓reduceIte, BEq.rfl]
      omega
    · simp [advance, hc]

theorem byteLength_append (cs ds : List Char) :
    byteLength (cs ++ ds) = byteLength cs + byteLength ds := by
  induction cs with
  | nil => simp
  | cons c cs ih => rw [List.cons_append, byteLength_cons, byteLength_cons, ih, Nat.add_assoc]

/-! ## The scanner -/

/-- The tokens of the text `cs`, which stands at a position. -/
def tokensAt (p : Position) (cs : List Char) : List Token :=
  (tokensFrom p cs #[]).toList

theorem tokens_eq_tokensAt (s : String) : tokens s = tokensAt .start s.toList := rfl

/-- Tokens that were found before stay in front of those that are found now. -/
theorem toList_tokensFrom (p : Position) (cs : List Char) (found : Array Token) :
    (tokensFrom p cs found).toList = found.toList ++ tokensAt p cs := by
  -- a token takes up some characters at once, so the induction is on the length
  induction hlen : cs.length using Nat.strongRecOn generalizing p cs found with
  | ind n ih =>
    subst hlen
    rw [tokensAt, tokensFrom, tokensFrom]
    split
    · simp
    · rename_i s h
      have hlt := nextToken?_rest_length h
      rw [ih _ hlt _ _ _ rfl, ih _ hlt _ _ (#[].push s.token) rfl]
      simp

theorem tokensAt_of_none {p : Position} {cs : List Char} (h : nextToken? p cs = none) :
    tokensAt p cs = [] := by
  rw [tokensAt, tokensFrom]
  split <;> simp_all

theorem tokensAt_of_some {p : Position} {cs : List Char} {s : Scanned}
    (h : nextToken? p cs = some s) : tokensAt p cs = s.token :: tokensAt s.after s.rest := by
  rw [tokensAt, tokensFrom]
  split
  · simp_all
  · rename_i s' h'
    obtain rfl : s' = s := by simpa [h'] using h
    simp [toList_tokensFrom]

theorem isBlank_of_isBracket {c : Char} (h : isBracket c = true) : isBlank c = false := by
  simp only [isBracket, Bool.or_eq_true, beq_iff_eq] at h
  rcases h with rfl | rfl <;> decide

theorem not_isWordChar_of_isBracket {c : Char} (h : isBracket c = true) :
    isWordChar c = false := by
  simp [isWordChar, h]

theorem isWordChar_iff {c : Char} :
    isWordChar c = true ↔ isBlank c = false ∧ isBracket c = false := by
  simp [isWordChar]

theorem not_isWordChar_of_isBlank {c : Char} (h : isBlank c = true) : isWordChar c = false := by
  simp [isWordChar, h]

theorem nextToken?_blank {p : Position} {c : Char} {cs : List Char} (h : isBlank c = true) :
    nextToken? p (c :: cs) = nextToken? (p.advance c) cs := by
  simp [nextToken?, h]

theorem nextToken?_bracket {p : Position} {c : Char} {cs : List Char} (h : isBracket c = true) :
    nextToken? p (c :: cs) = some ⟨Token.of p [c], p.advance c, cs⟩ := by
  simp [nextToken?, isBlank_of_isBracket h, lexeme, h]

theorem nextToken?_word {p : Position} {c : Char} {word cs : List Char}
    (hc : isWordChar c = true) (hword : ∀ d ∈ word, isWordChar d = true)
    (hcs : ∀ d, cs.head? = some d → isWordChar d = false) :
    nextToken? p (c :: (word ++ cs)) =
      some ⟨Token.of p (c :: word), p.advanceOver (c :: word), cs⟩ := by
  obtain ⟨hblank, hbracket⟩ := isWordChar_iff.mp hc
  have hnone : cs.takeWhile isWordChar = [] := by
    cases cs with
    | nil => rfl
    | cons d ds => simp [hcs d rfl]
  have hrun : (word ++ cs).takeWhile isWordChar = word := by
    rw [List.takeWhile_append_of_pos hword, hnone, List.append_nil]
  simp [nextToken?, hblank, lexeme, hbracket, hrun]

theorem tokensAt_blank {p : Position} {c : Char} {cs : List Char} (h : isBlank c = true) :
    tokensAt p (c :: cs) = tokensAt (p.advance c) cs := by
  have hnext : nextToken? p (c :: cs) = nextToken? (p.advance c) cs := nextToken?_blank h
  cases hrest : nextToken? (p.advance c) cs with
  | none => rw [tokensAt_of_none hrest, tokensAt_of_none (hnext.trans hrest)]
  | some s => rw [tokensAt_of_some hrest, tokensAt_of_some (hnext.trans hrest)]

/-- Every text is made of blanks and the tokens that the scanner finds. -/
theorem lexes_tokensAt (p : Position) (cs : List Char) : Lexes p cs (tokensAt p cs) := by
  induction hlen : cs.length using Nat.strongRecOn generalizing p cs with
  | ind n ih =>
    subst hlen
    cases cs with
    | nil =>
      rw [tokensAt_of_none rfl]
      exact .nil
    | cons c cs =>
      by_cases hblank : isBlank c = true
      · rw [tokensAt_blank hblank]
        exact .blank hblank (ih _ (Nat.lt_succ_self _) _ _ rfl)
      by_cases hbracket : isBracket c = true
      · rw [tokensAt_of_some (nextToken?_bracket hbracket)]
        exact .bracket hbracket (ih _ (Nat.lt_succ_self _) _ _ rfl)
      · -- a word, which goes on as long as it can
        have hc : isWordChar c = true := isWordChar_iff.mpr (by simp [hblank, hbracket])
        have hword : ∀ d ∈ cs.takeWhile isWordChar, isWordChar d = true :=
          fun d hd => List.all_eq_true.mp List.all_takeWhile d hd
        have hrest : ∀ d, (cs.dropWhile isWordChar).head? = some d → isWordChar d = false := by
          intro d hd
          have := List.head?_dropWhile_not isWordChar cs
          rw [hd] at this
          simpa using this
        have hnext := nextToken?_word (p := p) hc hword hrest
        rw [List.takeWhile_append_dropWhile] at hnext
        rw [tokensAt_of_some hnext]
        have hlen : (cs.dropWhile isWordChar).length < (c :: cs).length :=
          Nat.lt_succ_of_le (List.dropWhile_suffix _).length_le
        have hlexes := Lexes.word hc hword hrest (ih _ hlen (p.advanceOver _) _ rfl)
        rwa [List.takeWhile_append_dropWhile] at hlexes

theorem Lexes.tokensAt_eq {p : Position} {cs : List Char} {ts : List Token}
    (h : Lexes p cs ts) : tokensAt p cs = ts := by
  induction h with
  | nil => exact tokensAt_of_none rfl
  | blank hblank _ ih => rw [tokensAt_blank hblank, ih]
  | bracket hbracket _ ih => rw [tokensAt_of_some (nextToken?_bracket hbracket), ih]
  | word hc hword hrest _ ih => rw [tokensAt_of_some (nextToken?_word hc hword hrest), ih]

/-! ## Parts of a text -/

/-- No word runs from the end of one text into the beginning of the other. -/
def Parted (as bs : List Char) : Prop :=
  ∀ c d, as.getLast? = some c → bs.head? = some d → isWordChar c = true → isWordChar d = false

theorem Parted.of_append (as : List Char) {bs cs : List Char} (h : Parted (as ++ bs) cs) :
    Parted bs cs := by
  intro c d hc hd
  exact h c d (by rw [List.getLast?_append, hc, Option.some_or]) hd

theorem Lexes.append {p : Position} {as bs : List Char} {ts us : List Token} (h : Lexes p as ts)
    (h' : Lexes (p.advanceOver as) bs us) (hparted : Parted as bs) :
    Lexes p (as ++ bs) (ts ++ us) := by
  induction h with
  | nil => exact h'
  | blank hblank _ ih => exact .blank hblank (ih h' (.of_append [_] hparted))
  | bracket hbracket _ ih => exact .bracket hbracket (ih h' (.of_append [_] hparted))
  | @word p c word cs ts hc hword hend hrest ih =>
    have hnext : ∀ d, (cs ++ bs).head? = some d → isWordChar d = false := by
      intro d hd
      cases cs with
      | nil =>
        -- the word comes to the join, so nothing may continue it there
        have hlast : isWordChar ((c :: word).getLast (by simp)) = true := by
          rcases List.mem_cons.mp (List.getLast_mem (l := c :: word) (by simp)) with h | h
          · rw [h]
            exact hc
          · exact hword _ h
        rw [List.append_nil] at hparted
        exact hparted _ d (List.getLast?_eq_some_getLast (by simp)) hd hlast
      | cons e es => exact hend d hd
    rw [← List.cons_append, Position.advanceOver_append] at h'
    rw [List.cons_append, List.append_assoc]
    exact .word hc hword hnext (ih h' (.of_append (c :: word) hparted))

theorem Parted.of_left {as bs : List Char} {c : Char} (h : as.getLast? = some c)
    (hc : isWordChar c = false) : Parted as bs := by
  intro c' d hc' _ hword
  obtain rfl : c = c' := Option.some_inj.mp (h.symm.trans hc')
  rw [hc] at hword
  cases hword

theorem Parted.of_right {as bs : List Char} {d : Char} (h : bs.head? = some d)
    (hd : isWordChar d = false) : Parted as bs := by
  intro c d' _ hd' _
  obtain rfl : d = d' := Option.some_inj.mp (h.symm.trans hd')
  exact hd

theorem tokensAt_append {p : Position} {as bs : List Char} (h : Parted as bs) :
    tokensAt p (as ++ bs) = tokensAt p as ++ tokensAt (p.advanceOver as) bs :=
  ((lexes_tokensAt p as).append (lexes_tokensAt (p.advanceOver as) bs) h).tokensAt_eq

/-- No word goes on past a blank. -/
theorem tokensAt_append_blank {p : Position} {c : Char} (hc : isBlank c = true)
    (as bs : List Char) :
    tokensAt p (as ++ c :: bs) =
      tokensAt p as ++ tokensAt ((p.advanceOver as).advance c) bs := by
  have hparted : Parted as (c :: bs) := .of_right rfl (not_isWordChar_of_isBlank hc)
  rw [tokensAt_append hparted, tokensAt_blank hc]

/-- The tokens of a text before one of them are the tokens of the part of the text before it. -/
theorem Lexes.split_at {p : Position} {cs : List Char} {before : List Token} {t : Token}
    {after : List Token} (h : Lexes p cs (before ++ t :: after)) :
    ∃ front back, cs = front ++ back ∧ t.span.offset = p.offset + byteLength front ∧
      Lexes p front before := by
  generalize hts : before ++ t :: after = ts at h
  induction h generalizing before with
  | nil => simp at hts
  | @blank p c cs ts hblank _ ih =>
    obtain ⟨front, back, rfl, hoffset, hfront⟩ := ih hts
    refine ⟨c :: front, back, rfl, ?_, .blank hblank hfront⟩
    rw [hoffset, byteLength_cons, Position.offset_advance, Nat.add_assoc]
  | @bracket p c cs ts hbracket _ ih =>
    cases before with
    | nil =>
      obtain ⟨rfl, -⟩ := List.cons.inj hts
      exact ⟨[], c :: cs, rfl, rfl, .nil⟩
    | cons u before =>
      obtain ⟨rfl, hrest⟩ := List.cons.inj hts
      obtain ⟨front, back, rfl, hoffset, hfront⟩ := ih hrest
      refine ⟨c :: front, back, rfl, ?_, .bracket hbracket hfront⟩
      rw [hoffset, byteLength_cons, Position.offset_advance, Nat.add_assoc]
  | @word p c word cs ts hc hword hend _ ih =>
    cases before with
    | nil =>
      obtain ⟨rfl, -⟩ := List.cons.inj hts
      exact ⟨[], _, rfl, rfl, .nil⟩
    | cons u before =>
      obtain ⟨rfl, hrest⟩ := List.cons.inj hts
      obtain ⟨front, back, rfl, hoffset, hfront⟩ := ih hrest
      -- the word still ends there when the text after the cut is gone
      refine ⟨c :: (word ++ front), back, by simp, ?_, .word hc hword ?_ hfront⟩
      · rw [hoffset, Position.offset_advanceOver, ← List.cons_append, byteLength_append,
          Nat.add_assoc]
      · intro d hd
        cases front with
        | nil => cases hd
        | cons e front => exact hend d hd

/-! ## A text further on -/

/-- The token with its span changed. -/
def Token.mapSpan (f : Span → Span) (t : Token) : Token :=
  ⟨t.text, f t.span⟩

/-- The span further on in a text by some bytes and some lines, in the same column. -/
def Span.moved (bytes lines : Nat) (s : Span) : Span :=
  { s with offset := s.offset + bytes, line := s.line + lines }

/-- The position further on in a text by some bytes and some lines, in the same column. -/
def Position.moved (bytes lines : Nat) (p : Position) : Position :=
  { p with offset := p.offset + bytes, line := p.line + lines }

theorem Position.moved_advance (bytes lines : Nat) (p : Position) (c : Char) :
    (p.moved bytes lines).advance c = (p.advance c).moved bytes lines := by
  unfold advance moved
  split <;> simp [Nat.add_right_comm]

theorem Position.moved_advanceOver (bytes lines : Nat) (p : Position) (cs : List Char) :
    (p.moved bytes lines).advanceOver cs = (p.advanceOver cs).moved bytes lines := by
  induction cs generalizing p with
  | nil => rfl
  | cons c cs ih => rw [advanceOver_cons, advanceOver_cons, moved_advance, ih]

/-- The same text further on has the same tokens, further on. -/
theorem Lexes.moved {p : Position} {cs : List Char} {ts : List Token} (h : Lexes p cs ts)
    (bytes lines : Nat) :
    Lexes (p.moved bytes lines) cs (ts.map (·.mapSpan (·.moved bytes lines))) := by
  induction h with
  | nil => exact .nil
  | blank hblank _ ih =>
    rw [← Position.moved_advance] at ih
    exact .blank hblank ih
  | bracket hbracket _ ih =>
    rw [← Position.moved_advance] at ih
    exact .bracket hbracket ih
  | word hc hword hend _ ih =>
    rw [← Position.moved_advanceOver] at ih
    exact .word hc hword hend ih

/-! ## A text at any place -/

/-- No place: what is left of a span where places do not matter. -/
def nowhere (_ : Span) : Span := ⟨0, 0, 0, 0⟩

/-- The tokens of a text without their places. -/
def placeless (cs : List Char) : List Token :=
  (tokensAt .start cs).map (·.mapSpan nowhere)

/-- Another text that has the same upper case character by character has the same tokens, wherever it
stands. -/
theorem Lexes.recased {p : Position} {cs : List Char} {ts : List Token} (h : Lexes p cs ts)
    {ds : List Char} (hcase : ds.map upperChar = cs.map upperChar) (q : Position) :
    ∃ us, Lexes q ds us ∧ us.map (·.mapSpan nowhere) = ts.map (·.mapSpan nowhere) := by
  induction h generalizing ds q with
  | nil =>
    rw [List.map_nil, List.map_eq_nil_iff] at hcase
    rw [hcase]
    exact ⟨[], .nil, rfl⟩
  | @blank p c cs ts hblank _ ih =>
    -- only the blank itself has its upper case
    rcases List.map_eq_cons_iff.mp hcase with ⟨d, ds, rfl, hd, hds⟩
    rw [eq_of_upperChar_eq (not_isWordChar_of_isBlank hblank) hd]
    rcases ih hds (q.advance c) with ⟨us, hus, heq⟩
    exact ⟨us, .blank hblank hus, heq⟩
  | @bracket p c cs ts hbracket _ ih =>
    rcases List.map_eq_cons_iff.mp hcase with ⟨d, ds, rfl, hd, hds⟩
    rw [eq_of_upperChar_eq (not_isWordChar_of_isBracket hbracket) hd]
    rcases ih hds (q.advance c) with ⟨us, hus, heq⟩
    exact ⟨Token.of q [c] :: us, .bracket hbracket hus, by simpa [Token.of, Token.mapSpan, nowhere]⟩
  | @word p c word cs ts hc hword hend _ ih =>
    rw [← List.cons_append, List.map_append] at hcase
    rcases List.map_eq_append_iff.mp hcase with ⟨word', ds, rfl, hword', hds⟩
    rcases List.map_eq_cons_iff.mp hword' with ⟨d, word', rfl, hd, hrest⟩
    -- characters with the same upper case are part of words alike
    have hin : ∀ e ∈ word', isWordChar e = true := by
      intro e he
      have hmem : upperChar e ∈ word.map upperChar := hrest ▸ List.mem_map_of_mem he
      rcases List.mem_map.mp hmem with ⟨c', hc', heq⟩
      rw [isWordChar_congr heq.symm]
      exact hword c' hc'
    have hout : ∀ e, ds.head? = some e → isWordChar e = false := by
      intro e he
      have hhead : (cs.map upperChar).head? = some (upperChar e) := by
        rw [← hds, List.head?_map, he, Option.map_some]
      rw [List.head?_map] at hhead
      rcases Option.map_eq_some_iff.mp hhead with ⟨c', hc', heq⟩
      rw [isWordChar_congr heq.symm]
      exact hend c' hc'
    have hupper : upper (String.ofList (d :: word')) = upper (String.ofList (c :: word)) := by
      simp only [upper, String.toList_ofList, List.flatMap_def, hword']
    rcases ih hds (q.advanceOver (d :: word')) with ⟨us, hus, heq⟩
    refine ⟨Token.of q (d :: word') :: us, .word ?_ hin hout hus, ?_⟩
    · rw [isWordChar_congr hd]
      exact hc
    · rw [List.map_cons, List.map_cons, heq]
      simp only [Token.of, Token.mapSpan, nowhere, hupper]

theorem map_nowhere_tokensAt (p : Position) (cs : List Char) :
    (tokensAt p cs).map (·.mapSpan nowhere) = placeless cs := by
  obtain ⟨us, hus, heq⟩ := (lexes_tokensAt p cs).recased rfl .start
  rw [placeless, hus.tokensAt_eq, heq]

theorem placeless_append {as bs : List Char} (h : Parted as bs) :
    placeless (as ++ bs) = placeless as ++ placeless bs := by
  rw [placeless, tokensAt_append h, List.map_append, map_nowhere_tokensAt, map_nowhere_tokensAt]

theorem placeless_blanks {cs : List Char} (h : ∀ c ∈ cs, isBlank c = true) :
    placeless cs = [] := by
  have hlexes : ∀ p, Lexes p cs [] := by
    induction cs with
    | nil => exact fun _ => .nil
    | cons c cs ih =>
      obtain ⟨hc, hcs⟩ := List.forall_mem_cons.mp h
      exact fun p => .blank hc (ih hcs (p.advance c))
  rw [placeless, (hlexes .start).tokensAt_eq, List.map_nil]

/-- Blanks between two parts of a text are all that it takes to keep the parts apart. -/
theorem placeless_gap {as gap bs : List Char} (hne : gap ≠ [])
    (hgap : ∀ c ∈ gap, isBlank c = true) :
    placeless (as ++ gap ++ bs) = placeless as ++ placeless bs := by
  have hfirst := not_isWordChar_of_isBlank (hgap _ (List.head_mem hne))
  have hlast := not_isWordChar_of_isBlank (hgap _ (List.getLast_mem hne))
  have hbefore : Parted as gap := .of_right (List.head?_eq_some_head hne) hfirst
  have hafter : Parted (as ++ gap) bs := by
    refine .of_left ?_ hlast
    rw [List.getLast?_append_of_ne_nil _ hne, List.getLast?_eq_some_getLast hne]
  rw [placeless_append hafter, placeless_append hbefore, placeless_blanks hgap, List.append_nil]

/-- Only the upper case of a text counts for its tokens. -/
theorem placeless_recased {as bs : List Char} (h : as.map upperChar = bs.map upperChar) :
    placeless as = placeless bs := by
  obtain ⟨us, hus, heq⟩ := (lexes_tokensAt .start bs).recased h .start
  rw [placeless, hus.tokensAt_eq, heq, placeless]

/-! ## Tokens in order -/

theorem Lexes.offset_le {p : Position} {cs : List Char} {ts : List Token} (h : Lexes p cs ts) :
    ∀ t ∈ ts, p.offset ≤ t.span.offset := by
  induction h with
  | nil => simp
  | @blank p c cs ts hblank _ ih =>
    intro t ht
    have hle := ih t ht
    rw [Position.offset_advance] at hle
    omega
  | @bracket p c cs ts hbracket _ ih =>
    intro t ht
    rcases List.mem_cons.mp ht with rfl | ht
    · exact Nat.le_refl _
    · have hle := ih t ht
      rw [Position.offset_advance] at hle
      omega
  | @word p c word cs ts hc hword hend _ ih =>
    intro t ht
    rcases List.mem_cons.mp ht with rfl | ht
    · exact Nat.le_refl _
    · have hle := ih t ht
      rw [Position.offset_advanceOver] at hle
      omega

/-- Tokens come in the order of their offsets. -/
theorem Lexes.offsets {p : Position} {cs : List Char} {ts : List Token} (h : Lexes p cs ts) :
    ts.Pairwise (·.span.offset < ·.span.offset) := by
  induction h with
  | nil => exact .nil
  | blank hblank _ ih => exact ih
  | @bracket p c cs ts hbracket hrest ih =>
    refine .cons ?_ ih
    intro t ht
    have hle := hrest.offset_le t ht
    have hpos := c.utf8Size_pos
    rw [Position.offset_advance] at hle
    show p.offset < t.span.offset
    omega
  | @word p c word cs ts hc hword hend hrest ih =>
    refine .cons ?_ ih
    intro t ht
    have hle := hrest.offset_le t ht
    have hpos := c.utf8Size_pos
    rw [Position.offset_advanceOver, byteLength_cons] at hle
    show p.offset < t.span.offset
    omega

end TurtleGraphics.Text
