import Mathlib
import TurtleGraphics.Proofs.FaultyTexts
import TurtleGraphics.Proofs.Scanning

namespace TurtleGraphics.Text

/-! # The partition of a text

What the tokens of a text are, said of the text as a whole and not of the way in which it is scanned.

* `IsLexeme`: a bracket, or a longest run of characters that are neither blanks nor brackets.
* `Token.StandsBetween`: what a token says of the text, which consists of some characters, the
  token's own and some more.
* `Partition`: the tokens stand in the text, in order and apart, and what they leave over is blank.
* `Token.StandsIn.eq_of_meets`: tokens of one text that share a character are the same.
* `Separated`: something that is no part of a word comes between.

`partition_iff` says that a text has one partition, and that the scanner finds it.
-/

/-- Between `before` and `after` the characters make a token: a bracket by itself, or a word that
neither neighbour goes on with. -/
inductive IsLexeme (before : List Char) : List Char → List Char → Prop where
  | bracket {c after} : isBracket c = true → IsLexeme before [c] after
  | word {word after} : word ≠ [] → (∀ c ∈ word, isWordChar c = true) →
      (∀ c, before.getLast? = some c → isWordChar c = false) →
      (∀ c, after.head? = some c → isWordChar c = false) → IsLexeme before word after

/-- The token is made of the characters `cs`, which stand between `before` and `after`. Its place
counts the bytes before it, the lines that have ended and the characters since the last of them. -/
structure Token.StandsBetween (t : Token) (before cs after : List Char) : Prop where
  lexeme : IsLexeme before cs after
  text : t.text = upper (String.ofList cs)
  offset : t.span.offset = byteLength before
  len : t.span.len = byteLength cs
  line : t.span.line = 1 + before.count '\n'
  column : t.span.column = 1 + (before.rtakeWhile (· ≠ '\n')).length

/-- The token stands somewhere in the text. -/
def Token.StandsIn (t : Token) (source : List Char) : Prop :=
  ∃ before cs after, source = before ++ cs ++ after ∧ t.StandsBetween before cs after

/-- The point after `n` bytes lies in the span, and not at its end. -/
def Span.Meets (s : Span) (n : Nat) : Prop :=
  s.offset ≤ n ∧ n < s.offset + s.len

/-- The tokens are what the text consists of, but for blanks. -/
structure Partition (source : List Char) (ts : List Token) : Prop where
  stands : ∀ t ∈ ts, t.StandsIn source
  /-- Each token ends before the next one begins. -/
  apart : ts.Pairwise fun t u => t.span.offset + t.span.len ≤ u.span.offset
  /-- No character is left over but blanks. -/
  covered : ∀ before c after, source = before ++ c :: after → isBlank c = false →
    ∃ t ∈ ts, t.span.Meets (byteLength before)

/-- The span covers nothing but characters of words. -/
def Span.IsWord (s : Span) (source : List Char) : Prop :=
  ∀ c ∈ s.cut source, isWordChar c = true

/-- A blank or a bracket stands after the first span and before the second. -/
def Separated (source : List Char) (s s' : Span) : Prop :=
  ∃ before c after, source = before ++ c :: after ∧ isWordChar c = false ∧
    s.offset + s.len ≤ byteLength before ∧ byteLength before < s'.offset

/-! ## Parts of a text by their lengths in bytes -/

theorem byteLength_eq_zero {cs : List Char} : byteLength cs = 0 ↔ cs = [] := by
  cases cs with
  | nil => simp
  | cons c cs =>
    have hpos := c.utf8Size_pos
    simp only [byteLength_cons, reduceCtorEq, iff_false]
    omega

theorem byteLength_pos {cs : List Char} (h : cs ≠ []) : 0 < byteLength cs :=
  Nat.pos_of_ne_zero fun hzero => h (byteLength_eq_zero.mp hzero)

theorem utf8ByteSize_ofList (cs : List Char) :
    (String.ofList cs).utf8ByteSize = byteLength cs := by
  rw [String.utf8ByteSize_ofList]
  induction cs with
  | nil => rfl
  | cons c cs ih => rw [String.utf8Len_cons, ih, byteLength_cons, Nat.add_comm]

/-- Of two beginnings of a text the one with fewer bytes is a beginning of the other. -/
theorem prefix_of_byteLength_le {as bs source : List Char} (ha : as <+: source)
    (hb : bs <+: source) (h : byteLength as ≤ byteLength bs) : as <+: bs := by
  rcases List.prefix_or_prefix_of_prefix ha hb with hab | ⟨mid, rfl⟩
  · exact hab
  · have hmid : byteLength mid = 0 := by
      rw [byteLength_append] at h
      omega
    rw [byteLength_eq_zero.mp hmid, List.append_nil]

theorem dropBytes?_byteLength (front back : List Char) :
    dropBytes? (byteLength front) (front ++ back) = some back := by
  induction front with
  | nil => cases back <;> rfl
  | cons c front ih =>
    have hpos : c.utf8Size ≠ 0 := Nat.ne_of_gt c.utf8Size_pos
    simp [dropBytes?, hpos, ih]

/-- A span cuts out the characters between what has as many bytes as it begins after and what is
left after its length. -/
theorem Span.cut_eq {s : Span} {before cs after : List Char} (hoffset : s.offset = byteLength before)
    (hlen : s.len = byteLength cs) : s.cut (before ++ cs ++ after) = cs := by
  rw [Span.cut, hoffset, hlen, List.append_assoc, dropBytes?_byteLength, Option.bind_some,
    takeBytes?_byteLength, Option.getD_some]

/-! ## Lexemes -/

namespace IsLexeme

variable {before cs after : List Char}

theorem ne_nil (h : IsLexeme before cs after) : cs ≠ [] := by
  cases h with
  | bracket => exact List.cons_ne_nil _ _
  | word hne => exact hne

/-- A character of a token is not blank. -/
theorem not_blank (h : IsLexeme before cs after) : ∀ c ∈ cs, isBlank c = false := by
  intro c hc
  cases h with
  | bracket hbracket =>
    rw [List.mem_singleton.mp hc]
    exact isBlank_of_isBracket hbracket
  | word _ hword => exact (isWordChar_iff.mp (hword c hc)).1

/-- A token with a character of a word is a word. -/
theorem isWordChar_of_mem (h : IsLexeme before cs after) {c : Char} (hc : c ∈ cs)
    (hword : isWordChar c = true) :
    (∀ d ∈ cs, isWordChar d = true) ∧
      (∀ d, before.getLast? = some d → isWordChar d = false) ∧
      ∀ d, after.head? = some d → isWordChar d = false := by
  cases h with
  | bracket hbracket =>
    rw [List.mem_singleton.mp hc, isWordChar_iff, hbracket] at hword
    cases hword.2
  | word _ hall hfirst hlast => exact ⟨hall, hfirst, hlast⟩

/-- A token of more than one character is a word. -/
theorem isWordChar_of_length (h : IsLexeme before cs after) (hlen : 1 < cs.length) :
    ∀ c ∈ cs, isWordChar c = true := by
  cases h with
  | bracket => simp at hlen
  | word _ hword => exact hword

/-- The token is what the text from there on begins with. -/
theorem eq_lexeme (h : IsLexeme before cs after) : lexeme (cs ++ after) = cs := by
  cases h with
  | bracket hbracket => simp [lexeme, hbracket]
  | word hne hword _ hlast =>
    obtain ⟨c, cs, rfl⟩ := List.exists_cons_of_ne_nil hne
    have hnone : after.takeWhile isWordChar = [] := by
      cases after with
      | nil => rfl
      | cons d ds => simp [hlast d rfl]
    obtain ⟨hc, hcs⟩ := List.forall_mem_cons.mp hword
    simp [lexeme, (isWordChar_iff.mp hc).2, List.takeWhile_append_of_pos hcs, hnone]

end IsLexeme

/-! ## Tokens that stand in a text -/

namespace Token

variable {t u : Token} {source before cs after : List Char}

theorem StandsBetween.cut (h : t.StandsBetween before cs after) :
    t.span.cut (before ++ cs ++ after) = cs :=
  Span.cut_eq h.offset h.len

theorem StandsBetween.len_pos (h : t.StandsBetween before cs after) : 0 < t.span.len := by
  rw [h.len]
  exact byteLength_pos h.lexeme.ne_nil

theorem StandsBetween.stop_eq (h : t.StandsBetween before cs after) :
    t.span.offset + t.span.len = byteLength (before ++ cs) := by
  rw [h.offset, h.len, byteLength_append]

/-- What stands at one place is one token. -/
theorem StandsBetween.eq_of_before_eq {cs' after' : List Char}
    (h : t.StandsBetween before cs after) (h' : u.StandsBetween before cs' after')
    (hsource : before ++ cs ++ after = before ++ cs' ++ after') : t = u := by
  have hrest : cs ++ after = cs' ++ after' := by simpa using hsource
  have hcs : cs = cs' := by rw [← h.lexeme.eq_lexeme, ← h'.lexeme.eq_lexeme, hrest]
  subst hcs
  have hspan : t.span = u.span := by
    rw [Span.mk.injEq]
    exact ⟨h.offset.trans h'.offset.symm, h.len.trans h'.len.symm, h.line.trans h'.line.symm,
      h.column.trans h'.column.symm⟩
  rw [Token.mk.injEq]
  exact ⟨h.text.trans h'.text.symm, hspan⟩

/-- Tokens that share a character are the same: a word has both its ends where it cannot go on. -/
theorem StandsIn.eq_of_meets (ht : t.StandsIn source) (hu : u.StandsIn source)
    (hmeets : u.span.Meets t.span.offset) : u = t := by
  obtain ⟨before, cs, after, rfl, ht⟩ := ht
  obtain ⟨before', cs', after', hsource, hu⟩ := hu
  rw [Span.Meets, ht.offset, hu.stop_eq, hu.offset] at hmeets
  obtain ⟨hle, hlt⟩ := hmeets
  -- the second token begins `mid` before the first
  have hfirst : before <+: before ++ cs ++ after := by simp
  have hsecond : before' <+: before ++ cs ++ after := by simp [hsource]
  obtain ⟨mid, rfl⟩ := prefix_of_byteLength_le hsecond hfirst hle
  have hrest : mid ++ cs ++ after = cs' ++ after' := by simpa using hsource
  have hmid : mid <+: cs' ++ after' := by simp [← hrest]
  obtain ⟨tail, rfl⟩ : mid <+: cs' := by
    refine prefix_of_byteLength_le hmid (List.prefix_append ..) ?_
    rw [byteLength_append, byteLength_append] at hlt
    omega
  have htail : tail ≠ [] := by
    rintro rfl
    simp at hlt
  obtain ⟨c, tail, rfl⟩ := List.exists_cons_of_ne_nil htail
  obtain ⟨d, cs, rfl⟩ := List.exists_cons_of_ne_nil ht.lexeme.ne_nil
  obtain rfl : d = c := by simpa using congrArg (·[mid.length]?) hrest
  rcases List.eq_nil_or_concat' mid with rfl | ⟨mid, e, rfl⟩
  · exact hu.eq_of_before_eq (by simpa using ht) (by simpa using hrest.symm)
  · -- the two characters are of one word, so the first token cannot begin between them
    exfalso
    have hword : ∀ c' ∈ mid ++ [e] ++ d :: tail, isWordChar c' = true :=
      hu.lexeme.isWordChar_of_length (by simp; omega)
    obtain ⟨-, hfirst, -⟩ :=
      ht.lexeme.isWordChar_of_mem (List.mem_cons_self ..) (hword d (by simp))
    have he : isWordChar e = false := hfirst e (by simp [List.getLast?_append])
    rw [hword e (by simp)] at he
    cases he

/-- Two words of a text do not touch. -/
theorem StandsIn.separated (ht : t.StandsIn source) (hu : u.StandsIn source)
    (htword : t.span.IsWord source) (huword : u.span.IsWord source)
    (hapart : t.span.offset + t.span.len ≤ u.span.offset) :
    Separated source t.span u.span := by
  obtain ⟨before, cs, after, rfl, ht⟩ := ht
  obtain ⟨before', cs', after', hsource, hu⟩ := hu
  rw [Span.IsWord, ht.cut] at htword
  rw [Span.IsWord, hsource, hu.cut] at huword
  have hpos := hu.len_pos
  rw [ht.stop_eq, hu.offset] at hapart
  -- what comes right after the first word is no part of a word
  obtain ⟨first, tail, rfl⟩ := List.exists_cons_of_ne_nil ht.lexeme.ne_nil
  obtain ⟨-, -, hnext⟩ :=
    ht.lexeme.isWordChar_of_mem (List.mem_cons_self ..) (htword first (List.mem_cons_self ..))
  have hsecond : before' <+: before ++ first :: tail ++ after := by simp [hsource]
  obtain ⟨gap, hgap⟩ : before ++ first :: tail <+: before' :=
    prefix_of_byteLength_le (List.prefix_append ..) hsecond hapart
  have hafter : after = gap ++ cs' ++ after' := by
    rw [← hgap] at hsource
    simpa using hsource
  cases gap with
  | nil =>
    -- the second word would come right after the first
    exfalso
    obtain ⟨first', tail', rfl⟩ := List.exists_cons_of_ne_nil hu.lexeme.ne_nil
    have hfirst := hnext first' (by simp [hafter])
    rw [huword first' (List.mem_cons_self ..)] at hfirst
    cases hfirst
  | cons c gap =>
    refine ⟨before ++ first :: tail, c, gap ++ cs' ++ after', by simp [hafter], ?_, ?_, ?_⟩
    · exact hnext c (by simp [hafter])
    · exact ht.stop_eq.le
    · have hc := c.utf8Size_pos
      rw [hu.offset, ← hgap, byteLength_append _ (c :: gap), byteLength_cons]
      omega

end Token

/-! ## A text has one partition -/

namespace Partition

variable {source : List Char} {ts us : List Token}

theorem offsets (h : Partition source ts) : ts.Pairwise (·.span.offset < ·.span.offset) := by
  refine h.apart.imp_of_mem ?_
  intro t u ht _ hapart
  obtain ⟨before, cs, after, -, hstands⟩ := h.stands t ht
  have hpos := hstands.len_pos
  omega

theorem subset (h : Partition source ts) (h' : Partition source us) : ts ⊆ us := by
  intro t ht
  have hstands := h.stands t ht
  obtain ⟨before, cs, after, hsource, hbetween⟩ := h.stands t ht
  obtain ⟨c, cs, rfl⟩ := List.exists_cons_of_ne_nil hbetween.lexeme.ne_nil
  -- the other partition has a token over the first character of this one
  obtain ⟨u, hu, hmeets⟩ := h'.covered before c (cs ++ after) (by simp [hsource])
    (hbetween.lexeme.not_blank c (List.mem_cons_self ..))
  rw [← hbetween.offset] at hmeets
  rwa [← hstands.eq_of_meets (h'.stands u hu) hmeets]

theorem unique (h : Partition source ts) (h' : Partition source us) : ts = us := by
  have : Std.Irrefl fun t u : Token => t.span.offset < u.span.offset := ⟨fun _ => Nat.lt_irrefl _⟩
  have : Std.Antisymm fun t u : Token => t.span.offset < u.span.offset :=
    ⟨fun _ _ hlt hgt => absurd hlt (Nat.lt_asymm hgt)⟩
  exact h.offsets.eq_of_mem_iff h'.offsets fun t => ⟨(h.subset h' ·), (h'.subset h ·)⟩

end Partition

/-! ## The scanner finds it -/

theorem Position.advanceOver_concat (cs : List Char) (c : Char) :
    (Position.start.advanceOver cs).advance c = Position.start.advanceOver (cs ++ [c]) :=
  (Position.advanceOver_append _ cs [c]).symm

theorem Position.column_advanceOver (cs : List Char) :
    (Position.start.advanceOver cs).column = 1 + (cs.rtakeWhile (· ≠ '\n')).length := by
  induction cs using List.reverseRecOn with
  | nil => rfl
  | append_singleton cs c ih =>
    rw [← advanceOver_concat, advance]
    by_cases hc : c = '\n'
    · rw [if_pos hc, List.rtakeWhile_concat_neg _ _ _ (by simp [hc]), List.length_nil]
    · rw [if_neg hc, List.rtakeWhile_concat_pos _ _ _ (by simp [hc]), ih, List.length_append,
        List.length_singleton, Nat.add_assoc]

theorem IsLexeme.standsBetween {before cs after : List Char} (h : IsLexeme before cs after) :
    (Token.of (Position.start.advanceOver before) cs).StandsBetween before cs after where
  lexeme := h
  text := rfl
  offset := (Position.offset_advanceOver ..).trans (Nat.zero_add _)
  len := rfl
  line := Position.line_advanceOver ..
  column := Position.column_advanceOver before

/-- The scanner's tokens stand where it finds them, if it does not begin inside a word. -/
theorem Lexes.standsIn {p : Position} {cs : List Char} {ts : List Token} (h : Lexes p cs ts)
    {before : List Char} (hp : p = Position.start.advanceOver before)
    (hparted : Parted before cs) : ∀ t ∈ ts, t.StandsIn (before ++ cs) := by
  induction h generalizing before with
  | nil => simp
  | @blank p c cs ts hblank _ ih =>
    subst hp
    have hc : isWordChar c = false := not_isWordChar_of_isBlank hblank
    have := ih (Position.advanceOver_concat before c) (.of_left (List.getLast?_concat ..) hc)
    simpa using this
  | @bracket p c cs ts hbracket _ ih =>
    subst hp
    have hc : isWordChar c = false := by simp [isWordChar, hbracket]
    have := ih (Position.advanceOver_concat before c) (.of_left (List.getLast?_concat ..) hc)
    rw [List.forall_mem_cons]
    exact ⟨⟨before, [c], cs, by simp, (IsLexeme.bracket hbracket).standsBetween⟩,
      by simpa using this⟩
  | @word p c word cs ts hc hword hend _ ih =>
    subst hp
    have hall : ∀ d ∈ c :: word, isWordChar d = true := List.forall_mem_cons.mpr ⟨hc, hword⟩
    have hfirst : ∀ d, before.getLast? = some d → isWordChar d = false := by
      intro d hd
      by_contra hne
      have := hparted d c hd rfl (by simpa using hne)
      rw [hc] at this
      cases this
    have hnext : (Position.start.advanceOver before).advanceOver (c :: word) =
        Position.start.advanceOver (before ++ c :: word) := (Position.advanceOver_append ..).symm
    have := ih hnext (fun _ d _ hd _ => hend d hd)
    rw [List.forall_mem_cons]
    exact ⟨⟨before, c :: word, cs, by simp,
      (IsLexeme.word (List.cons_ne_nil _ _) hall hfirst hend).standsBetween⟩,
      by simpa using this⟩

theorem Lexes.apart {p : Position} {cs : List Char} {ts : List Token} (h : Lexes p cs ts) :
    ts.Pairwise fun t u => t.span.offset + t.span.len ≤ u.span.offset := by
  induction h with
  | nil => exact .nil
  | blank _ _ ih => exact ih
  | @bracket p c cs ts _ hrest ih =>
    refine .cons ?_ ih
    intro t ht
    have hle := hrest.offset_le t ht
    rwa [Position.offset_advance] at hle
  | @word p c word cs ts _ _ _ hrest ih =>
    refine .cons ?_ ih
    intro t ht
    have hle := hrest.offset_le t ht
    rwa [Position.offset_advanceOver] at hle

/-- Every character that is not blank is taken into a token. -/
theorem Lexes.covered {p : Position} {cs : List Char} {ts : List Token} (h : Lexes p cs ts)
    {before : List Char} {c : Char} {after : List Char} (hcs : cs = before ++ c :: after)
    (hc : isBlank c = false) : ∃ t ∈ ts, t.span.Meets (p.offset + byteLength before) := by
  induction h generalizing before with
  | nil => simp at hcs
  | @blank p d cs ts hblank _ ih =>
    cases before with
    | nil =>
      obtain ⟨rfl, -⟩ := List.cons.inj hcs
      rw [hblank] at hc
      cases hc
    | cons d' before =>
      obtain ⟨rfl, hrest⟩ := List.cons.inj hcs
      obtain ⟨t, ht, hmeets⟩ := ih hrest
      rw [Position.offset_advance, Nat.add_assoc, ← byteLength_cons] at hmeets
      exact ⟨t, ht, hmeets⟩
  | @bracket p d cs ts hbracket _ ih =>
    cases before with
    | nil =>
      have hpos := d.utf8Size_pos
      refine ⟨_, List.mem_cons_self .., Nat.le_refl _, ?_⟩
      show p.offset + 0 < p.offset + (d.utf8Size + 0)
      omega
    | cons d' before =>
      obtain ⟨rfl, hrest⟩ := List.cons.inj hcs
      obtain ⟨t, ht, hmeets⟩ := ih hrest
      rw [Position.offset_advance, Nat.add_assoc, ← byteLength_cons] at hmeets
      exact ⟨t, List.mem_cons_of_mem _ ht, hmeets⟩
  | @word p d word cs ts _ _ _ _ ih =>
    -- the character is one of the word's, or it comes after the word
    rw [← List.cons_append, List.append_eq_append_iff] at hcs
    rcases hcs with ⟨gap, rfl, hcs⟩ | ⟨gap, hgap, hcs⟩
    · obtain ⟨t, ht, hmeets⟩ := ih hcs
      rw [Position.offset_advanceOver, Nat.add_assoc, ← byteLength_append] at hmeets
      exact ⟨t, List.mem_cons_of_mem _ ht, hmeets⟩
    · cases gap with
      | nil =>
        obtain ⟨t, ht, hmeets⟩ := @ih [] hcs.symm
        rw [Position.offset_advanceOver, hgap, List.append_nil] at hmeets
        exact ⟨t, List.mem_cons_of_mem _ ht, hmeets⟩
      | cons e gap =>
        have hpos := e.utf8Size_pos
        refine ⟨_, List.mem_cons_self .., Nat.le_add_right .., ?_⟩
        show p.offset + byteLength before < p.offset + byteLength (d :: word)
        rw [hgap, byteLength_append, byteLength_cons]
        omega

theorem partition_tokens (text : String) : Partition text.toList (tokens text) where
  stands := by
    have hparted : Parted [] text.toList := fun _ _ hc => by cases hc
    exact (lexes_tokensAt .start text.toList).standsIn rfl hparted
  apart := (lexes_tokensAt .start text.toList).apart
  covered before c after hsource hc := by
    have h := (lexes_tokensAt .start text.toList).covered hsource hc
    rwa [show Position.start.offset = 0 from rfl, Nat.zero_add] at h

/-- What a token of a text says of it, in terms of the fragment that its span cuts out. -/
theorem fragment_of_mem_tokens {text : String} {t : Token} (ht : t ∈ tokens text) :
    t.span.fragment text ≠ "" ∧ t.text = upper (t.span.fragment text) ∧
      t.span.len = (t.span.fragment text).utf8ByteSize ∧
      t.span.offset + t.span.len ≤ text.utf8ByteSize := by
  obtain ⟨before, cs, after, hsource, hstands⟩ := (partition_tokens text).stands t ht
  have hcut : t.span.fragment text = String.ofList cs := by
    rw [Span.fragment, hsource, hstands.cut]
  have hsize : text.utf8ByteSize = byteLength (before ++ cs ++ after) := by
    rw [← utf8ByteSize_ofList, ← hsource, String.ofList_toList]
  rw [hcut, utf8ByteSize_ofList, hsize, byteLength_append (before ++ cs), ← hstands.stop_eq]
  refine ⟨?_, hstands.text, hstands.len, Nat.le_add_right ..⟩
  simpa using hstands.lexeme.ne_nil

/-- Scanning divides a text into its tokens, and into nothing else: the tokens are brackets and the
longest runs of other characters, they come in order and apart, nothing but blanks is left over, and
each tells its fragment in upper case and its place in bytes, lines and columns. No other list of
tokens does. Two words always have a blank or a bracket between them. -/
theorem partition_iff (text : String) :
    (∀ ts, Partition text.toList ts ↔ ts = tokens text) ∧
    (∀ t ∈ tokens text, t.span.fragment text ≠ "" ∧ t.text = upper (t.span.fragment text) ∧
      t.span.len = (t.span.fragment text).utf8ByteSize ∧
      t.span.offset + t.span.len ≤ text.utf8ByteSize) ∧
    (tokens text).Pairwise fun t u =>
      t.span.IsWord text.toList → u.span.IsWord text.toList →
        Separated text.toList t.span u.span := by
  have hpartition := partition_tokens text
  refine ⟨?_, fun t ht => fragment_of_mem_tokens ht, ?_⟩
  · intro ts
    constructor
    · intro h
      exact h.unique hpartition
    · rintro rfl
      exact hpartition
  · refine hpartition.apart.imp_of_mem ?_
    intro t u ht hu hapart htword huword
    exact (hpartition.stands t ht).separated (hpartition.stands u hu) htword huword hapart

/-- Bytes, lines and columns are three counts, and the upper case is none of them. -/
example : tokens "é\n ßa[" =
    [⟨"É", ⟨0, 2, 1, 1⟩⟩, ⟨"SSA", ⟨4, 3, 2, 2⟩⟩, ⟨"[", ⟨7, 1, 2, 4⟩⟩] := by cbv

end TurtleGraphics.Text
