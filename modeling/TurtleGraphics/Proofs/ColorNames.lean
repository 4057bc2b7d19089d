import TurtleGraphics.Proofs.LetterCase
import TurtleGraphics.Proofs.Repetition

namespace TurtleGraphics

open Text (Position Span Token isWordChar strip stripEnd tokens tokensAt upper upperChar)

/-! # How color names are found

A color's name goes a long way from the text to the palette: it is scanned with a quote in front of
it, put in upper case, freed of its quotes and put in upper case again. It arrives as the name that
was given to the palette, in whichever letter case either was written.

* `IsName`: a name without blanks, brackets and quotes. Its upper case is such a name too, and so is
  every name with the same upper case (`isName_upper_iff`).
* `NamedPalette.insertAll`, `NamedPalette.Resolves`: a palette with names added to it, and what a
  name comes to in it. Every name comes to something (`NamedPalette.exists_resolves`).
* `quoted`, `sentence_setColor`: a name in quotes is the one input of the command before it, even if
  the name alone would be a number or a command.

`quoted_name_resolves` is the consequence for whole texts.
-/

/-! ## Names -/

/-- A name that is not torn apart when it is scanned, nor loses its ends when quotes are removed. -/
def IsName (cs : List Char) : Prop :=
  ∀ c ∈ cs, isWordChar c = true ∧ c ≠ '"'

namespace Text

theorem mem_marks_of_not_name {c : Char} (h : ¬ (isWordChar c = true ∧ c ≠ '"')) :
    c.toNat ∈ marks := by
  by_cases hword : isWordChar c = true
  · have hquote : c = '"' := by
      by_contra hne
      exact h ⟨hword, hne⟩
    rw [hquote]
    exact List.mem_cons_self
  · exact mem_marks_of_separator (Bool.eq_false_of_not_eq_true hword)

/-- Upper case neither makes marks nor takes them away. -/
theorem isName_upper_iff {s : String} : IsName (upper s).toList ↔ IsName s.toList := by
  rw [toList_upper]
  constructor
  · intro h c hc
    by_contra hmark
    -- a mark is its own upper case, so it would be in the upper case of the name
    have hsame : upperChar c = [c] := upperChar_of_mark (mem_marks_of_not_name hmark)
    exact hmark (h c (List.mem_flatMap.mpr ⟨c, hc, by rw [hsame, List.mem_singleton]⟩))
  · intro h d hd
    rcases List.mem_flatMap.mp hd with ⟨c, hc, hupper⟩
    by_contra hmark
    rw [← eq_of_mem_upperChar hupper (mem_marks_of_not_name hmark)] at hmark
    exact hmark (h c hc)

/-! ## Quotes -/

theorem dropWhile_append {p : Char → Bool} {before cs : List Char}
    (hbefore : ∀ c ∈ before, p c = true) (hcs : ∀ c ∈ cs, p c = false) :
    (before ++ cs).dropWhile p = cs := by
  rw [List.dropWhile_append_of_pos hbefore, List.dropWhile_eq_self_iff]
  intro hlen
  rw [hcs _ (List.getElem_mem hlen)]
  exact Bool.false_ne_true

/-- What stands between characters of a class, and has none of them in it, is left when they are
stripped. -/
theorem strip_between {p : Char → Bool} {before cs after : List Char}
    (hbefore : ∀ c ∈ before, p c = true) (hcs : ∀ c ∈ cs, p c = false)
    (hafter : ∀ c ∈ after, p c = true) :
    strip p (String.ofList (before ++ (cs ++ after))) = String.ofList cs := by
  rw [strip, String.toList_ofList]
  congr 1
  cases cs with
  | nil =>
    -- the first stripping takes what is behind as well
    have hall : (before ++ ([] ++ after)).dropWhile p = [] := by
      rw [List.nil_append, List.dropWhile_append_of_pos hbefore]
      exact List.dropWhile_eq_nil_iff.mpr hafter
    rw [hall]
    rfl
  | cons c cs =>
    have hfront : (before ++ (c :: cs ++ after)).dropWhile p = c :: cs ++ after := by
      rw [List.dropWhile_append_of_pos hbefore, List.cons_append,
        List.dropWhile_cons_of_neg (by simp [hcs c List.mem_cons_self])]
    rw [hfront, stripEnd, List.reverse_append, dropWhile_append, List.reverse_reverse]
    · intro d hd
      exact hafter d (List.mem_reverse.mp hd)
    · intro d hd
      exact hcs d (List.mem_reverse.mp hd)

end Text

/-! ## Entries -/

namespace NamedPalette

variable {base : NamedPalette} {added : List (String × Color)} {name : String}

/-- The palette with some more names, given to it one after the other. -/
def insertAll (p : NamedPalette) (added : List (String × Color)) : NamedPalette :=
  added.foldl (fun p e => p.insert e.1 e.2) p

theorem insertAll_append (p : NamedPalette) (before after : List (String × Color)) :
    p.insertAll (before ++ after) = (p.insertAll before).insertAll after :=
  List.foldl_append

/-- Other names make no difference to a name. -/
theorem lookup_insertAll_of_ne {p : NamedPalette} {n : String}
    (h : ∀ e ∈ added, upper e.1 ≠ n) :
    (p.insertAll added).entries.lookup n = p.entries.lookup n := by
  induction added generalizing p with
  | nil => rfl
  | cons e added ih =>
    rcases List.forall_mem_cons.mp h with ⟨he, hrest⟩
    have hother : (n == upper e.1) = false := by
      rw [beq_eq_false_iff_ne]
      exact he.symm
    have hfirst : (p.insert e.1 e.2).entries.lookup n = p.entries.lookup n := by
      rw [insert, List.lookup_cons, hother]
    exact (ih hrest).trans hfirst

/-- The last color given to a name counts. -/
theorem lookup_insertAll_last {key : String} {color : Color} {before after : List (String × Color)}
    (h : ∀ e ∈ after, upper e.1 ≠ upper key) :
    (base.insertAll (before ++ (key, color) :: after)).entries.lookup (upper key) = some color := by
  rw [insertAll_append]
  exact (lookup_insertAll_of_ne h).trans List.lookup_cons_self

/-- Either there is a last entry of some kind, or there is none. -/
theorem exists_last_or_forall {α : Type} (P : α → Prop) (l : List α) :
    (∃ before a after, l = before ++ a :: after ∧ P a ∧ ∀ b ∈ after, ¬ P b) ∨ ∀ a ∈ l, ¬ P a := by
  induction l with
  | nil =>
    right
    intro a ha
    cases ha
  | cons a l ih =>
    rcases ih with ⟨before, b, after, rfl, hb, hafter⟩ | hnone
    · -- the last one further on is the last of all
      exact .inl ⟨a :: before, b, after, rfl, hb, hafter⟩
    · by_cases ha : P a
      · exact .inl ⟨[], a, l, rfl, ha, hnone⟩
      · exact .inr (List.forall_mem_cons.mpr ⟨ha, hnone⟩)

/-- What a name that stands at a span comes to, with the warning that comes with it: the last color
that was added for it, or else the color that it had before, or else the color that it spells.
Letter case does not count. -/
inductive Resolves (base : NamedPalette) (added : List (String × Color)) (name : String)
    (span : Span) : Color → List Warning → Prop where
  | added {before key color after} : added = before ++ (key, color) :: after →
      upper key = upper name → (∀ e ∈ after, upper e.1 ≠ upper name) →
      Resolves base added name span color []
  | kept {color} : (∀ e ∈ added, upper e.1 ≠ upper name) →
      base.entries.lookup (upper name) = some color → Resolves base added name span color []
  | spelled {color} : (∀ e ∈ added, upper e.1 ≠ upper name) →
      base.entries.lookup (upper name) = none → Color.ofHex? (upper name) = some color →
      Resolves base added name span color []
  | unknown : (∀ e ∈ added, upper e.1 ≠ upper name) →
      base.entries.lookup (upper name) = none → Color.ofHex? (upper name) = none →
      Resolves base added name span .black [.unknownColor (upper name) .black span]

/-- Every name comes to something. -/
theorem exists_resolves (base : NamedPalette) (added : List (String × Color)) (name : String)
    (span : Span) : ∃ color ws, Resolves base added name span color ws := by
  rcases exists_last_or_forall (fun e => upper e.1 = upper name) added with
    ⟨before, ⟨key, color⟩, after, hadded, hkey, hafter⟩ | hnone
  · exact ⟨color, [], .added hadded hkey hafter⟩
  cases hlookup : base.entries.lookup (upper name) with
  | some color => exact ⟨color, [], .kept hnone hlookup⟩
  | none =>
    cases hhex : Color.ofHex? (upper name) with
    | some color => exact ⟨color, [], .spelled hnone hlookup hhex⟩
    | none => exact ⟨.black, _, .unknown hnone hlookup hhex⟩

/-- A command that has the name in upper case as its input uses what the name comes to. -/
theorem Resolves.color_eq {t : Token} {color : Color} {ws : List Warning}
    (h : Resolves base added name t.span color ws) (ht : Command.unquote t.text = upper name)
    (p : Primitive) (span : Span) :
    Command.color ⟨p, [t], span⟩ (base.insertAll added).toPalette = ⟨color, ws⟩ := by
  have hresolve : (base.insertAll added).toPalette.resolve (upper name) =
      (base.insertAll added).entries.lookup (upper (upper name)) := rfl
  -- the input is in upper case already when the palette puts it there
  rw [Text.upper_upper] at hresolve
  simp only [Command.color, List.getElem?_cons_zero, ht, hresolve]
  cases h with
  | added hadded hkey hafter =>
    rw [← hkey] at hafter
    rw [hadded, ← hkey, lookup_insertAll_last hafter]
    rfl
  | kept hnone hlookup =>
    rw [lookup_insertAll_of_ne hnone, hlookup]
    rfl
  | spelled hnone hlookup hhex =>
    rw [lookup_insertAll_of_ne hnone, hlookup, hhex]
    rfl
  | unknown hnone hlookup hhex =>
    rw [lookup_insertAll_of_ne hnone, hlookup, hhex]
    rfl

end NamedPalette

/-! ## Quoted names -/

/-- A name with a quote in front of it, and perhaps another behind it. -/
def quoted (name : String) (closed : Bool) : String :=
  "\"" ++ name ++ if closed then "\"" else ""

/-- The quote behind a name, if it has one. -/
def closing (closed : Bool) : List Char :=
  if closed then ['"'] else []

theorem eq_quote_of_mem_closing {closed : Bool} {c : Char} (h : c ∈ closing closed) : c = '"' := by
  cases closed with
  | true => exact List.mem_singleton.mp h
  | false => cases h

theorem toList_quoted (name : String) (closed : Bool) :
    (quoted name closed).toList = '"' :: (name.toList ++ closing closed) := by
  cases closed <;> simp [quoted, closing]

theorem upper_quoted (name : String) (closed : Bool) :
    upper (quoted name closed) =
      String.ofList (['"'] ++ ((upper name).toList ++ closing closed)) := by
  have hquote : upperChar '"' = ['"'] := rfl
  apply String.toList_injective
  rw [Text.toList_upper, toList_quoted, String.toList_ofList, Text.toList_upper, List.flatMap_cons,
    List.flatMap_append, hquote]
  cases closed <;> simp [closing, hquote]

/-- The quotes come off again. -/
theorem unquote_upper_quoted {name : String} (hname : IsName name.toList) (closed : Bool) :
    Command.unquote (upper (quoted name closed)) = upper name := by
  rw [upper_quoted, Command.unquote, Text.strip_between, String.ofList_toList]
  · intro c hc
    rw [List.mem_singleton.mp hc]
    rfl
  · intro c hc
    rw [beq_eq_false_iff_ne]
    exact (Text.isName_upper_iff.mpr hname c hc).2
  · intro c hc
    rw [eq_quote_of_mem_closing hc]
    rfl

/-- The token of a quoted name after the command. -/
def nameToken (name : String) (closed : Bool) : Token :=
  .of ⟨6, 1, 7⟩ (quoted name closed).toList

/-- Nothing in quotes is a bracket, `REPEAT` or the name of a primitive. -/
theorem isInput_nameToken (name : String) (closed : Bool) :
    (nameToken name closed).isInput = true := by
  have hvalue : (nameToken name closed).isValue = true := by
    rw [Token.isValue_eq, nameToken, Token.of, String.ofList_toList, upper_quoted]
    simp
  rcases not_mark (.inr hvalue) with ⟨hopen, hclose, hrepeat⟩
  exact Token.isInput_iff.mpr
    ⟨hopen, hclose, hrepeat, find?_eq_none.mpr (isNamed_of_isValue hvalue)⟩

theorem tokens_setColor {name : String} (hname : IsName name.toList) (closed : Bool) :
    tokens ("setpc " ++ quoted name closed) =
      [⟨"SETPC", ⟨0, 5, 1, 1⟩⟩, nameToken name closed] := by
  have hcommand : tokensAt .start "setpc".toList = [⟨"SETPC", ⟨0, 5, 1, 1⟩⟩] := by cbv
  have htext : ("setpc " ++ quoted name closed).toList =
      "setpc".toList ++ ' ' :: (quoted name closed).toList := by
    rw [String.toList_append]
    rfl
  have hword : ∀ c ∈ name.toList ++ closing closed, isWordChar c = true := by
    intro c hc
    rcases List.mem_append.mp hc with hc | hc
    · exact (hname c hc).1
    · rw [eq_quote_of_mem_closing hc]
      rfl
  -- the quotes and the name are one word, which ends with the text
  have hlexes : Text.Lexes ⟨6, 1, 7⟩ ('"' :: ((name.toList ++ closing closed) ++ []))
      [.of ⟨6, 1, 7⟩ ('"' :: (name.toList ++ closing closed))] :=
    .word rfl hword (by simp) .nil
  rw [List.append_nil, ← toList_quoted] at hlexes
  have hafter : ((Position.start.advanceOver "setpc".toList).advance ' ') = ⟨6, 1, 7⟩ := by decide
  rw [Text.tokens_eq_tokensAt, htext, Text.tokensAt_append_blank (by decide), hcommand, hafter,
    hlexes.tokensAt_eq]
  rfl

/-- The command that sets the color to a quoted name. -/
def setColor (name : String) (closed : Bool) : Command :=
  ⟨.setPenColor, [nameToken name closed], ⟨0, 5, 1, 1⟩⟩

theorem sentence_setColor {name : String} (hname : IsName name.toList) (closed : Bool) :
    Sentence (tokens ("setpc " ++ quoted name closed))
      (.statement (.command (setColor name closed)) .done) := by
  rw [tokens_setColor hname]
  have hinputs : InputRunUpTo Primitive.setPenColor.arity [nameToken name closed] [] := by
    refine ⟨?_, Nat.le_refl 1, .inl rfl⟩
    intro t ht
    rw [List.mem_singleton.mp ht]
    exact isInput_nameToken name closed
  exact .statement (.command (by decide) hinputs) .done

/-! ## Texts -/

/-- What comes of a text that does nothing but change the color of the pen. -/
def Workspace.recolored (w : Workspace) (color : Color) (ws : List Warning) : Outcome :=
  let pen := { w.turtle.pen with color := color }
  ⟨{ w with turtle := { w.turtle with pen := pen } },
    ⟨#[], false, w.turtle.pose, pen, #[], #[], ws.toArray⟩, #[]⟩

theorem interpret_setColor {w : Workspace} {name : String} (hname : IsName name.toList)
    (closed : Bool) {color : Color} {ws : List Warning}
    (hcolor : (setColor name closed).color w.palette = ⟨color, ws⟩) :
    w.interpret ("setpc " ++ quoted name closed) = w.recolored color ws := by
  have haction : (setColor name closed).action w.palette = ⟨.setPenColor color, ws⟩ := by
    have hread : (setColor name closed).action w.palette =
        ⟨.setPenColor ((setColor name closed).color w.palette).value,
          ((setColor name closed).color w.palette).warnings⟩ := rfl
    rw [hread, hcolor]
  have hwarnings : (#[] : Array Warning) ++ ws = ws.toArray := by simp
  rw [(sentence_setColor hname closed).interpret_eq w]
  simp only [Block.run, Execution.act, haction, Workspace.recolored, Workspace.outcome,
    Execution.start, hwarnings]
  rfl

/-- A quoted color name reaches the palette, whatever colors were added to the palette before and
whatever else the name could mean: the pen takes the last color that was added for the name in any
letter case, or the color that the palette had for it, or the color that the name spells, and
nothing else comes of the text. A name that is none of these turns the pen black and is reported in
upper case, and that is the only warning. -/
theorem quoted_name_resolves {w : Workspace} {base : NamedPalette} {added : List (String × Color)}
    (hpalette : w.palette = (base.insertAll added).toPalette) {key name : String}
    (hkey : IsName key.toList) (hname : upper name = upper key) (closed : Bool) :
    let span := Span.at ⟨6, 1, 7⟩ (quoted name closed).toList
    (∃ color ws, NamedPalette.Resolves base added name span color ws) ∧
      ∀ color ws, NamedPalette.Resolves base added name span color ws →
        w.interpret ("setpc " ++ quoted name closed) = w.recolored color ws := by
  intro span
  refine ⟨NamedPalette.exists_resolves base added name span, ?_⟩
  intro color ws hresolves
  have hisName : IsName name.toList := by
    rwa [← Text.isName_upper_iff, hname, Text.isName_upper_iff]
  have hunquote : Command.unquote (nameToken name closed).text = upper name := by
    rw [nameToken, Token.of, String.ofList_toList]
    exact unquote_upper_quoted hisName closed
  apply interpret_setColor hisName closed
  rw [hpalette]
  exact hresolves.color_eq hunquote _ _

/-- A name that is longer in upper case, and whose color was changed after another was added. -/
theorem quoted_name_resolves_longer :
    let added : List (String × Color) :=
      [("STRASSE", ⟨1, 2, 3⟩), ("straße", ⟨4, 5, 6⟩), ("repeat", ⟨7, 8, 9⟩)]
    let w : Workspace := .new {} (NamedPalette.standard.insertAll added).toPalette
    IsName "straße".toList ∧ upper "Strasse" = upper "straße" ∧
      w.interpret ("setpc " ++ quoted "Strasse" true) = w.recolored ⟨4, 5, 6⟩ [] := by
  intro added w
  have hchars : "straße".toList = ['s', 't', 'r', 'a', 'ß', 'e'] := rfl
  have hkey : IsName "straße".toList := by
    simp [IsName, hchars, isWordChar, Text.isBlank, Text.isBracket]
  have hname : upper "Strasse" = upper "straße" := by decide +kernel
  refine ⟨hkey, hname, ?_⟩
  rcases quoted_name_resolves (w := w) rfl hkey hname true with ⟨-, hinterpret⟩
  apply hinterpret
  have hadded : added = [("STRASSE", ⟨1, 2, 3⟩)] ++ ("straße", ⟨4, 5, 6⟩) ::
      [("repeat", ⟨7, 8, 9⟩)] := rfl
  exact .added hadded hname.symm (by decide +kernel)

end TurtleGraphics
