import Mathlib
import TurtleGraphics.Program.Reading
import TurtleGraphics.Proofs.Block

namespace TurtleGraphics

open Text (Token)

/-! # The grammar of programs

The rules by which tokens make programs, stated by themselves and without a reader.

* `IsCount`: how often a loop runs, in writing.
* `InputRun`, `InputRunUpTo`: the longest run of inputs, and the longest run of at most so many.
* `Phrase`: a word that begins a statement, with the tokens that belong to it.
* `Sentence`: a whole sequence of statements and loops, with the block that it stands for.

The lemmas tie each rule to the function that reads by it. `find?_eq_some` and
`readCount?_eq_some` do so for names and counts, `readStatement_eq_ok` for phrases,
`readLoopHead_eq_ok` for the beginning of a loop.
-/

/-- The text is a count of the value `n`: decimal digits after an optional plus sign, with a value
below `2 ^ 32`. -/
def IsCount (text : String) (n : Nat) : Prop :=
  ∃ ds : List Char, (text.toList = ds ∨ text.toList = '+' :: ds) ∧ ds ≠ [] ∧
    (∀ d ∈ ds, d.isDigit) ∧ Decimal.natOfDigits ds = n ∧ n < 2 ^ 32

/-- No input comes first. -/
def StartsFresh (ts : List Token) : Prop :=
  ∀ t, ts.head? = some t → t.isInput = false

/-- `run` is the longest run of inputs at the beginning of `run ++ rest`. -/
structure InputRun (run rest : List Token) : Prop where
  inputs : ∀ t ∈ run, t.isInput
  longest : StartsFresh rest

/-- `run` is the longest run of at most `n` inputs at the beginning of `run ++ rest`. -/
structure InputRunUpTo (n : Nat) (run rest : List Token) : Prop where
  inputs : ∀ t ∈ run, t.isInput
  atMost : run.length ≤ n
  longest : run.length = n ∨ StartsFresh rest

/-- A word that is neither a bracket nor `REPEAT`, names no primitive and is not a value. -/
structure IsUnknown (t : Token) : Prop where
  notOpen : t.isOpen = false
  notClose : t.isClose = false
  notRepeat : t.text ≠ repeatWord
  notNamed : ∀ p : Primitive, p.isNamed t.text = false
  notValue : t.isValue = false

/-- `first` and the tokens `run` make the statement when `rest` comes after them. -/
inductive Phrase (first : Token) : List Token → List Token → Statement → Prop where
  /-- A primitive's name takes as many inputs as it can, up to its arity. -/
  | command {p run rest} : p.isNamed first.text → InputRunUpTo p.arity run rest →
      Phrase first run rest (.command ⟨p, run, first.span⟩)
  /-- A value stands alone. -/
  | stray {rest} : first.isValue → Phrase first [] rest (.stray first.text first.span)
  /-- An unknown word takes all the inputs that follow, and they are lost. -/
  | unknown {run rest} : IsUnknown first → InputRun run rest →
      Phrase first run rest (.unknown first.text first.span)

/-- The tokens, all of them, make the block. -/
inductive Sentence : List Token → Block → Prop where
  | done : Sentence [] .done
  | statement {first run rest s next} : Phrase first run rest s → Sentence rest next →
      Sentence (first :: (run ++ rest)) (.statement s next)
  | loop {start count opening inner closing rest n body next} : start.text = repeatWord →
      IsCount count.text n → opening.isOpen → Sentence inner body → closing.isClose →
      Sentence rest next →
      Sentence (start :: count :: opening :: (inner ++ closing :: rest))
        (.loop n start.span body next)

/-! ## Kinds of tokens

A token is of one kind only, so the rules of the grammar do not overlap. -/

theorem Token.isOpen_iff {t : Token} : t.isOpen = true ↔ t.text = "[" := by
  simp [Text.Token.isOpen]

theorem Token.isClose_iff {t : Token} : t.isClose = true ↔ t.text = "]" := by
  simp [Text.Token.isClose]

theorem Token.isInput_iff {t : Token} :
    t.isInput = true ↔ t.isOpen = false ∧ t.isClose = false ∧ t.text ≠ repeatWord ∧
      Primitive.find? t.text = none := by
  simp [Text.Token.isInput, and_assoc]

theorem Token.isValue_eq (t : Token) :
    t.isValue = ((Decimal.finite? t.text).isSome || t.text.toList.head? == some '"') := rfl

/-- No two primitives share a name or an alias. -/
theorem find?_eq_some {p : Primitive} {word : String} :
    Primitive.find? word = some p ↔ p.isNamed word = true := by
  constructor
  · intro h
    unfold Primitive.find? at h
    exact List.find?_some (p := fun q : Primitive => q.isNamed word) h
  · intro h
    cases p <;> simp [Primitive.isNamed, Primitive.name, Primitive.aliases] at h <;>
      rcases h with rfl | rfl | rfl <;> decide

theorem find?_eq_none {word : String} :
    Primitive.find? word = none ↔ ∀ p : Primitive, p.isNamed word = false := by
  constructor
  · intro h p
    by_contra hp
    rw [find?_eq_some.mpr (by simpa using hp)] at h
    cases h
  · intro h
    cases hf : Primitive.find? word with
    | none => rfl
    | some p =>
      rw [find?_eq_some, h p] at hf
      cases hf

/-- The name of a primitive is neither a number nor quoted. -/
theorem isValue_of_isNamed {p : Primitive} {t : Token} (h : p.isNamed t.text = true) :
    t.isValue = false := by
  rw [Token.isValue_eq]
  generalize t.text = word at h
  cases p <;> simp [Primitive.isNamed, Primitive.name, Primitive.aliases] at h <;>
    rcases h with rfl | rfl | rfl <;> decide

theorem isNamed_of_isValue {t : Token} (h : t.isValue = true) (p : Primitive) :
    p.isNamed t.text = false := by
  by_contra hp
  rw [isValue_of_isNamed (by simpa using hp)] at h
  cases h

/-- Brackets and `REPEAT` name nothing and have no value. -/
theorem find?_isValue_of_mark {t : Token}
    (h : t.isOpen = true ∨ t.isClose = true ∨ t.text = repeatWord) :
    Primitive.find? t.text = none ∧ t.isValue = false := by
  rw [Token.isValue_eq]
  rcases h with h | h | h
  · rw [Token.isOpen_iff.mp h]
    decide
  · rw [Token.isClose_iff.mp h]
    decide
  · rw [h]
    decide

theorem not_mark {t : Token} (h : Primitive.find? t.text ≠ none ∨ t.isValue = true) :
    t.isOpen = false ∧ t.isClose = false ∧ t.text ≠ repeatWord := by
  have hmark : ¬ (t.isOpen = true ∨ t.isClose = true ∨ t.text = repeatWord) := by
    intro hm
    obtain ⟨hfind, hvalue⟩ := find?_isValue_of_mark hm
    rcases h with h | h
    · exact h hfind
    · rw [hvalue] at h
      cases h
  simpa using hmark

/-! ## Runs of inputs -/

theorem startsFresh_nil : StartsFresh [] := by
  intro t h
  cases h

theorem startsFresh_cons {t : Token} {ts : List Token} :
    StartsFresh (t :: ts) ↔ t.isInput = false := by
  simp [StartsFresh]

/-- Brackets and `REPEAT` are not inputs. -/
theorem startsFresh_mark {t : Token} {ts : List Token}
    (h : t.isOpen = true ∨ t.isClose = true ∨ t.text = repeatWord) : StartsFresh (t :: ts) := by
  rw [startsFresh_cons]
  by_contra hin
  obtain ⟨hopen, hclose, hrepeat, -⟩ := Token.isInput_iff.mp (by simpa using hin)
  rcases h with h | h | h
  · simp [hopen] at h
  · simp [hclose] at h
  · exact hrepeat h

theorem StartsFresh.append {ts rest : List Token} (h : StartsFresh ts) (hr : StartsFresh rest) :
    StartsFresh (ts ++ rest) := by
  cases ts with
  | nil => exact hr
  | cons t ts => exact startsFresh_cons.mpr (startsFresh_cons.mp h)

theorem StartsFresh.of_append {ts rest : List Token} (h : StartsFresh (ts ++ rest)) :
    StartsFresh ts := by
  cases ts with
  | nil => exact startsFresh_nil
  | cons t ts => exact startsFresh_cons.mpr (startsFresh_cons.mp h)

theorem InputRun.of_dropWhile (ts : List Token) :
    InputRun (ts.takeWhile (·.isInput)) (ts.dropWhile (·.isInput)) where
  inputs t ht := List.all_eq_true.mp List.all_takeWhile t ht
  longest := by
    intro t ht
    have := List.head?_dropWhile_not (·.isInput) ts
    rw [ht] at this
    simpa using this

theorem InputRun.dropWhile_eq {run rest : List Token} (h : InputRun run rest) :
    (run ++ rest).dropWhile (·.isInput) = rest := by
  rw [List.dropWhile_append_of_pos h.inputs]
  cases rest with
  | nil => rfl
  | cons t ts => simp [startsFresh_cons.mp h.longest]

theorem InputRunUpTo.of_take (n : Nat) (ts : List Token) :
    InputRunUpTo n ((ts.take n).takeWhile (·.isInput))
      (ts.drop ((ts.take n).takeWhile (·.isInput)).length) := by
  rw [← List.take_takeWhile]
  refine ⟨?_, List.length_take_le .., ?_⟩
  · intro t ht
    exact (InputRun.of_dropWhile ts).inputs t (List.mem_of_mem_take ht)
  · -- there are more inputs than `n`, or the run takes them all
    rcases Nat.lt_or_ge n (ts.takeWhile (·.isInput)).length with hn | hn
    · exact .inl (List.length_take_of_le (Nat.le_of_lt hn))
    · right
      rw [List.take_of_length_le hn]
      have hsplit : ts.drop (ts.takeWhile (·.isInput)).length = ts.dropWhile (·.isInput) := by
        calc
          _ = (ts.takeWhile (·.isInput) ++ ts.dropWhile (·.isInput)).drop
              (ts.takeWhile (·.isInput)).length := by rw [List.takeWhile_append_dropWhile]
          _ = _ := List.drop_left
      rw [hsplit]
      exact (InputRun.of_dropWhile ts).longest

theorem InputRunUpTo.take_eq {n : Nat} {run rest : List Token} (h : InputRunUpTo n run rest) :
    ((run ++ rest).take n).takeWhile (·.isInput) = run := by
  rw [← List.take_takeWhile, List.takeWhile_append_of_pos h.inputs]
  -- the run ends because it is full, or because something else comes
  rcases h.longest with hfull | hfresh
  · rw [← hfull, List.take_left]
  · have hnone : rest.takeWhile (·.isInput) = [] := by
      cases rest with
      | nil => rfl
      | cons t ts => simp [startsFresh_cons.mp hfresh]
    rw [hnone, List.append_nil, List.take_of_length_le h.atMost]

/-! ## Phrases -/

namespace Phrase

variable {first : Token} {run rest : List Token} {s : Statement}

/-- What comes after a phrase matters only in whether it begins with an input. -/
theorem of_startsFresh {rest' : List Token} (h : Phrase first run rest s)
    (hrest : StartsFresh rest → StartsFresh rest') : Phrase first run rest' s := by
  cases h with
  | command hp hrun => exact .command hp ⟨hrun.inputs, hrun.atMost, hrun.longest.imp_right hrest⟩
  | stray hvalue => exact .stray hvalue
  | unknown hword hrun => exact .unknown hword ⟨hrun.inputs, hrest hrun.longest⟩

theorem first_not_mark (h : Phrase first run rest s) :
    first.isOpen = false ∧ first.isClose = false ∧ first.text ≠ repeatWord := by
  cases h with
  | command hp => exact not_mark (.inl (by simp [find?_eq_some.mpr hp]))
  | stray hvalue => exact not_mark (.inr hvalue)
  | unknown hword => exact ⟨hword.notOpen, hword.notClose, hword.notRepeat⟩

end Phrase

/-! ## The readers follow the rules -/

theorem digits?_eq_some {cs : List Char} {n : Nat} :
    Decimal.digits? cs = some n ↔
      cs ≠ [] ∧ (∀ d ∈ cs, d.isDigit) ∧ Decimal.natOfDigits cs = n := by
  simp [Decimal.digits?, Decimal.isDigits, and_assoc]

theorem readCount?_eq_some {text : String} {n : Nat} :
    readCount? text = some n ↔ IsCount text n := by
  have hplus : Char.isDigit '+' = false := by decide
  simp only [readCount?, IsCount, Option.filter_eq_some_iff, decide_eq_true_eq]
  unfold Decimal.unsigned?
  constructor
  · rintro ⟨h, hn⟩
    split at h
    · rename_i cs htext
      obtain ⟨hne, hdigits, hvalue⟩ := digits?_eq_some.mp h
      exact ⟨cs, .inr htext, hne, hdigits, hvalue, hn⟩
    · obtain ⟨hne, hdigits, hvalue⟩ := digits?_eq_some.mp h
      exact ⟨_, .inl rfl, hne, hdigits, hvalue, hn⟩
  · rintro ⟨ds, htext, hne, hdigits, hvalue, hn⟩
    refine ⟨?_, hn⟩
    have hread := digits?_eq_some.mpr ⟨hne, hdigits, hvalue⟩
    rcases htext with htext | htext
    · -- no plus sign comes first
      rw [htext]
      split
      · -- a sign is not a digit
        simp [hplus] at hdigits
      · exact hread
    · rw [htext]
      exact hread

/-- A count is not a bracket. -/
theorem IsCount.not_bracket {t : Token} {n : Nat} (h : IsCount t.text n) :
    t.isOpen = false ∧ t.isClose = false := by
  rw [← readCount?_eq_some] at h
  constructor
  · by_contra ht
    rw [Token.isOpen_iff.mp (by simpa using ht), show readCount? "[" = none by decide] at h
    cases h
  · by_contra ht
    rw [Token.isClose_iff.mp (by simpa using ht), show readCount? "]" = none by decide] at h
    cases h

/-- What is read as a statement is a phrase, and every phrase is read as its statement. -/
theorem readStatement_eq_ok {first : Token} {ts rest : List Token} {s : Statement}
    (hclose : first.isClose = false) (hrepeat : first.text ≠ repeatWord) :
    readStatement first ts = .ok (s, rest) ↔
      ∃ run, ts = run ++ rest ∧ Phrase first run rest s := by
  constructor
  · intro h
    unfold readStatement at h
    split at h
    · cases h
    · rename_i hopen
      split at h
      · -- a primitive, with the inputs that it takes
        rename_i p hp
        cases h
        refine ⟨(ts.take p.arity).takeWhile (·.isInput), ?_, ?_⟩
        · have hpre : (ts.take p.arity).takeWhile (·.isInput) <+: ts :=
            (List.takeWhile_prefix _).trans (List.take_prefix ..)
          exact (List.prefix_iff_eq_append.mp hpre).symm
        · exact .command (find?_eq_some.mp hp) (.of_take ..)
      · rename_i hp
        split at h
        · -- a value, which takes nothing
          rename_i hvalue
          cases h
          exact ⟨[], rfl, .stray hvalue⟩
        · -- an unknown word, which takes all inputs
          rename_i hvalue
          cases h
          refine ⟨ts.takeWhile (·.isInput), List.takeWhile_append_dropWhile.symm, ?_⟩
          exact .unknown ⟨by simpa using hopen, hclose, hrepeat, find?_eq_none.mp hp,
            by simpa using hvalue⟩ (.of_dropWhile ts)
  · rintro ⟨run, rfl, h⟩
    unfold readStatement
    cases h with
    | @command p _ _ hp hrun =>
      have hfind := find?_eq_some.mpr hp
      obtain ⟨hopen, -⟩ := not_mark (.inl (by simp [hfind]) : _ ∨ first.isValue = true)
      simp [hopen, hfind, hrun.take_eq]
    | stray hvalue =>
      have hfind := find?_eq_none.mpr (isNamed_of_isValue hvalue)
      obtain ⟨hopen, -⟩ := not_mark (.inr hvalue)
      simp [hopen, hfind, hvalue]
    | unknown hword hrun =>
      simp [hword.notOpen, find?_eq_none.mpr hword.notNamed, hword.notValue, hrun.dropWhile_eq]

theorem readLoopHead_eq_ok {start : Token} {ts : List Token} {head : LoopHead} :
    readLoopHead start ts = .ok head ↔
      ∃ count, ts = count :: head.bracket :: head.rest ∧ IsCount count.text head.count ∧
        head.bracket.isOpen := by
  constructor
  · intro h
    unfold readLoopHead at h
    split at h
    · cases h
    · split at h
      · cases h
      · split at h
        · cases h
        · rename_i count hcount
          split at h
          · cases h
          · split at h
            · rename_i hopen
              cases h
              exact ⟨_, rfl, readCount?_eq_some.mp hcount, hopen⟩
            · cases h
  · rintro ⟨count, rfl, hcount, hopen⟩
    obtain ⟨h₁, h₂⟩ := hcount.not_bracket
    simp [readLoopHead, h₁, h₂, readCount?_eq_some.mpr hcount, hopen]

end TurtleGraphics
