import Mathlib
import TurtleGraphics.Proofs.Grammar

namespace TurtleGraphics

open Text (Token tokens)

/-! # Reading accepts the grammar

The reading of a program is a loop over a draft; here it is followed through a whole text.

* `Draft.Steps`: some steps of the reading, `Draft.last`: the draft at which it stops.
* `Sentence.steps`: the tokens of a sentence are read as the block that they stand for, whatever
  was read before and whatever follows, provided that no input follows.
* `Blocked`: tokens with which no statement and no whole loop begins. The reading may go on for a
  while among the loops that it opens there, but what is kept ends here (`Blocked.halts`).
* `Draft.read_sentence`: every list of tokens is a sentence and then blocked, and the program that
  is read from it is that sentence. A fault is reported unless nothing is left.

`read_iff_sentence` puts these together for texts.
-/

namespace Draft

/-- Some steps of the reading. -/
def Steps : Draft → Draft → Prop :=
  Relation.ReflTransGen fun d d' => d.step = .inl d'

/-- The draft at which the reading stops. -/
def last (d : Draft) : Draft :=
  match h : d.step with
  | .inl d' =>
    have := step_rest_length h
    d'.last
  | .inr _ => d
termination_by d.rest.length

theorem run_step (d : Draft) :
    d.run = match d.step with
      | .inl d' => d'.run
      | .inr p => p := by
  rw [run]
  split <;> rename_i h <;> simp only [h]

theorem last_step (d : Draft) :
    d.last = match d.step with
      | .inl d' => d'.last
      | .inr _ => d := by
  rw [last]
  split <;> rename_i h <;> simp only [h]

theorem run_of_inl {d d' : Draft} (h : d.step = .inl d') : d.run = d'.run := by
  rw [run_step, h]

theorem run_of_inr {d : Draft} {p : Program} (h : d.step = .inr p) : d.run = p := by
  rw [run_step, h]

theorem last_of_inl {d d' : Draft} (h : d.step = .inl d') : d.last = d'.last := by
  rw [last_step, h]

theorem last_of_inr {d : Draft} {p : Program} (h : d.step = .inr p) : d.last = d := by
  rw [last_step, h]

theorem Steps.run_eq {d d' : Draft} (h : Steps d d') : d.run = d'.run := by
  induction h with
  | refl => rfl
  | tail _ hstep ih => rw [ih, run_of_inl hstep]

theorem Steps.last_eq {d d' : Draft} (h : Steps d d') : d.last = d'.last := by
  induction h with
  | refl => rfl
  | tail _ hstep ih => rw [ih, last_of_inl hstep]

/-! ## What a step does -/

/-- What a step does that goes on. -/
inductive Takes : Draft → Draft → Prop where
  /-- The innermost open loop ends, and its length is known. -/
  | close {t rest code o opened} : t.isClose = true →
      Takes ⟨t :: rest, code, o :: opened⟩
        ⟨rest, code.modify o.index (.withLen (code.size - o.index - 1)), opened⟩
  /-- A loop begins and is open. -/
  | loop {t rest code opened head} : t.text = repeatWord → readLoopHead t rest = .ok head →
      Takes ⟨t :: rest, code, opened⟩
        ⟨head.rest, code.push (.loop head.count 0 t.span), ⟨code.size, head.bracket⟩ :: opened⟩
  | statement {t rest code opened s rest'} : t.isClose = false → t.text ≠ repeatWord →
      readStatement t rest = .ok (s, rest') →
      Takes ⟨t :: rest, code, opened⟩ ⟨rest', code.push (.statement s), opened⟩

/-- The token cannot begin a statement or a loop: it opens a block that nothing asked for, or it
is a `REPEAT` without a count and a block. -/
def Breaks (t : Token) (rest : List Token) (p : Problem) : Prop :=
  (t.text = repeatWord ∧ readLoopHead t rest = .error p) ∨
    (t.isClose = false ∧ t.text ≠ repeatWord ∧ readStatement t rest = .error p)

/-- Why the reading stops at a draft, and the fault that it reports. -/
inductive Stops (d : Draft) : Option Problem → Prop where
  /-- The tokens have ended, perhaps inside a loop. -/
  | ended : d.rest = [] →
      Stops d (d.outermost?.map fun o => .malformed .unmatchedOpen o.bracket.span)
  /-- A block ends that never began. -/
  | unmatched {t rest} : d.rest = t :: rest → t.isClose = true → d.opened = [] →
      Stops d (some (.malformed .unmatchedClose t.span))
  | broken {t rest p} : d.rest = t :: rest → Breaks t rest p → Stops d (some p)

theorem isClose_of_repeat {t : Token} (h : t.text = repeatWord) : t.isClose = false := by
  simp [Text.Token.isClose, h, repeatWord]

theorem Takes.step_eq {d d' : Draft} (h : Takes d d') : d.step = .inl d' := by
  cases h with
  | close hclose => simp [step, hclose]
  | loop hrepeat hhead => simp [step, isClose_of_repeat hrepeat, hrepeat, hhead]
  | statement hclose hrepeat hs => simp [step, hclose, hrepeat, hs]

theorem Stops.step_eq {d : Draft} {fault : Option Problem} (h : Stops d fault) :
    d.step = .inr (d.finish fault) := by
  obtain ⟨rest, code, opened⟩ := d
  cases h with
  | ended hrest =>
    dsimp only at hrest
    subst hrest
    rfl
  | unmatched hrest hclose hopened =>
    dsimp only at hrest hopened
    subst hrest hopened
    simp [step, hclose]
  | broken hrest hbreaks =>
    dsimp only at hrest
    subst hrest
    rcases hbreaks with ⟨hrepeat, hhead⟩ | ⟨hclose, hrepeat, hs⟩
    · simp [step, isClose_of_repeat hrepeat, hrepeat, hhead]
    · simp [step, hclose, hrepeat, hs]

/-- There is nothing else that can happen at a draft. -/
theorem takes_or_stops (d : Draft) : (∃ d', Takes d d') ∨ ∃ fault, Stops d fault := by
  obtain ⟨rest, code, opened⟩ := d
  cases rest with
  | nil => exact .inr ⟨_, .ended rfl⟩
  | cons t rest =>
    by_cases hclose : t.isClose = true
    · cases opened with
      | nil => exact .inr ⟨_, .unmatched rfl hclose rfl⟩
      | cons o opened => exact .inl ⟨_, .close hclose⟩
    by_cases hrepeat : t.text = repeatWord
    · cases hhead : readLoopHead t rest with
      | error p => exact .inr ⟨_, .broken rfl (.inl ⟨hrepeat, hhead⟩)⟩
      | ok head => exact .inl ⟨_, .loop hrepeat hhead⟩
    · have hclose : t.isClose = false := by simpa using hclose
      cases hs : readStatement t rest with
      | error p => exact .inr ⟨_, .broken rfl (.inr ⟨hclose, hrepeat, hs⟩)⟩
      | ok r => exact .inl ⟨_, .statement hclose hrepeat hs⟩

theorem step_eq_inl {d d' : Draft} : d.step = .inl d' ↔ Takes d d' := by
  constructor
  · intro h
    rcases takes_or_stops d with ⟨d₁, htakes⟩ | ⟨fault, hstops⟩
    · obtain rfl : d₁ = d' := by simpa [htakes.step_eq] using h
      exact htakes
    · rw [hstops.step_eq] at h
      cases h
  · exact Takes.step_eq

theorem step_eq_inr {d : Draft} {p : Program} :
    d.step = .inr p ↔ ∃ fault, Stops d fault ∧ p = d.finish fault := by
  constructor
  · intro h
    rcases takes_or_stops d with ⟨d₁, htakes⟩ | ⟨fault, hstops⟩
    · rw [htakes.step_eq] at h
      cases h
    · obtain rfl : d.finish fault = p := by simpa [hstops.step_eq] using h
      exact ⟨fault, hstops, rfl⟩
  · rintro ⟨fault, hstops, rfl⟩
    exact hstops.step_eq

/-! ## Faults -/

section Breaks

variable {t : Token} {rest : List Token} {p : Problem}

theorem Breaks.mark (h : Breaks t rest p) :
    t.isOpen = true ∨ t.isClose = true ∨ t.text = repeatWord := by
  rcases h with ⟨hrepeat, -⟩ | ⟨-, -, hs⟩
  · exact .inr (.inr hrepeat)
  · left
    unfold readStatement at hs
    split at hs
    · assumption
    · split at hs
      · cases hs
      · split at hs <;> cases hs

theorem Breaks.malformed (h : Breaks t rest p) : ∃ fault span, p = .malformed fault span := by
  rcases h with ⟨-, hhead⟩ | ⟨-, -, hs⟩
  · unfold readLoopHead at hhead
    repeat' split at hhead
    all_goals cases hhead
    all_goals exact ⟨_, _, rfl⟩
  · unfold readStatement at hs
    repeat' split at hs
    all_goals cases hs
    exact ⟨_, _, rfl⟩

end Breaks

theorem finish_fault (d : Draft) (fault : Option Problem) : (d.finish fault).fault = fault := by
  unfold finish
  split <;> rfl

/-- The reading reports no fault just when it has come to the end with no loop open. -/
theorem Stops.fault_eq_none {d : Draft} {fault : Option Problem} (h : Stops d fault) :
    fault = none ↔ d.rest = [] ∧ d.opened = [] := by
  cases h with
  | ended hrest => simp [hrest, outermost?]
  | unmatched hrest => simp [hrest]
  | broken hrest => simp [hrest]

theorem Stops.malformed {d : Draft} {fault : Option Problem} (h : Stops d fault) {p : Problem}
    (hp : fault = some p) : ∃ f span, p = .malformed f span := by
  cases h with
  | ended =>
    obtain ⟨o, -, rfl⟩ := Option.map_eq_some_iff.mp hp
    exact ⟨_, _, rfl⟩
  | unmatched =>
    cases hp
    exact ⟨_, _, rfl⟩
  | broken _ hbreaks =>
    cases hp
    exact hbreaks.malformed

theorem exists_stops (d : Draft) : ∃ fault, Stops d.last fault ∧ d.run = d.last.finish fault := by
  fun_induction last d with
  | case1 d d' h _ ih =>
    rw [run_of_inl h]
    exact ih
  | case2 d p h =>
    obtain ⟨fault, hstops, rfl⟩ := step_eq_inr.mp h
    exact ⟨fault, hstops, run_of_inr h⟩

end Draft

/-! ## Sentences are read -/

theorem modify_size {α : Type} (xs : Array α) (x : α) (ys : List α) (f : α → α) :
    (xs ++ (x :: ys).toArray).modify xs.size f = xs ++ (f x :: ys).toArray := by
  apply Array.ext_getElem?
  intro i
  rw [Array.getElem?_modify]
  grind

/-- A sentence is read as its block. The token after it must not be an input, or the last
statement might take it. -/
theorem Sentence.steps {ts : List Token} {b : Block} (h : Sentence ts b) {rest : List Token}
    (hrest : StartsFresh rest) (code : Array Instr) (opened : List OpenLoop) :
    Draft.Steps ⟨ts ++ rest, code, opened⟩ ⟨rest, code ++ b.flatten.toArray, opened⟩ := by
  induction h generalizing rest code opened with
  | done => simpa [Block.flatten, Draft.Steps] using Relation.ReflTransGen.refl
  | @statement first run ts s next hphrase hnext ih =>
    obtain ⟨-, hclose, hrepeat⟩ := hphrase.first_not_mark
    have hread : readStatement first (run ++ ts ++ rest) = .ok (s, ts ++ rest) := by
      rw [readStatement_eq_ok hclose hrepeat]
      exact ⟨run, by simp, hphrase.of_startsFresh (·.append hrest)⟩
    refine .head (Draft.Takes.statement hclose hrepeat hread).step_eq ?_
    simpa [Block.flatten, Draft.Steps] using ih hrest (code.push (.statement s)) opened
  | @loop start count opening inner closing ts n body next hstart hcount hopening hinner hclosing
      hnext ihinner ihnext =>
    have hhead : readLoopHead start (count :: opening :: (inner ++ closing :: ts ++ rest)) =
        .ok ⟨n, opening, inner ++ closing :: ts ++ rest⟩ :=
      readLoopHead_eq_ok.mpr ⟨count, rfl, hcount, hopening⟩
    refine .head (Draft.Takes.loop hstart hhead).step_eq ?_
    -- the body is read into the open loop
    have hfresh : StartsFresh (closing :: (ts ++ rest)) := startsFresh_mark (.inr (.inl hclosing))
    have hbody := ihinner hfresh (code.push (.loop n 0 start.span))
      (⟨code.size, opening⟩ :: opened)
    refine Relation.ReflTransGen.trans (by simpa [Draft.Steps] using hbody) ?_
    -- the closing bracket fills in the loop's length
    refine .head (Draft.Takes.close hclosing).step_eq ?_
    have hafter := ihnext hrest
      (code ++ (.loop n body.flatten.length start.span :: body.flatten).toArray) opened
    simpa [Block.flatten, Draft.Steps, modify_size, Instr.withLen] using hafter

/-! ## What stops the reading -/

/-- Neither a statement nor a whole loop begins here. -/
inductive Blocked : List Token → Prop where
  | ended : Blocked []
  | closing {t rest} : t.isClose = true → Blocked (t :: rest)
  | broken {t rest p} : Draft.Breaks t rest p → Blocked (t :: rest)
  /-- A loop begins whose block does not end: after the sentence in it comes something else. -/
  | unclosed {start count opening inner rest n body} : start.text = repeatWord →
      IsCount count.text n → opening.isOpen = true → Sentence inner body → Blocked rest →
      (∀ t, rest.head? = some t → t.isClose = false) →
      Blocked (start :: count :: opening :: (inner ++ rest))

theorem Blocked.startsFresh {rest : List Token} (h : Blocked rest) : StartsFresh rest := by
  cases h with
  | ended => exact startsFresh_nil
  | closing hclose => exact startsFresh_mark (.inr (.inl hclose))
  | broken hbreaks => exact startsFresh_mark hbreaks.mark
  | unclosed hstart => exact startsFresh_mark (.inr (.inr hstart))

/-- All tokens up to the first place at which no statement and no whole loop begins make a
sentence. -/
theorem exists_sentence_blocked (ts : List Token) :
    ∃ read rest b, ts = read ++ rest ∧ Sentence read b ∧ Blocked rest := by
  -- a loop leaves the tokens after its block to be divided, so the induction is on the length
  induction hlen : ts.length using Nat.strongRecOn generalizing ts with
  | ind n ih =>
    subst hlen
    cases ts with
    | nil => exact ⟨[], [], .done, rfl, .done, .ended⟩
    | cons t ts =>
      by_cases hclose : t.isClose = true
      · exact ⟨[], t :: ts, .done, rfl, .done, .closing hclose⟩
      by_cases hrepeat : t.text = repeatWord
      · cases hhead : readLoopHead t ts with
        | error p => exact ⟨[], t :: ts, .done, rfl, .done, .broken (.inl ⟨hrepeat, hhead⟩)⟩
        | ok head =>
          obtain ⟨count, rfl, hcount, hopen⟩ := readLoopHead_eq_ok.mp hhead
          obtain ⟨inner, rest, body, hrest, hinner, hblocked⟩ :=
            ih head.rest.length (by simp only [List.length_cons]; omega) head.rest rfl
          rw [hrest]
          by_cases hend : ∀ t', rest.head? = some t' → t'.isClose = false
          · exact ⟨[], _, .done, rfl, .done, .unclosed hrepeat hcount hopen hinner hblocked hend⟩
          · -- the block ends, and the tokens after it are divided in turn
            cases rest with
            | nil => simp at hend
            | cons closing rest =>
              have hclosing : closing.isClose = true := by simpa using hend
              obtain ⟨read, rest', b, hrest', hread, hblocked'⟩ :=
                ih rest.length (by simp [hrest]; omega) rest rfl
              refine ⟨t :: count :: head.bracket :: (inner ++ closing :: read), rest', _, ?_,
                .loop hrepeat hcount hopen hinner hclosing hread, hblocked'⟩
              simp [hrest']
      · have hclose : t.isClose = false := by simpa using hclose
        cases hs : readStatement t ts with
        | error p =>
          exact ⟨[], t :: ts, .done, rfl, .done, .broken (.inr ⟨hclose, hrepeat, hs⟩)⟩
        | ok r =>
          obtain ⟨s, ts'⟩ := r
          obtain ⟨run, rfl, hphrase⟩ := (readStatement_eq_ok hclose hrepeat).mp hs
          obtain ⟨read, rest, b, rfl, hread, hblocked⟩ :=
            ih ts'.length (by simp only [List.length_cons, List.length_append]; omega) ts' rfl
          exact ⟨t :: (run ++ read), rest, .statement s b, by simp,
            .statement (hphrase.of_startsFresh (·.of_append)) hread, hblocked⟩

/-- The loop that a blocked reading leaves open first: it begins with the first token and stands
right after the code that was there before. -/
def OpenedFirst (ts : List Token) (code : Array Instr) (opened : List OpenLoop) (d : Draft) :
    Prop :=
  ∃ start rest count bracket inside extra, ts = start :: rest ∧ start.text = repeatWord ∧
    d.opened = inside ++ ⟨code.size, bracket⟩ :: opened ∧
    d.code = code ++ (.loop count 0 start.span :: extra).toArray

/-- Blocked tokens stop the reading, at once or among the loops that they open. -/
theorem Blocked.halts {ts : List Token} (h : Blocked ts) (code : Array Instr)
    (opened : List OpenLoop)
    (hend : opened = [] ∨ ∀ t, ts.head? = some t → t.isClose = false) :
    ∃ d fault, Draft.Steps ⟨ts, code, opened⟩ d ∧ Draft.Stops d fault ∧
      (d = ⟨ts, code, opened⟩ ∨ OpenedFirst ts code opened d) := by
  induction h generalizing code opened with
  | ended => exact ⟨_, _, .refl, .ended rfl, .inl rfl⟩
  | @closing t rest hclose =>
    have hopened : opened = [] := by simpa [hclose] using hend
    exact ⟨_, _, .refl, .unmatched rfl hclose hopened, .inl rfl⟩
  | broken hbreaks => exact ⟨_, _, .refl, .broken rfl hbreaks, .inl rfl⟩
  | @unclosed start count opening inner rest n body hstart hcount hopening hinner hblocked hnext
      ih =>
    have hhead : readLoopHead start (count :: opening :: (inner ++ rest)) =
        .ok ⟨n, opening, inner ++ rest⟩ :=
      readLoopHead_eq_ok.mpr ⟨count, rfl, hcount, hopening⟩
    have hbody := hinner.steps hblocked.startsFresh (code.push (.loop n 0 start.span))
      (⟨code.size, opening⟩ :: opened)
    obtain ⟨d, fault, hsteps, hstops, hd⟩ :=
      ih (code.push (.loop n 0 start.span) ++ body.flatten.toArray)
        (⟨code.size, opening⟩ :: opened) (.inr hnext)
    refine ⟨d, fault, (hbody.trans hsteps).head (Draft.Takes.loop hstart hhead).step_eq,
      hstops, .inr ?_⟩
    rcases hd with rfl | ⟨start', _, n', bracket, inside, extra, -, -, hopened, hcode⟩
    · exact ⟨start, _, n, opening, [], body.flatten, rfl, hstart, rfl, by simp⟩
    · -- inner loops that stay open lie above this one on the stack, and after it in the code
      refine ⟨start, _, n, opening, inside ++ [⟨code.size + (body.flatten.length + 1), bracket⟩],
        body.flatten ++ .loop n' 0 start'.span :: extra, rfl, hstart, ?_, ?_⟩
      · simp [hopened]
      · simp [hcode]

namespace Draft

/-- What the draft keeps when it stops ends before the token `t`: it begins the outermost loop
still open or, if none is, the statement that the reading has come to. -/
def CutsAt (d : Draft) (t : Token) : Prop :=
  match d.outermost? with
  | some o => t.text = repeatWord ∧ ∃ count, d.code[o.index]? = some (.loop count 0 t.span)
  | none => d.rest.head? = some t

/-- Every list of tokens is a sentence, which is what is kept, and something blocked, which is
nothing unless there is a fault. -/
theorem read_sentence (ts : List Token) :
    ∃ read rest b, ts = read ++ rest ∧ Sentence read b ∧
      (start ts).run.code = b.flatten.toArray ∧
      ((start ts).run.fault = none ↔ rest = []) ∧
      ∀ t, rest.head? = some t → (start ts).last.CutsAt t := by
  obtain ⟨read, rest, b, rfl, hread, hblocked⟩ := exists_sentence_blocked ts
  obtain ⟨d, fault, hsteps, hstops, hd⟩ := hblocked.halts b.flatten.toArray [] (.inl rfl)
  have hall : Steps (start (read ++ rest)) d := by
    have := hread.steps hblocked.startsFresh #[] []
    exact .trans (by simpa [start, Steps] using this) hsteps
  have hrun : (start (read ++ rest)).run = d.finish fault := by
    rw [hall.run_eq, run_of_inr hstops.step_eq]
  have hlast : (start (read ++ rest)).last = d := by
    rw [hall.last_eq, last_of_inr hstops.step_eq]
  refine ⟨read, rest, b, rfl, hread, ?_, ?_, ?_⟩
  · -- the reading stops after the sentence, or in a loop that is cut off again
    rw [hrun]
    rcases hd with rfl | ⟨_, _, n, bracket, inside, extra, -, -, hopened, hcode⟩
    · rfl
    · simp [finish, outermost?, hopened, hcode]
  · -- no fault means that the tokens have ended with no loop open
    rw [hrun, finish_fault, hstops.fault_eq_none]
    rcases hd with rfl | ⟨_, _, n, bracket, inside, extra, hts, -, hopened, -⟩
    · simp
    · simp [hopened, hts]
  · intro t ht
    rw [hlast]
    rcases hd with rfl | ⟨start, _, n, bracket, inside, extra, hts, hrepeat, hopened, hcode⟩
    · exact ht
    · obtain rfl : start = t := by simpa [hts] using ht
      simp [CutsAt, outermost?, hopened, hcode, hrepeat]

end Draft

/-! ## Reading texts -/

theorem Sentence.run_eq {ts : List Token} {b : Block} (h : Sentence ts b) :
    (Draft.start ts).run = ⟨b.flatten.toArray, none⟩ := by
  have hsteps := h.steps startsFresh_nil #[] []
  have hstep : (⟨[], b.flatten.toArray, []⟩ : Draft).step = .inr ⟨b.flatten.toArray, none⟩ := rfl
  rw [← Draft.run_of_inr hstep]
  exact Draft.Steps.run_eq (by simpa [Draft.start] using hsteps)

theorem Sentence.read_eq {text : String} {b : Block} (h : Sentence (tokens text) b) :
    Program.read text = ⟨b.flatten.toArray, none⟩ :=
  h.run_eq

theorem Sentence.unique {text : String} {b b' : Block} (h : Sentence (tokens text) b)
    (h' : Sentence (tokens text) b') : b = b' := by
  have hprogram := h.read_eq.symm.trans h'.read_eq
  have hcode := congrArg (fun p => p.code.toList) hprogram
  exact Block.flatten_injective hcode

theorem exists_sentence_of_run {ts : List Token} (h : (Draft.start ts).run.fault = none) :
    ∃ b, Sentence ts b := by
  obtain ⟨read, rest, b, hts, hread, -, hfault, -⟩ := Draft.read_sentence ts
  obtain rfl : rest = [] := hfault.mp h
  exact ⟨b, by simpa [hts] using hread⟩

theorem exists_sentence_of_fault_none {text : String} (h : (Program.read text).fault = none) :
    ∃ b, Sentence (tokens text) b :=
  exists_sentence_of_run h

/-- What is kept of a text is the block of a sentence with which the text begins. -/
theorem exists_sentence_prefix (text : String) :
    ∃ ts b, ts <+: tokens text ∧ Sentence ts b ∧
      (Program.read text).code = b.flatten.toArray := by
  obtain ⟨read, rest, b, htokens, hread, hcode, -⟩ := Draft.read_sentence (tokens text)
  exact ⟨read, b, ⟨rest, htokens.symm⟩, hread, hcode⟩

/-- The program of any text is a block in preorder. -/
theorem exists_block (text : String) :
    ∃ b : Block, (Program.read text).code.toList = b.flatten := by
  obtain ⟨_, b, -, -, hcode⟩ := exists_sentence_prefix text
  exact ⟨b, by rw [hcode]⟩

/-- The reading and the grammar agree. A text is read without a fault just when its tokens make a
block, which is then the only one, and the program is that block in preorder. With a fault, the
program is still the preorder of a block, namely of a sentence that the text begins with. So no
loop of a program ever reaches past the end of the code or past a loop around it. -/
theorem read_iff_sentence (text : String) :
    ((Program.read text).fault = none ↔ ∃ b, Sentence (tokens text) b) ∧
      (∀ b, Sentence (tokens text) b →
        Program.read text = ⟨b.flatten.toArray, none⟩ ∧
          ∀ b', Sentence (tokens text) b' → b' = b) ∧
      (∃ ts b, ts <+: tokens text ∧ Sentence ts b ∧
        (Program.read text).code = b.flatten.toArray) ∧
      Nested (Program.read text).code.toList := by
  refine ⟨⟨exists_sentence_of_fault_none, ?_⟩, ?_, exists_sentence_prefix text, ?_⟩
  · rintro ⟨b, hb⟩
    rw [hb.read_eq]
  · intro b hb
    exact ⟨hb.read_eq, fun b' hb' => hb'.unique hb⟩
  · obtain ⟨b, hflat⟩ := exists_block text
    rw [hflat]
    exact b.nested_flatten

end TurtleGraphics
